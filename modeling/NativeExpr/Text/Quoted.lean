import NativeExpr.Text.Numeral
import NativeExpr.Text.Unprintable

/-!
# Quoted text

A text between quotation marks, in which quotation marks and backslashes are escaped
and characters that a reader could not tell are written by name or by number.
-/

namespace NativeExpr.Text

/-- The number of a character, between braces. -/
def escapedByNumber (character : Char) : String :=
  "\\u\x7b" ++ String.ofList (Nat.toDigits 16 character.toNat) ++ "\x7d"

/-- A character as it stands in quoted text. -/
def escaped (character : Char) : String :=
  if character = '\x00' then "\\0"
  else if character = '\t' then "\\t"
  else if character = '\n' then "\\n"
  else if character = '\r' then "\\r"
  else if character = '"' then "\\\""
  else if character = '\\' then "\\\\"
  else if isUnprintable character then escapedByNumber character
  else character.toString

/-- A text between quotation marks. -/
def quoted (text : String) : String :=
  "\"" ++ String.join (text.toList.map escaped) ++ "\""

end NativeExpr.Text
