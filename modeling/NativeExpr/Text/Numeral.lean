/-!
# Numbers as text

Hexadecimal numerals in lower case without leading zeros, and signed decimal
numerals whose sign is always written.
-/

namespace NativeExpr.Text

/-- A hexadecimal numeral with its marker, such as `0xff`. -/
def hex (value : Nat) : String := "0x" ++ String.ofList (Nat.toDigits 16 value)

/-- A decimal numeral with its sign, such as `-16` or `+0`. -/
def signed (value : Int) : String :=
  if value < 0 then toString value else "+" ++ toString value

end NativeExpr.Text
