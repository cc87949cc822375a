/-!
# Reading numbers

A number is a sequence of ASCII digits, with or without a sign before it, and has to
fit into 64 bits. A count has no minus sign and may stand between blanks.
-/

namespace NativeExpr.Text

/-- Whether a character is white space in the sense of the Unicode property. -/
def isBlank (character : Char) : Bool :=
  let code := character.toNat
  (9 ≤ code && code ≤ 13) || code == 0x20 || code == 0x85 || code == 0xA0 || code == 0x1680 ||
    (0x2000 ≤ code && code ≤ 0x200A) || code == 0x2028 || code == 0x2029 || code == 0x202F ||
    code == 0x205F || code == 0x3000

/-- The characters between leading and trailing blanks. -/
def trim (characters : List Char) : List Char :=
  ((characters.dropWhile isBlank).reverse.dropWhile isBlank).reverse

/-- The number that ASCII digits stand for; no digits stand for no number. -/
def digits? (characters : List Char) : Option Nat :=
  if characters ≠ [] && characters.all Char.isDigit then
    some (characters.foldl (fun value digit => 10 * value + (digit.toNat - '0'.toNat)) 0)
  else
    none

/-- The number that digits stand for, with or without a plus sign. -/
def unsigned? : List Char → Option Nat
  | '+' :: rest => digits? rest
  | characters => digits? characters

/-- The number that digits stand for, with or without a sign. -/
def integer? : List Char → Option Int
  | '-' :: rest => (digits? rest).map fun value => -(value : Int)
  | characters => (unsigned? characters).map fun value => (value : Int)

/-- A count that fits into 64 bits. -/
def count? (text : String) : Option Nat :=
  (unsigned? (trim text.toList)).filter fun value => value < UInt64.size

/-- A signed number that fits into 64 bits. -/
def int64? (text : String) : Option (BitVec 64) :=
  ((integer? text.toList).filter fun value =>
    -0x8000000000000000 ≤ value && value < 0x8000000000000000).map (BitVec.ofInt 64)

end NativeExpr.Text
