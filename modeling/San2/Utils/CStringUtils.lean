import Mathlib.Data.List.DropRight
import San2.Utils.Hex

/-!
# Strings and numbers

`trim` takes the blanks off both ends of a line, `split` cuts it into its fields, and two
functions convert an `unsigned int` to a string and back by means of string streams.
-/

namespace San2.Utils.CStringUtils

/-- `ltrim` -/
def ltrim (s : Bytes) : Bytes := s.dropWhile isspace

/-- `rtrim` -/
def rtrim (s : Bytes) : Bytes := s.rdropWhile isspace

/-- `trim` -/
def trim (s : Bytes) : Bytes := ltrim (rtrim s)

/-- `split`. The fields that `std::getline` reads, without the empty ones. -/
def split (inputString : Bytes) (delimiter : UInt8) : List Bytes :=
  (inputString.splitOn delimiter).filter fun field => field ≠ []

/-- The digits of a number, most significant first. -/
def uintToString (num : UInt32) : Bytes :=
  (Nat.toDigits 10 num.toNat).map fun c => UInt8.ofNat c.toNat

/-- `isdigit` in the C locale. -/
def isdigit (c : UInt8) : Bool := 0x30 ≤ c && c ≤ 0x39

/-- `stringToUint`. Blanks and a sign may stand before the digits, and anything behind them.
A number that is too large is refused, and a negative one wraps around. -/
def stringToUint (sNum : Bytes) : Option UInt32 :=
  let rest := sNum.dropWhile isspace
  let sign := if rest.head? = some 0x2B ∨ rest.head? = some 0x2D then 1 else 0
  let digits := (rest.drop sign).takeWhile isdigit
  let number := Numeral.value 10 (digits.map digitValue)
  if digits = [] then none
  else if 4294967296 ≤ number then none
  else some (if rest.head? = some 0x2D then -UInt32.ofNat number else UInt32.ofNat number)

end San2.Utils.CStringUtils
