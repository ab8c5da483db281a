/-!
# Decimal integers

The written form of an integer has no leading zeros and a sign only when it is negative.  Reading
is wider: it takes either sign and any number of leading zeros.
-/

set_option autoImplicit false

namespace TypedXml.Decimal

/-- The number that a nonempty run of digits denotes. -/
def readNat? (cs : List Char) : Option Nat :=
  if !cs.isEmpty && cs.all Char.isDigit then some (Nat.ofDigitChars 10 cs 0) else none

/-- The integer that a run of digits behind an optional sign denotes. -/
def readInt? : List Char → Option Int
  | '+' :: digits => (readNat? digits).map Int.ofNat
  | '-' :: digits => (readNat? digits).map fun n => -Int.ofNat n
  | digits => (readNat? digits).map Int.ofNat

/-- The digits of an integer, behind a minus sign if it is negative. -/
def writeInt : Int → List Char
  | .ofNat n => Nat.toDigits 10 n
  | .negSucc n => '-' :: Nat.toDigits 10 (n + 1)

end TypedXml.Decimal
