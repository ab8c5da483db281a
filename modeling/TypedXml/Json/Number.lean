import TypedXml.Decimal.Binary64
import TypedXml.Decimal.Integer

/-!
# JSON numbers

A number without fraction and exponent that fits 64 bits, signed or unsigned, is an integer.  Every
other number is binary and is kept by the shortest decimal that denotes it.
-/

set_option autoImplicit false

namespace TypedXml.Json

/-- A JSON number. -/
inductive Number where
  | integer (n : Int)
  | binary (negative : Bool) (digits : Decimal.Binary64.Digits)
  deriving DecidableEq, Repr

namespace Number

/-- The text of binary numbers: positional from `0.00001` below `10 ^ 16`, always with a point
there, and otherwise with an exponent that has its sign. -/
def binaryText (digits : Decimal.Binary64.Digits) : List Char :=
  let ds := Nat.toDigits 10 digits.number
  let point := Int.ofNat ds.length + digits.exponent
  if digits.number == 0 then ['0', '.', '0']
  else if 0 ≤ digits.exponent && point ≤ 16 then
    ds ++ List.replicate digits.exponent.toNat '0' ++ ['.', '0']
  else if 0 < point && point ≤ 16 then
    ds.take point.toNat ++ '.' :: ds.drop point.toNat
  else if -5 < point && point ≤ 0 then
    '0' :: '.' :: List.replicate (-point).toNat '0' ++ ds
  else
    let exponent := point - 1
    let mark := if 0 ≤ exponent then ['e', '+'] else ['e']
    let first := ds.take 1
    let more := ds.drop 1
    first ++ (if more.isEmpty then [] else '.' :: more) ++ mark ++ Decimal.writeInt exponent

/-- The text of a number. -/
def text : Number → List Char
  | .integer n => Decimal.writeInt n
  | .binary negative digits => (if negative then ['-'] else []) ++ binaryText digits

/-- The greatest significand that is read digit by digit. -/
def maxSignificand : Nat := 18446744073709551615

/-- The significand of a run of digits and the number of digits that are left out of it because it
would grow beyond the greatest one. -/
def significand : Nat → List Char → Nat × Nat
  | n, [] => (n, 0)
  | n, c :: rest =>
    let next := n * 10 + (c.toNat - '0'.toNat)
    if next > maxSignificand then (n, rest.length + 1) else significand next rest

/-- The number of a literal: its sign, the digits before the point, those behind it if there is a
point, and its exponent if there is one.  None if the number is too large. -/
def ofLiteral? (negative : Bool) (whole : List Char) (fraction : Option (List Char))
    (exponent : Option Int) : Option Number :=
  let (n, dropped) := significand 0 whole
  let isWhole := fraction.isNone && exponent.isNone && dropped == 0
  if isWhole && !negative then some (.integer (Int.ofNat n))
  else if isWhole && n != 0 && n ≤ 9223372036854775808 then some (.integer (-Int.ofNat n))
  else
    let behind := fraction.getD []
    let (s, rest) :=
      if dropped == 0 then significand n behind else (n, behind.length)
    let power : Int := exponent.getD 0 + Int.ofNat dropped - Int.ofNat (behind.length - rest)
    (Decimal.Binary64.ofLiteral? s power).map fun x => .binary negative x.shortest

end Number

end TypedXml.Json
