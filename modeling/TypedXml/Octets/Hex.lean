import TypedXml.Text.Utf8

/-!
# Hexadecimal octets

Every octet is written as two digits, the higher half first.  Writing uses lower-case letters,
reading takes both cases; a text with an odd number of digits is refused.
-/

set_option autoImplicit false

namespace TypedXml.Octets.Hex

/-- The value of a hexadecimal digit in either case. -/
def digit? (c : Char) : Option UInt8 :=
  if '0' ≤ c && c ≤ '9' then some (c.toNat - '0'.toNat).toUInt8
  else if 'a' ≤ c && c ≤ 'f' then some (c.toNat - 'a'.toNat + 10).toUInt8
  else if 'A' ≤ c && c ≤ 'F' then some (c.toNat - 'A'.toNat + 10).toUInt8
  else none

/-- The lower-case digit of a value below sixteen. -/
def digit (n : UInt8) : Char :=
  if n < 10 then Char.ofNat ('0'.toNat + n.toNat) else Char.ofNat ('a'.toNat + (n.toNat - 10))

/-- The two digits of every octet. -/
def encode (bytes : Octets) : List Char :=
  bytes.flatMap fun b => [digit (b / 16), digit (b % 16)]

/-- The octets that pairs of digits denote. -/
def decode? : List Char → Option Octets
  | [] => some []
  | [_] => none
  | a :: b :: rest => do
    let high ← digit? a
    let low ← digit? b
    let bytes ← decode? rest
    pure ((high * 16 + low) :: bytes)

end TypedXml.Octets.Hex
