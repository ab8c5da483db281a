import TypedXml.Text.Utf8

/-!
# Base-64 octets

Three octets are written as four characters of a 64-letter alphabet; one or two octets at the end
are padded by `=` to four characters.  Reading is canonical: the padding must be there and the
spare bits of the last character must be zero, so each octet sequence has one written form.
-/

set_option autoImplicit false

namespace TypedXml.Octets.Base64

/-- The letter of a value below 64. -/
def letter (n : UInt8) : Char :=
  if n < 26 then Char.ofNat ('A'.toNat + n.toNat)
  else if n < 52 then Char.ofNat ('a'.toNat + (n.toNat - 26))
  else if n < 62 then Char.ofNat ('0'.toNat + (n.toNat - 52))
  else if n == 62 then '+'
  else '/'

/-- The value of a letter of the alphabet. -/
def value? (c : Char) : Option UInt8 :=
  if 'A' ≤ c && c ≤ 'Z' then some (c.toNat - 'A'.toNat).toUInt8
  else if 'a' ≤ c && c ≤ 'z' then some (c.toNat - 'a'.toNat + 26).toUInt8
  else if '0' ≤ c && c ≤ '9' then some (c.toNat - '0'.toNat + 52).toUInt8
  else if c == '+' then some 62
  else if c == '/' then some 63
  else none

/-- The written form of an octet sequence. -/
def encode : Octets → List Char
  | [] => []
  | [a] => [letter (a >>> 2), letter ((a &&& 3) <<< 4), '=', '=']
  | [a, b] =>
    [letter (a >>> 2), letter (((a &&& 3) <<< 4) ||| (b >>> 4)), letter ((b &&& 15) <<< 2), '=']
  | a :: b :: c :: rest =>
    letter (a >>> 2) :: letter (((a &&& 3) <<< 4) ||| (b >>> 4)) ::
      letter (((b &&& 15) <<< 2) ||| (c >>> 6)) :: letter (c &&& 63) :: encode rest

/-- The octets that a written form denotes. -/
def decode? : List Char → Option Octets
  | [] => some []
  | [a, b, '=', '='] => do
    let a ← value? a
    let b ← value? b
    if b &&& 15 == 0 then some [(a <<< 2) ||| (b >>> 4)] else none
  | [a, b, c, '='] => do
    let a ← value? a
    let b ← value? b
    let c ← value? c
    if c &&& 3 == 0 then some [(a <<< 2) ||| (b >>> 4), (b <<< 4) ||| (c >>> 2)] else none
  | a :: b :: c :: d :: rest => do
    let a ← value? a
    let b ← value? b
    let c ← value? c
    let d ← value? d
    let bytes ← decode? rest
    pure (((a <<< 2) ||| (b >>> 4)) :: ((b <<< 4) ||| (c >>> 2)) :: ((c <<< 6) ||| d) :: bytes)
  | _ => none

end TypedXml.Octets.Base64
