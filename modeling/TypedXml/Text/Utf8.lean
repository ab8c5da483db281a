/-!
# Text as octets

The UTF-8 form of a text and the two ways to read octets back: strictly, where one ill-formed
sequence refuses the whole, and with replacement, where every maximal ill-formed sequence becomes
one replacement character.  Both are views of `pieces`, which splits octets into characters and
ill-formed sequences in one pass.
-/

set_option autoImplicit false

namespace TypedXml

/-- A sequence of octets. -/
abbrev Octets := List UInt8

namespace Text.Utf8

/-- The octets of a character list. -/
def encode (cs : List Char) : Octets :=
  cs.flatMap String.utf8EncodeChar

/-- A character begun and not yet complete: how many octets it still needs, the range of the next
of them, and the bits read so far. -/
structure Pending where
  /-- Continuation octets still to come, less one. -/
  more : Nat
  /-- Least value of the next octet. -/
  low : UInt8
  /-- Greatest value of the next octet. -/
  high : UInt8
  bits : Nat

/-- What the first octet of a sequence announces. -/
inductive Lead where
  /-- The octet is a character by itself. -/
  | whole (c : Char)
  /-- The octet begins a longer character. -/
  | longer (p : Pending)
  /-- No character begins with the octet. -/
  | illFormed

/-- The announcement of a first octet.  The narrowed ranges after `E0`, `ED`, `F0` and `F4` keep
out overlong forms, surrogates and code points above `10FFFF`. -/
def lead (b : UInt8) : Lead :=
  if b ≤ 0x7F then .whole (Char.ofNat b.toNat)
  else if 0xC2 ≤ b && b ≤ 0xDF then .longer ⟨0, 0x80, 0xBF, b.toNat - 0xC0⟩
  else if b == 0xE0 then .longer ⟨1, 0xA0, 0xBF, 0⟩
  else if b == 0xED then .longer ⟨1, 0x80, 0x9F, 0xD⟩
  else if 0xE1 ≤ b && b ≤ 0xEF then .longer ⟨1, 0x80, 0xBF, b.toNat - 0xE0⟩
  else if b == 0xF0 then .longer ⟨2, 0x90, 0xBF, 0⟩
  else if 0xF1 ≤ b && b ≤ 0xF3 then .longer ⟨2, 0x80, 0xBF, b.toNat - 0xF0⟩
  else if b == 0xF4 then .longer ⟨2, 0x80, 0x8F, 4⟩
  else .illFormed

/-- The characters of an octet sequence, with `none` for every maximal ill-formed sequence. -/
def pieces : Option Pending → Octets → List (Option Char)
  | none, [] => []
  | some _, [] => [none]
  | none, b :: rest =>
    match lead b with
    | .whole c => some c :: pieces none rest
    | .longer p => pieces (some p) rest
    | .illFormed => none :: pieces none rest
  | some p, b :: rest =>
    if p.low ≤ b && b ≤ p.high then
      let bits := p.bits * 64 + (b.toNat - 0x80)
      match p.more with
      | 0 => some (Char.ofNat bits) :: pieces none rest
      | more + 1 => pieces (some ⟨more, 0x80, 0xBF, bits⟩) rest
    else
      match lead b with
      | .whole c => none :: some c :: pieces none rest
      | .longer q => none :: pieces (some q) rest
      | .illFormed => none :: none :: pieces none rest

/-- The characters of a well-formed octet sequence. -/
def decode? (bytes : Octets) : Option (List Char) :=
  (pieces none bytes).mapM id

/-- The characters of any octet sequence, with a replacement character for every maximal
ill-formed part. -/
def decodeLossy (bytes : Octets) : List Char :=
  (pieces none bytes).map (·.getD '\uFFFD')

/-- The number of octets that a character list takes. -/
def size (cs : List Char) : Nat :=
  cs.foldr (fun c n => c.utf8Size + n) 0

/-- The first octet of a character, read as a character of its own. -/
def firstOctet (c : Char) : Char :=
  match String.utf8EncodeChar c with
  | [] => c
  | b :: _ => Char.ofNat b.toNat

end Text.Utf8

/-- The octets of a text. -/
def Text.toOctets (s : String) : Octets :=
  Text.Utf8.encode s.toList

/-- The text that well-formed octets hold. -/
def Text.ofOctets? (bytes : Octets) : Option String :=
  (Text.Utf8.decode? bytes).map String.ofList

/-- The text that octets hold, ill-formed parts replaced. -/
def Text.ofOctetsLossy (bytes : Octets) : String :=
  String.ofList (Text.Utf8.decodeLossy bytes)

end TypedXml
