import TypedXml.Xml.Fault

/-!
# References

Markup characters in text are written as references, from `&` to `;`.  Writing uses the five
predefined names and nothing else; reading also knows references by number.
-/

set_option autoImplicit false

namespace TypedXml.Xml

/-- A character as it stands in written text: by the name of its reference if it is a markup
character. -/
def escapeChar (c : Char) : List Char :=
  if c == '<' then ['&', 'l', 't', ';']
  else if c == '>' then ['&', 'g', 't', ';']
  else if c == '&' then ['&', 'a', 'm', 'p', ';']
  else if c == '\'' then ['&', 'a', 'p', 'o', 's', ';']
  else if c == '"' then ['&', 'q', 'u', 'o', 't', ';']
  else [c]

/-- A text with its markup characters written as references. -/
def escape (cs : List Char) : List Char :=
  cs.flatMap escapeChar

namespace Reference

/-- The character that a reference by name denotes, if the name is one of the five. -/
def predefined? : List Char → Option Char
  | ['l', 't'] => some '<'
  | ['g', 't'] => some '>'
  | ['a', 'm', 'p'] => some '&'
  | ['a', 'p', 'o', 's'] => some '\''
  | ['q', 'u', 'o', 't'] => some '"'
  | _ => none

/-- The value of a decimal digit. -/
def decimalDigit? (c : Char) : Option Nat :=
  if c.isDigit then some (c.toNat - '0'.toNat) else none

/-- The value of a hexadecimal digit in either case. -/
def hexadecimalDigit? (c : Char) : Option Nat :=
  if c.isDigit then some (c.toNat - '0'.toNat)
  else if 'a' ≤ c && c ≤ 'f' then some (c.toNat - 'a'.toNat + 10)
  else if 'A' ≤ c && c ≤ 'F' then some (c.toNat - 'A'.toNat + 10)
  else none

/-- The number that digits denote after the digits read so far, or the fault of the first other
character. -/
def number (base : Nat) (digit? : Char → Option Nat) (fault : Char → ReferenceFault) :
    Nat → List Char → Except ReferenceFault Nat
  | n, [] => .ok n
  | n, c :: rest =>
    match digit? c with
    | some d => number base digit? fault (n * base + d) rest
    | none => .error (fault (Text.Utf8.firstOctet c))

/-- The number of a reference by number: hexadecimal behind an `x`, decimal otherwise. -/
def codePoint : List Char → Except ReferenceFault Nat
  | 'x' :: digits =>
    if Text.Utf8.size digits > 6 then .error .longHexadecimal
    else number 16 hexadecimalDigit? .notHexadecimal 0 digits
  | digits =>
    if Text.Utf8.size digits > 7 then .error .longDecimal
    else number 10 decimalDigit? .notDecimal 0 digits

/-- The character that a reference between its `&` at `start` and its `;` at `finish` denotes. -/
def resolve (start finish : Nat) : List Char → Except ReferenceFault Char
  | '#' :: digits =>
    match codePoint digits with
    | .error fault => .error fault
    | .ok 0 => .error (.nullCharacter start finish)
    | .ok n => if n.isValidChar then .ok (Char.ofNat n) else .error (.noCharacter n)
  | name =>
    match predefined? name with
    | some c => .ok c
    | none => .error (.unrecognized (start + 1) finish name)

/-- Resolve the references of a text of `total` octets from the position `pos` on.  Inside a
reference the position of its `&` and its characters in reverse are known. -/
def unescapeFrom (total : Nat) : Nat → Option (Nat × List Char) → List Char →
    Except ReferenceFault (List Char)
  | _, none, [] => .ok []
  | _, some (start, _), [] => .error (.unterminated start total)
  | pos, none, c :: rest =>
    if c == '&' then unescapeFrom total (pos + 1) (some (pos, [])) rest
    else (unescapeFrom total (pos + c.utf8Size) none rest).map (c :: ·)
  | pos, some (start, seen), c :: rest =>
    if c == ';' then
      match resolve start pos seen.reverse with
      | .error fault => .error fault
      | .ok resolved => (unescapeFrom total (pos + 1) none rest).map (resolved :: ·)
    else if c == '&' then .error (.unterminated start total)
    else unescapeFrom total (pos + c.utf8Size) (some (start, c :: seen)) rest

end Reference

/-- A text with its references resolved, or the first fault among them. -/
def unescape (cs : List Char) : Except ReferenceFault (List Char) :=
  Reference.unescapeFrom (Text.Utf8.size cs) 0 none cs

end TypedXml.Xml
