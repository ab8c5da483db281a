import TypedXml.Json.Basic

/-!
# Reading JSON

`Json.parse?` reads a text that holds one value.  A nested value is shorter than the value around
it, so the length of the text bounds the nesting.
-/

set_option autoImplicit false

namespace TypedXml.Json.Reader

/-- White space between the tokens of JSON. -/
def isSpace (c : Char) : Bool :=
  c == ' ' || c == '\t' || c == '\n' || c == '\r'

/-- The text behind white space. -/
def skip (cs : List Char) : List Char :=
  cs.dropWhile isSpace

/-- The value of a hexadecimal digit in either case. -/
def hexDigit? (c : Char) : Option Nat :=
  if c.isDigit then some (c.toNat - '0'.toNat)
  else if 'a' ≤ c && c ≤ 'f' then some (c.toNat - 'a'.toNat + 10)
  else if 'A' ≤ c && c ≤ 'F' then some (c.toNat - 'A'.toNat + 10)
  else none

/-- The number of a code unit that is escaped by its four hexadecimal digits. -/
def unit? (a b c d : Char) : Option Nat := do
  let a ← hexDigit? a
  let b ← hexDigit? b
  let c ← hexDigit? c
  let d ← hexDigit? d
  pure (((a * 16 + b) * 16 + c) * 16 + d)

/-- The character that stands behind a backslash in place of its number. -/
def shortEscape? (c : Char) : Option Char :=
  match c with
  | '"' => some '"'
  | '\\' => some '\\'
  | '/' => some '/'
  | 'b' => some '\x08'
  | 'f' => some '\x0c'
  | 'n' => some '\n'
  | 'r' => some '\r'
  | 't' => some '\t'
  | _ => none

/-- The characters of a string up to its closing quote, read so far in reverse, and the text
behind it.  Two escaped halves of a surrogate pair are one character. -/
def stringFrom? (seen : List Char) : List Char → Option (String × List Char)
  | [] => none
  | '"' :: rest => some (String.ofList seen.reverse, rest)
  | '\\' :: 'u' :: a :: b :: c :: d :: '\\' :: 'u' :: e :: f :: g :: h :: rest => do
    let high ← unit? a b c d
    let low ← unit? e f g h
    if 0xD800 ≤ high && high < 0xDC00 then
      if 0xDC00 ≤ low && low < 0xE000 then
        stringFrom? (Char.ofNat (0x10000 + (high - 0xD800) * 0x400 + (low - 0xDC00)) :: seen) rest
      else none
    else if 0xDC00 ≤ high && high < 0xE000 then none
    else stringFrom? (Char.ofNat high :: seen) ('\\' :: 'u' :: e :: f :: g :: h :: rest)
  | '\\' :: 'u' :: a :: b :: c :: d :: rest => do
    let n ← unit? a b c d
    if n.isValidChar then stringFrom? (Char.ofNat n :: seen) rest else none
  | '\\' :: c :: rest => do
    let c ← shortEscape? c
    stringFrom? (c :: seen) rest
  | c :: rest => if c.toNat < 32 then none else stringFrom? (c :: seen) rest
termination_by cs => cs.length

/-- A run of digits and the text behind it. -/
def digits (cs : List Char) : List Char × List Char :=
  (cs.takeWhile Char.isDigit, cs.dropWhile Char.isDigit)

/-- A nonempty run of digits and the text behind it. -/
def digits? (cs : List Char) : Option (List Char × List Char) :=
  match digits cs with
  | ([], _) => none
  | found => some found

/-- The fraction behind a point, if there is a point, and the text behind it. -/
def fraction? : List Char → Option (Option (List Char) × List Char)
  | '.' :: rest => (digits? rest).map fun found => (some found.1, found.2)
  | cs => some (none, cs)

/-- The digits of an exponent behind its sign. -/
def exponentDigits? (negative : Bool) (cs : List Char) : Option (Option Int × List Char) :=
  (digits? cs).map fun found =>
    let n := Nat.ofDigitChars 10 found.1 0
    (some (if negative then -Int.ofNat n else Int.ofNat n), found.2)

/-- The exponent of a number, if it has one, and the text behind it. -/
def exponent? : List Char → Option (Option Int × List Char)
  | c :: rest =>
    if c == 'e' || c == 'E' then
      match rest with
      | '+' :: rest => exponentDigits? false rest
      | '-' :: rest => exponentDigits? true rest
      | rest => exponentDigits? false rest
    else some (none, c :: rest)
  | [] => some (none, [])

/-- A number and the text behind it. -/
def number? (cs : List Char) : Option (Json × List Char) := do
  let (negative, rest) := match cs with
    | '-' :: rest => (true, rest)
    | rest => (false, rest)
  let (whole, rest) ← digits? rest
  if whole.length > 1 && whole.head? == some '0' then none
  else
    let (fraction, rest) ← fraction? rest
    let (exponent, rest) ← exponent? rest
    let n ← Number.ofLiteral? negative whole fraction exponent
    pure (.number n, rest)

/-- The text behind a given word. -/
def after? : List Char → List Char → Option (List Char)
  | [], cs => some cs
  | _ :: _, [] => none
  | w :: ws, c :: cs => if w == c then after? ws cs else none

mutual

/-- A value, nested at most as deeply as the first argument tells, and the text behind it. -/
def value? : Nat → List Char → Option (Json × List Char)
  | 0, _ => none
  | room + 1, cs =>
    match skip cs with
    | 'n' :: rest => (after? "ull".toList rest).map (.null, ·)
    | 't' :: rest => (after? "rue".toList rest).map (.bool true, ·)
    | 'f' :: rest => (after? "alse".toList rest).map (.bool false, ·)
    | '"' :: rest => (stringFrom? [] rest).map fun found => (.string found.1, found.2)
    | '[' :: rest =>
      match skip rest with
      | ']' :: rest => some (.array [], rest)
      | rest => items? room [] rest
    | '\x7b' :: rest =>
      match skip rest with
      | '\x7d' :: rest => some (.object [], rest)
      | rest => members? room [] rest
    | rest => number? rest

/-- The items of a list up to its end, those read so far in reverse. -/
def items? : Nat → List Json → List Char → Option (Json × List Char)
  | 0, _, _ => none
  | room + 1, seen, cs => do
    let (item, rest) ← value? room cs
    match skip rest with
    | ',' :: rest => items? room (item :: seen) rest
    | ']' :: rest => some (.array (item :: seen).reverse, rest)
    | _ => none

/-- The members of an object up to its end, those read so far in reverse. -/
def members? : Nat → List (String × Json) → List Char → Option (Json × List Char)
  | 0, _, _ => none
  | room + 1, seen, cs =>
    match skip cs with
    | '"' :: rest => do
      let (name, rest) ← stringFrom? [] rest
      match skip rest with
      | ':' :: rest => do
        let (value, rest) ← value? room rest
        match skip rest with
        | ',' :: rest => members? room ((name, value) :: seen) rest
        | '\x7d' :: rest => some (.object ((name, value) :: seen).reverse, rest)
        | _ => none
      | _ => none
    | _ => none

end

end TypedXml.Json.Reader

namespace TypedXml.Json

/-- The value that a text holds, with nothing but white space around it. -/
def parse? (text : String) : Option Json :=
  let cs := text.toList
  match Reader.value? (cs.length + 1) cs with
  | some (json, rest) => if (Reader.skip rest).isEmpty then some json else none
  | none => none

end TypedXml.Json
