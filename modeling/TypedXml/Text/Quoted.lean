import TypedXml.Text.Printable

/-!
# Quoted text in messages

A message that repeats a piece of its input writes it between double quotes, so that quotes,
controls and characters without a glyph stay visible.
-/

set_option autoImplicit false

namespace TypedXml.Text

/-- The hexadecimal digits of a number, without leading zeros. -/
def hexNumber (n : Nat) : List Char :=
  Nat.toDigits 16 n

/-- A character as a quoted text shows it: escaped by a backslash, by its number in braces when it
is not printable, or as it is. -/
def quoteChar (c : Char) : List Char :=
  if c == '\x00' then ['\\', '0']
  else if c == '\t' then ['\\', 't']
  else if c == '\r' then ['\\', 'r']
  else if c == '\n' then ['\\', 'n']
  else if c == '"' || c == '\\' then ['\\', c]
  else if isPrintable c then [c]
  else ['\\', 'u', '\x7b'] ++ hexNumber c.toNat ++ ['\x7d']

/-- A text between double quotes. -/
def quote (cs : List Char) : List Char :=
  '"' :: cs.flatMap quoteChar ++ ['"']

/-- Octets between double quotes: printable ASCII as it is, a double quote behind a backslash, and
every other octet as `0x` and its hexadecimal number. -/
def quoteOctets (bytes : List UInt8) : List Char :=
  '"' :: (bytes.flatMap fun b =>
    if b == 34 then ['\\', '"']
    else if 32 ≤ b && b ≤ 126 then [Char.ofNat b.toNat]
    else ['0', 'x'] ++ (hexNumber b.toNat).map Char.toUpper) ++ ['"']

end TypedXml.Text
