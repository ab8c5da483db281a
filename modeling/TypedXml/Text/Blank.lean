/-!
# Blank characters

Two classes of white space meet in a typed document.  Markup separates its parts by the four
characters of `isMarkupSpace`; the text of a scalar is trimmed of every character that Unicode
counts as white space, the larger class of `isBlank`.
-/

set_option autoImplicit false

namespace TypedXml.Text

/-- White space in markup: space, tab, carriage return and line feed. -/
def isMarkupSpace (c : Char) : Bool :=
  c == ' ' || c == '\t' || c == '\r' || c == '\n'

/-- The Unicode property `White_Space`. -/
def isBlank (c : Char) : Bool :=
  (0x9 ≤ c.val && c.val ≤ 0xD) || c.val == 0x20 || c.val == 0x85 || c.val == 0xA0 ||
    c.val == 0x1680 || (0x2000 ≤ c.val && c.val ≤ 0x200A) || c.val == 0x2028 ||
    c.val == 0x2029 || c.val == 0x202F || c.val == 0x205F || c.val == 0x3000

/-- A text without the characters of a class that it ends in. -/
def dropTrailing (p : Char → Bool) (cs : List Char) : List Char :=
  (cs.reverse.dropWhile p).reverse

/-- A text without the blank characters at either end. -/
def trimBlanks (cs : List Char) : List Char :=
  dropTrailing isBlank (cs.dropWhile isBlank)

end TypedXml.Text
