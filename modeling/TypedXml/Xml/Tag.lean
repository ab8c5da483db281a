import TypedXml.Text.Blank
import TypedXml.Xml.Fault
import TypedXml.Xml.Reference

/-!
# Tags

The characters of a start tag or an empty-element tag are a name and attributes.  `Tag.items`
reads the attributes one by one up to the first malformed one; `Tag.write` writes a tag.
-/

set_option autoImplicit false

namespace TypedXml.Xml

/-- An attribute as it is written: its value still holds references. -/
structure WrittenAttribute where
  key : List Char
  /-- The octet position of the key in the tag. -/
  position : Nat
  value : List Char
  deriving DecidableEq, Repr

namespace Tag

/-- What reading an attribute gives. -/
inductive Item where
  | attribute (written : WrittenAttribute)
  /-- A fault at a position, after the key and its position if they could be read. -/
  | malformed (position : Nat) (fault : AttributeFault) (key : Option (List Char × Nat))
  deriving DecidableEq, Repr

/-- How far the reading of an attribute has come. -/
inductive Stage where
  | between
  /-- In a key, read so far in reverse. -/
  | inKey (position : Nat) (seen : List Char)
  /-- Between a key and its `=`. -/
  | afterKey (position : Nat) (key : List Char)
  /-- Between `=` and a value. -/
  | beforeValue (position : Nat) (key : List Char)
  /-- In a value, read so far in reverse. -/
  | inValue (position : Nat) (key : List Char) (quote : Char) (seen : List Char)

/-- Read attributes from an octet position on, up to the end or the first malformed one. -/
def itemsFrom : Stage → Nat → List Char → List Item
  | .between, _, [] => []
  | .between, pos, c :: rest =>
    if Text.isMarkupSpace c then itemsFrom .between (pos + 1) rest
    else itemsFrom (.inKey pos [c]) (pos + c.utf8Size) rest
  | .inKey _ _, pos, [] => [.malformed pos .expectedEquals none]
  | .inKey start seen, pos, c :: rest =>
    if c == '=' then itemsFrom (.beforeValue start seen.reverse) (pos + 1) rest
    else if Text.isMarkupSpace c then itemsFrom (.afterKey start seen.reverse) (pos + 1) rest
    else itemsFrom (.inKey start (c :: seen)) (pos + c.utf8Size) rest
  | .afterKey _ _, pos, [] => [.malformed pos .expectedEquals none]
  | .afterKey start key, pos, c :: rest =>
    if c == '=' then itemsFrom (.beforeValue start key) (pos + 1) rest
    else if Text.isMarkupSpace c then itemsFrom (.afterKey start key) (pos + 1) rest
    else [.malformed pos .expectedEquals none]
  | .beforeValue start key, pos, [] => [.malformed pos .missingValue (some (key, start))]
  | .beforeValue start key, pos, c :: rest =>
    if c == '"' || c == '\'' then itemsFrom (.inValue start key c []) (pos + 1) rest
    else if Text.isMarkupSpace c then itemsFrom (.beforeValue start key) (pos + 1) rest
    else [.malformed pos .unquotedValue (some (key, start))]
  | .inValue start key quote _, pos, [] =>
    [.malformed pos (.unclosedValue quote) (some (key, start))]
  | .inValue start key quote seen, pos, c :: rest =>
    if c == quote then .attribute ⟨key, start, seen.reverse⟩ :: itemsFrom .between (pos + 1) rest
    else itemsFrom (.inValue start key quote (c :: seen)) (pos + c.utf8Size) rest

/-- The name of a tag: its characters before the first white space. -/
def name (tag : List Char) : List Char :=
  tag.takeWhile (!Text.isMarkupSpace ·)

/-- The attributes of a tag, up to the first malformed one. -/
def items (tag : List Char) : List Item :=
  itemsFrom .between (Text.Utf8.size (name tag)) (tag.dropWhile (!Text.isMarkupSpace ·))

/-- The attributes before the first malformed one. -/
def wellFormed : List Item → List WrittenAttribute
  | .attribute written :: rest => written :: wellFormed rest
  | _ => []

/-- The position of an earlier key that is the same as a given one. -/
def earlier? (seen : List WrittenAttribute) (key : List Char) : Option Nat :=
  (seen.find? fun written => written.key == key).map (·.position)

/-- An attribute, or the fault that it has, behind the attributes of the same tag.  A repeated
key is noticed before its value is looked at. -/
def check (seen : List WrittenAttribute) : Item → Except Fault WrittenAttribute
  | .attribute written =>
    match earlier? seen written.key with
    | some previous => .error (.attribute written.position (.duplicated previous))
    | none => .ok written
  | .malformed position fault none => .error (.attribute position fault)
  | .malformed position fault (some (key, start)) =>
    match earlier? seen key with
    | some previous => .error (.attribute start (.duplicated previous))
    | none => .error (.attribute position fault)

/-- The characters of a tag with a name and attributes given by key and value. -/
def write (name : List Char) (attributes : List (List Char × List Char)) : List Char :=
  name ++ attributes.flatMap fun entry =>
    ' ' :: entry.1 ++ ['=', '"'] ++ escape entry.2 ++ ['"']

end Tag

end TypedXml.Xml
