import TypedXml.Entries
import TypedXml.Name

/-!
# Element trees

A document is a tree of elements.  An element has a qualified name, attributes whose names are
distinct, text and child elements; text that is split by children is kept as one piece.  The
prefix an element was written with is kept as a hint for writing it again and takes no part in
comparisons.
-/

set_option autoImplicit false

namespace TypedXml.Xml

/-- The attributes of an element, in document order. -/
structure Attributes where
  entries : List (Name × String)
  distinct : (Entries.keys entries).Nodup
  deriving DecidableEq, Repr

namespace Attributes

/-- No attributes. -/
def empty : Attributes := ⟨[], by simp [Entries.keys]⟩

/-- Write one attribute; a name that is present keeps its place. -/
def insert (attributes : Attributes) (name : Name) (value : String) : Attributes :=
  ⟨Entries.insert name value attributes.entries, Entries.nodup_keys_insert attributes.distinct⟩

/-- Attributes written one after the other; the last value of a repeated name counts. -/
def ofPairs (pairs : List (Name × String)) : Attributes :=
  ⟨Entries.ofPairs pairs, Entries.nodup_keys_ofPairs pairs⟩

/-- The number of attributes. -/
def size (attributes : Attributes) : Nat :=
  attributes.entries.length

/-- The value of the first attribute with a local name, in whatever namespace. -/
def valueOf? (attributes : Attributes) (localName : String) : Option String :=
  (attributes.entries.find? fun entry => entry.1.localName == localName).map Prod.snd

/-- Whether two elements have the same attributes, in whatever order. -/
def agree (left right : Attributes) : Bool :=
  Entries.agree (· == ·) left.entries right.entries

end Attributes

/-- An element of a document. -/
structure Element where
  name : Name
  /-- The prefix it was read with, or is preferably written with. -/
  preferredPrefix : Option String := none
  attributes : Attributes := Attributes.empty
  text : Option String := none
  children : List Element := []
  deriving Repr

namespace Element

/-- The text, where missing text counts as empty. -/
def textOrEmpty (element : Element) : String :=
  element.text.getD ""

/-- Whether an element has neither text nor children. -/
def isEmpty (element : Element) : Bool :=
  element.textOrEmpty.isEmpty && element.children.isEmpty

mutual

/-- Whether two trees have the same names, attributes, text and children; attribute order and
prefixes do not count. -/
def same : Element → Element → Bool
  | ⟨name, _, attributes, text, children⟩, other =>
    name == other.name && attributes.agree other.attributes && text == other.text &&
      sameAll children other.children

/-- Whether two lists have as many trees and those at the same places are the same. -/
def sameAll : List Element → List Element → Bool
  | [], [] => true
  | element :: rest, other :: others => same element other && sameAll rest others
  | _, _ => false

end

end Element

end TypedXml.Xml
