import TypedXml.Error
import TypedXml.Xml.Element
import TypedXml.Xml.Scope
import TypedXml.Xml.Token

/-!
# Reading documents

A document is read token by token onto a stack of open elements.  Text and character data go to
the innermost open element; white space between child elements is layout and is dropped when the
element is closed.  `Document.parse` applies the limits on size, depth and attributes.
-/

set_option autoImplicit false

namespace TypedXml.Xml

namespace Document

/-- An element whose end tag is still to come. -/
structure Frame where
  written : List Char
  scope : Scope
  /-- The element read so far, its children in reverse. -/
  element : Element

/-- The open elements, innermost first, and the root once it is complete. -/
structure Building where
  frames : List Frame
  root : Option Element

namespace Building

/-- The state at the beginning of a document. -/
def start : Building := ⟨[], none⟩

/-- The bindings at the place that has been reached. -/
def scope (building : Building) : Scope :=
  match building.frames with
  | [] => Scope.outermost
  | frame :: _ => frame.scope

end Building

/-- The attributes of a tag under the bindings of its element, declarations left out.  `seen` are
the attributes before the given ones. -/
def readAttributes (scope : Scope) (seen : List WrittenAttribute) (read : Attributes) :
    List Tag.Item → Except Fault Attributes
  | [] => .ok read
  | item :: rest => do
    let written ← Tag.check seen item
    if (declaredPrefix? written.key).isSome then
      readAttributes scope (seen ++ [written]) read rest
    else
      let name ← scope.resolve none written.key
      let value ← (unescape written.value).mapError .valueReference
      readAttributes scope (seen ++ [written]) (read.insert name (String.ofList value)) rest

/-- The element that a tag begins in a scope, and the scope inside of it. -/
def readTag (outer : Scope) (tag : List Char) : Except Fault (Element × Scope) := do
  let items := Tag.items tag
  let scope ← outer.enter (Tag.wellFormed items)
  let written := Tag.name tag
  let name ← scope.resolve scope.defaultSpace written
  let attributes ← readAttributes scope [] Attributes.empty items
  pure ({ name
          preferredPrefix := (splitAtColon written).map fun parts => String.ofList parts.1
          attributes }, scope)

/-- Put a complete element in its place: into the innermost open element, or at the root. -/
def attach (element : Element) (building : Building) : Except Fault Building :=
  match building.frames, building.root with
  | frame :: frames, root =>
    .ok ⟨{ frame with element :=
            { frame.element with children := element :: frame.element.children } } :: frames, root⟩
  | [], none => .ok ⟨[], some element⟩
  | [], some _ => .error (.secondRoot element.name)

/-- Add text to the innermost open element. -/
def addText (text : List Char) (frame : Frame) : Frame :=
  { frame with element :=
      { frame.element with text := some (frame.element.textOrEmpty ++ String.ofList text) } }

/-- An element whose end tag is reached: its children in order, its layout dropped. -/
def complete (element : Element) : Element :=
  { element with
    text :=
      if !element.children.isEmpty && element.textOrEmpty.toList.all Text.isBlank then none
      else element.text
    children := element.children.reverse }

/-- The name in an end tag, without the white space behind it. -/
def closingName (tag : List Char) : List Char :=
  match Text.dropTrailing Text.isMarkupSpace tag with
  | [] => tag
  | name => name

/-- Take one token. -/
def step (limits : Limits) (building : Building) : Token → Except Error Building
  | .opening tag => do
    let (element, scope) ← (readTag building.scope tag).mapError .xml
    (limits.checkAttributes element.attributes.size).mapError .limit
    (limits.checkDepth (building.frames.length + 1)).mapError .limit
    pure ⟨⟨Tag.name tag, scope, element⟩ :: building.frames, building.root⟩
  | .empty tag => do
    let (element, _) ← (readTag building.scope tag).mapError .xml
    (limits.checkAttributes element.attributes.size).mapError .limit
    (limits.checkDepth (building.frames.length + 1)).mapError .limit
    (attach element building).mapError .xml
  | .closing tag =>
    match building.frames with
    | [] => .error (.xml (.mismatchedEnd "" (String.ofList tag)))
    | frame :: frames =>
      let name := closingName tag
      if name == frame.written then
        (attach (complete frame.element) ⟨frames, building.root⟩).mapError .xml
      else
        .error (.xml (.mismatchedEnd (String.ofList frame.written) (String.ofList name)))
  | .text run =>
    match building.frames with
    | [] => .ok building
    | frame :: frames => do
      let text ← ((unescape run).mapError Fault.textReference).mapError .xml
      pure ⟨addText text frame :: frames, building.root⟩
  | .cdata run =>
    match building.frames with
    | [] => .ok building
    | frame :: frames => .ok ⟨addText run frame :: frames, building.root⟩
  | .comment _ | .instruction _ | .doctype _ => .ok building

/-- The root element at the end of a document, where every element has to be closed. -/
def finish (building : Building) : Except Fault Element :=
  match building.frames, building.root with
  | _ :: _, _ => .error .unclosed
  | [], some root => .ok root
  | [], none => .error .noRoot

/-- The characters of a document behind a byte order mark, if it has one. -/
def withoutMark : List Char → List Char
  | '\uFEFF' :: rest => rest
  | cs => cs

/-- The root element of a document. -/
def parse (limits : Limits) (text : String) : Except Error Element := do
  (limits.checkSize text.utf8ByteSize).mapError .limit
  let split := tokens (withoutMark text.toList)
  let building ← split.list.foldlM (step limits) Building.start
  match split.fault with
  | some fault => .error (.xml fault)
  | none => (finish building).mapError .xml

end Document

/-- The root element of a document within the limits that hold by default. -/
def parse (text : String) : Except Error Element :=
  Document.parse {} text

end TypedXml.Xml
