import TypedXml.Instance.Basic
import TypedXml.Schema.Basic
import TypedXml.Xml.Depth
import TypedXml.Xml.Document

/-!
# Element trees as instances

An element tree is read along the types of its elements.  Each particle of a sequence takes the
longest run of children that fit it, up to its greatest count and without going back; a wildcard
leaves the children that a later declaration names.  What is left behind the last particle does
not fit.
-/

set_option autoImplicit false

namespace TypedXml

/-- A child element together with the instance that it is for each declaration. -/
structure Child where
  element : Xml.Element
  /-- The instance under a declaration, or why there is none. -/
  decode : ElementDecl → Except Error Instance

namespace Schema

/-- Whether an element has a local name in the target namespace. -/
def isNamed (schema : Schema) (localName : String) (element : Xml.Element) : Bool :=
  schema.target.isName localName element.name

/-- Whether an element fits a particle that is followed by others in its sequence. -/
def fits (schema : Schema) (later : List Particle) (element : Xml.Element) : Particle → Bool
  | .element decl => schema.isNamed decl.name element
  | .any _ => !(later.filterMap Particle.decl?).any fun decl => schema.isNamed decl.name element

/-- The children that a particle takes after `count` others, and those behind them. -/
def takeRun (fits : Child → Bool) (occurs : Occurs) : (count : Nat) → List Child →
    List Child × List Child
  | _, [] => ([], [])
  | count, child :: rest =>
    if !occurs.isFull count && fits child then
      let (taken, left) := takeRun fits occurs (count + 1) rest
      (child :: taken, left)
    else ([], child :: rest)

/-- The field of a particle from the children that it took. -/
def decodeField (taken : List Child) : Particle → Except Error Field
  | .any _ => .ok (.any (taken.map (·.element)))
  | .element decl => do
    let items ← taken.mapM (·.decode decl)
    match decl.occurs.isSingle, items with
    | true, [item] => pure (.one item)
    | _, items => pure (.many items)

/-- The fields of a sequence: particle by particle the children that each takes are read, and none
may be left behind the last. -/
def decodeFields (schema : Schema) (owner : String) :
    List Particle → List Child → Except Error (List (String × Field))
  | [], [] => .ok []
  | [], child :: _ =>
    .error (.mismatch ⟨.unexpectedElement, some owner, some child.element.name.text⟩)
  | particle :: later, children => do
    let (taken, left) :=
      takeRun (fun child => schema.fits later child.element particle) particle.occurs 0 children
    if particle.occurs.isMissing taken.length then
      .error (.mismatch ⟨.tooFew particle.occurs.min particle.key taken.length, some owner,
        left.head?.map (·.element.name.localName)⟩)
    else if taken.isEmpty then decodeFields schema owner later left
    else
      let field ← decodeField taken particle
      let fields ← decodeFields schema owner later left
      pure ((particle.key, field) :: fields)

/-- The scalar of a text under a kind; `place` is the element or attribute with the text. -/
def decodeScalar (kind : Kind) (text place : String) : Except Error Scalar :=
  match kind.parse text with
  | .ok value => .ok (Scalar.ofDatum kind value)
  | .error fault => .error (.mismatch ⟨.lexical fault, some place, some text⟩)

/-- The declared attributes of an element, in the order of their declarations; a required one must
be there. -/
def decodeAttributes (owner : String) (attributes : Xml.Attributes) :
    List AttributeDecl → Except Error (List (String × Scalar))
  | [] => .ok []
  | decl :: rest =>
    match attributes.valueOf? decl.name with
    | some text => do
      let scalar ← decodeScalar decl.type.kind text decl.name
      let scalars ← decodeAttributes owner attributes rest
      pure ((decl.name, scalar) :: scalars)
    | none =>
      if decl.required then
        .error (.mismatch ⟨.missingAttribute decl.name, some owner, none⟩)
      else decodeAttributes owner attributes rest

/-- Refuse children of an element that holds text only. -/
def refuseChildren (owner : String) : List Xml.Element → Except Error Unit
  | [] => .ok ()
  | child :: _ => .error (.mismatch ⟨.childrenInText, some owner, some child.name.text⟩)

mutual

/-- The instance that an element is under a name and a type. -/
def decode (schema : Schema) : Xml.Element → String → TypeRef → Except Error Instance
  | ⟨name, _, attributes, text, children⟩, localName, type => do
    match ← schema.resolve type with
    | .simple simple =>
      refuseChildren name.localName children
      let scalar ← decodeScalar simple.kind (text.getD "") localName
      pure ⟨localName, schema.target, .scalar scalar⟩
    | .complex complex =>
      match complex.content with
      | .simple base =>
        refuseChildren name.localName children
        let scalar ← decodeScalar base.kind (text.getD "") localName
        let scalars ← decodeAttributes name.localName attributes complex.attributes
        pure ⟨localName, schema.target, .text scalar scalars⟩
      | .sequence particles =>
        let fields ←
          decodeFields schema name.localName particles (readChildren schema children)
        let scalars ← decodeAttributes name.localName attributes complex.attributes
        pure ⟨localName, schema.target, .fields fields scalars⟩

/-- Children together with the instances that they are for each declaration. -/
def readChildren (schema : Schema) : List Xml.Element → List Child
  | [] => []
  | element :: rest =>
    ⟨element, fun decl => decode schema element decl.name decl.type⟩ :: readChildren schema rest

end

/-- The top-level declaration of an element, if its name is declared in the target namespace. -/
def rootDecl? (schema : Schema) (element : Xml.Element) : Option ElementDecl :=
  if element.name.space == some schema.target.uri then schema.element? element.name.localName
  else none

/-- The instance of a root element. -/
def decodeElement (schema : Schema) (element : Xml.Element) : Except Error Instance := do
  (schema.limits.checkDepth element.depth).mapError .limit
  match schema.rootDecl? element with
  | some decl => schema.decode element decl.name decl.type
  | none =>
    .error (.mismatch ⟨.undeclaredRoot schema.target.uri, none, some element.name.text⟩)

/-- The instance of a document. -/
def deserialize (schema : Schema) (text : String) : Except Error Instance := do
  let root ← Xml.Document.parse schema.limits text
  schema.decodeElement root

end Schema

end TypedXml
