import TypedXml.Instance.Encoding
import TypedXml.Instance.Value
import TypedXml.Schema.Basic

/-!
# Construction of instances

A value becomes an instance along the type of its element: mappings are taken apart by key, lists
fill repeated particles or give the parts of a type by position, and scalars take the native form
of their kind.  Construction looks at the structure of a value only, not at the content of its
scalars, and it goes as deep as the depth limit allows.
-/

set_option autoImplicit false

namespace TypedXml

/-- The way to build an instance of a declaration from a value. -/
abbrev Placing := ElementDecl → Value → Except Error Instance

namespace Construction

/-- The parts of a list by position, under the given keys. -/
def positional (name : String) (keys : List String) (items : List Value) :
    Except ConstructionFault (List (String × Value)) :=
  if items.length > keys.length then .error (.tooManyItems name keys.length items.length)
  else .ok (keys.zip items)

/-- Refuse entries with a key that the type does not have. -/
def refuseUnknown (name : String) (keys : List String) (entries : List (String × Value)) :
    Except ConstructionFault Unit :=
  match entries.find? fun entry => !keys.contains entry.1 with
  | some entry => .error (.unknownKey name entry.1)
  | none => .ok ()

/-- The attributes that entries give, in the order of their declarations; nothing gives no
attribute. -/
def attributes (entries : List (String × Value)) :
    List AttributeDecl → Except ConstructionFault (List (String × Scalar))
  | [] => .ok []
  | decl :: rest =>
    match entries.lookup decl.name with
    | none | some .null => attributes entries rest
    | some value => do
      let scalar ← Scalar.ofValue decl.type.kind decl.name value
      let scalars ← attributes entries rest
      pure ((decl.name, scalar) :: scalars)

/-- The content of a type whose content is text, from the entries of a value. -/
def textOfEntries (name : String) (type : ComplexType) (base : SimpleType)
    (entries : List (String × Value)) : Except ConstructionFault Content := do
  let scalar ← Scalar.ofValue base.kind name ((entries.lookup textKey).getD .null)
  let scalars ← attributes entries type.attributes
  refuseUnknown name type.keys entries
  pure (.text scalar scalars)

/-- The content of a type whose content is text: by key, by position or from the text alone. -/
def text (name : String) (type : ComplexType) (base : SimpleType) :
    Value → Except ConstructionFault Content
  | .map entries => textOfEntries name type base entries
  | .list items => do
    let entries ← positional name type.keys items
    textOfEntries name type base entries
  | value => do
    let scalar ← Scalar.ofValue base.kind name value
    pure (.text scalar [])

/-- Refuse a finished tree that would reach below the depth limit from a node at `depth`. -/
def checkBelow (limits : Limits) (depth treeDepth : Nat) : Except Error Unit :=
  (limits.checkDepth (depth + treeDepth)).mapError .limit

/-- The element of a wildcard below a node at `depth`. -/
def wildcardElement (limits : Limits) (depth : Nat) (key : String) :
    Value → Except Error Xml.Element
  | .built node => do
    checkBelow limits depth node.depth
    pure node.toElement
  | .element element => do
    checkBelow limits depth element.depth
    pure element
  | value => .error (.construction (.expectsElement key value.form))

/-- The field of a wildcard below a node at `depth`; nothing and no items give no field. -/
def wildcard (limits : Limits) (depth : Nat) (key : String) (value : Value) :
    Except Error (Option Field) :=
  let items := match value with
    | .null => []
    | .list items => items
    | single => [single]
  if items.isEmpty then .ok none
  else do
    let elements ← items.mapM (wildcardElement limits depth key)
    pure (some (.any elements))

/-- The field of a declaration: one occurrence from a value if it is single, any number of them from
a list otherwise. -/
def declared (place : Placing) (decl : ElementDecl) (value : Value) :
    Except Error (Option Field) :=
  if decl.occurs.isSingle then
    match value with
    | .list _ => .error (.construction (.listForSingle decl.name))
    | value => do
      let item ← place decl value
      pure (some (.one item))
  else
    match value with
    | .list [] => .ok none
    | .list items => do
      let items ← items.mapM (place decl)
      pure (some (.many items))
    | value => .error (.construction (.expectsList decl.name decl.occurs value.form))

/-- The field of a particle below a node at `depth`. -/
def field (place : Placing) (limits : Limits) (depth : Nat) (value : Value) :
    Particle → Except Error (Option Field)
  | .any any => wildcard limits depth any.key value
  | .element decl => declared place decl value

/-- The fields of particles below a node at `depth`, in the order of the particles; entries that are
missing give no field. -/
def fields (place : Placing) (limits : Limits) (depth : Nat) (entries : List (String × Value)) :
    List Particle → Except Error (List (String × Field))
  | [] => .ok []
  | particle :: rest =>
    match entries.lookup particle.key with
    | none => fields place limits depth entries rest
    | some value => do
      let first ← field place limits depth value particle
      let others ← fields place limits depth entries rest
      match first with
      | some field => pure ((particle.key, field) :: others)
      | none => pure others

/-- The content of a sequence at `depth`, from the entries of a value. -/
def sequenceOfEntries (place : Placing) (limits : Limits) (depth : Nat) (name : String)
    (type : ComplexType) (particles : List Particle) (entries : List (String × Value)) :
    Except Error Content := do
  let fields ← fields place limits depth entries particles
  let scalars ← (attributes entries type.attributes).mapError .construction
  (refuseUnknown name type.keys entries).mapError .construction
  pure (.fields fields scalars)

/-- The content of a sequence at `depth`. -/
def sequence (place : Placing) (limits : Limits) (depth : Nat) (name : String)
    (type : ComplexType) (particles : List Particle) : Value → Except Error Content
  | .null => sequenceOfEntries place limits depth name type particles []
  | .map entries => sequenceOfEntries place limits depth name type particles entries
  | .list items => do
    let entries ← (positional name type.keys items).mapError .construction
    sequenceOfEntries place limits depth name type particles entries
  | value => .error (.construction (.expectsContent name value.form))

/-- What a node of a type at `depth` holds. -/
def content (place : Placing) (limits : Limits) (depth : Nat) (name : String) (value : Value) :
    TypeDefinition → Except Error Content
  | .simple type => ((Scalar.ofValue type.kind name value).map .scalar).mapError .construction
  | .complex type =>
    match type.content with
    | .simple base => (text name type base value).mapError .construction
    | .sequence particles => sequence place limits depth name type particles value

/-- The node of a type at `depth`; a finished instance is taken as it is under the name of its new
place. -/
def node (place : Placing) (target : Namespace) (limits : Limits) (depth : Nat) (name : String)
    (definition : TypeDefinition) : Value → Except Error Instance
  | .built built => do
    checkBelow limits (depth - 1) built.depth
    pure (built.renamed name target)
  | value => do
    let content ← content place limits depth name value definition
    pure ⟨name, target, content⟩

end Construction

namespace Schema

/-- The instance of a declaration at `depth`, when `levels` levels are left below the depth limit,
this one included. -/
def place (schema : Schema) : (levels depth : Nat) → Placing
  | 0, depth, _, _ => .error (.limit (.depth depth schema.limits.depth))
  | levels + 1, depth, decl, value => do
    let definition ← schema.resolve decl.type
    Construction.node (place schema levels (depth + 1)) schema.target schema.limits depth
      decl.name definition value

/-- The instance of a declaration at the root, with all levels left. -/
def placeRoot (schema : Schema) : Placing :=
  schema.place schema.limits.depth 1

/-- The instance of a top-level element. -/
def construct (schema : Schema) (element : String) (value : Value) : Except Error Instance := do
  let decl ← schema.element element
  schema.placeRoot decl value

end Schema

end TypedXml
