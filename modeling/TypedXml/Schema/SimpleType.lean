import TypedXml.Schema.Fault

/-!
# Simple types

A simple type is a kind of scalar text, narrowed any number of times by an enumeration.  Literals
are compared by the values that they denote, and a value has to be in every enumeration of the
chain.
-/

set_option autoImplicit false

namespace TypedXml

/-- The literals of one restriction step with the values that they denote, in order. -/
structure Enumeration where
  entries : List (String × Datum)
  deriving DecidableEq, Repr

namespace Enumeration

/-- The literals, in order. -/
def literals (enumeration : Enumeration) : List String :=
  enumeration.entries.map Prod.fst

/-- The values of the literals, in order. -/
def values (enumeration : Enumeration) : List Datum :=
  enumeration.entries.map Prod.snd

/-- Whether a value is one of those that the literals denote. -/
def contains (enumeration : Enumeration) (value : Datum) : Bool :=
  enumeration.values.contains value

/-- The literal of a name, if there is one. -/
def member? (enumeration : Enumeration) (name : String) : Option String :=
  enumeration.literals.find? (· == name)

end Enumeration

/-- A simple type. -/
inductive SimpleType where
  | builtin (kind : Kind) (name : Option String)
  | restriction (base : SimpleType) (enumeration : Enumeration) (name : Option String)
  deriving DecidableEq, Repr

namespace SimpleType

/-- The simple type of all values of a kind, without a name. -/
def ofKind (kind : Kind) : SimpleType :=
  .builtin kind none

/-- The name of a simple type, if it has one. -/
def name? : SimpleType → Option String
  | .builtin _ name => name
  | .restriction _ _ name => name

/-- The same type under a name. -/
def named (type : SimpleType) (name : String) : SimpleType :=
  match type with
  | .builtin kind _ => .builtin kind (some name)
  | .restriction base enumeration _ => .restriction base enumeration (some name)

/-- The kind of scalar text at the end of the chain of restrictions. -/
def kind : SimpleType → Kind
  | .builtin kind _ => kind
  | .restriction base _ _ => base.kind

/-- The type that a restriction narrows. -/
def base? : SimpleType → Option SimpleType
  | .builtin _ _ => none
  | .restriction base _ _ => some base

/-- The enumeration that the last restriction narrows to. -/
def enumeration? : SimpleType → Option Enumeration
  | .builtin _ _ => none
  | .restriction _ enumeration _ => some enumeration

/-- The literal of a name in the last enumeration. -/
def member? (type : SimpleType) (name : String) : Option String :=
  type.enumeration?.bind (·.member? name)

/-- Whether a value is in every enumeration of the chain. -/
def inEnumerations : SimpleType → Datum → Bool
  | .builtin _ _, _ => true
  | .restriction base enumeration _, value =>
    enumeration.contains value && base.inEnumerations value

/-- Whether a text denotes a value that is in every enumeration. -/
def allowsText (type : SimpleType) (text : String) : Bool :=
  match type.kind.read? text with
  | some value => type.inEnumerations value
  | none => false

/-- Whether a value belongs to the kind and its native form is in every enumeration. -/
def allows (type : SimpleType) (value : Datum) : Bool :=
  type.kind.accepts value && type.inEnumerations (type.kind.coerce value)

/-- The entries of an enumeration of a base type: every literal denotes a value of the base type
that no literal before it denotes.  `seen` are the entries of the literals before. -/
def enumerate (base : SimpleType) (seen : List (String × Datum)) :
    List String → Except DefinitionFault (List (String × Datum))
  | [] => .ok seen
  | literal :: rest =>
    match base.kind.read? literal with
    | none => .error (.invalidLiteral literal base.kind)
    | some value =>
      if !base.inEnumerations value then .error (.invalidLiteral literal base.kind)
      else if (seen.map Prod.snd).contains value then .error (.duplicateLiteral literal)
      else enumerate base (seen ++ [(literal, value)]) rest

/-- The restriction of a type to the values of some literals, or the fault of the first unfit
literal. -/
def restrict (base : SimpleType) (literals : List String) : Except DefinitionFault SimpleType :=
  (enumerate base [] literals).map fun entries => .restriction base ⟨entries⟩ none

end SimpleType

/-- The declaration of an attribute. -/
structure AttributeDecl where
  name : String
  type : SimpleType
  required : Bool := true
  deriving DecidableEq, Repr

/-- Whether a value, or its absence, fits a declaration. -/
def AttributeDecl.allows (decl : AttributeDecl) : Option Datum → Bool
  | some value => decl.type.allows value
  | none => !decl.required

end TypedXml
