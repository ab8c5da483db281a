import TypedXml.Schema.Occurs

/-!
# Faults of instances

Why a value does not become an instance of an element, and why an element tree is not the document
of one.
-/

set_option autoImplicit false

namespace TypedXml

/-- The forms of construction values, as messages tell them apart. -/
inductive ValueForm where
  | null
  | text
  | int
  | boolean
  | bytes
  | list
  | map
  | built
  | element
  deriving DecidableEq, Repr

/-- The form of a value as messages show it. -/
def ValueForm.describe : ValueForm → String
  | .null => "null"
  | .text => "a string"
  | .int => "an integer"
  | .boolean => "a boolean"
  | .bytes => "bytes"
  | .list => "a list"
  | .map => "a mapping"
  | .built => "an instance"
  | .element => "an element"

/-- What makes a value unfit for the place it is given for. -/
inductive ConstructionFault where
  | expectsScalar (name : String) (kind : Kind) (form : ValueForm)
  | expectsContent (name : String) (form : ValueForm)
  | listForSingle (name : String)
  | expectsList (name : String) (occurs : Occurs) (form : ValueForm)
  | expectsElement (key : String) (form : ValueForm)
  | tooManyItems (name : String) (keys items : Nat)
  /-- A mapping has a key that the type of the element does not have. -/
  | unknownKey (name key : String)
  /-- A key is set that the type under construction does not have. -/
  | unknownBuilderKey (key : String)
  | nothingToBuild (name : String)
  deriving DecidableEq, Repr

/-- What a message says of a value that is unfit for its place. -/
def ConstructionFault.message : ConstructionFault → String
  | .expectsScalar name kind form =>
    "'" ++ name ++ "' expects a scalar xs:" ++ kind.name ++ " value, got " ++ form.describe
  | .expectsContent name form =>
    "'" ++ name ++ "' has element content and expects a mapping or a list, got " ++ form.describe
  | .listForSingle name => "'" ++ name ++ "' occurs at most once but a list was given"
  | .expectsList name occurs form =>
    "'" ++ name ++ "' may occur " ++ occurs.text ++ " times and requires a list, got " ++
      form.describe
  | .expectsElement key form =>
    "wildcard '" ++ key ++ "' accepts instances or elements, got " ++ form.describe
  | .tooManyItems name keys items =>
    "'" ++ name ++ s!"' takes at most {keys} positional values, got {items}"
  | .unknownKey name key => "'" ++ name ++ "' has no particle or attribute named '" ++ key ++ "'"
  | .unknownBuilderKey key => "type has no particle or attribute named '" ++ key ++ "'"
  | .nothingToBuild name =>
    "element '" ++ name ++ "' has a simple type; there is nothing to build"

/-- Why an element tree does not fit its declaration. -/
inductive MismatchCause where
  | undeclaredRoot (uri : String)
  | tooFew (least : Nat) (key : String) (count : Nat)
  | unexpectedElement
  | childrenInText
  | missingAttribute (name : String)
  | lexical (fault : LexicalFault)
  | told (text : String)
  deriving DecidableEq, Repr

/-- What a message says of the cause of a mismatch. -/
def MismatchCause.message : MismatchCause → String
  | .undeclaredRoot uri => "root element is not declared in namespace '" ++ uri ++ "'"
  | .tooFew least key count => s!"expected at least {least} '" ++ key ++ s!"' but found {count}"
  | .unexpectedElement => "unexpected element"
  | .childrenInText => "element with simple content has child elements"
  | .missingAttribute name => "missing required attribute '" ++ name ++ "'"
  | .lexical fault => fault.message
  | .told text => text

/-- A place where an element tree and its declaration part. -/
structure Mismatch where
  cause : MismatchCause
  /-- The local name of the element or attribute where it was noticed. -/
  element : Option String := none
  found : Option String := none
  deriving DecidableEq, Repr

/-- The message of a mismatch: its cause, the element in which it is, and what was found there. -/
def Mismatch.message (mismatch : Mismatch) : String :=
  mismatch.cause.message ++
    (match mismatch.element with
      | some name => " (in element '" ++ name ++ "')"
      | none => "") ++
    (match mismatch.found with
      | some found => ", found '" ++ found ++ "'"
      | none => "")

end TypedXml
