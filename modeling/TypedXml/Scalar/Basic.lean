import TypedXml.Scalar.Kind

/-!
# Scalars

The scalar of an instance is a native value together with the kind it was made for.  It is always
in the form that is native to its kind.
-/

set_option autoImplicit false

namespace TypedXml

/-- A native value of a kind. -/
structure Scalar where
  kind : Kind
  value : Datum
  native : kind.coerce value = value
  deriving DecidableEq, Repr

namespace Scalar

/-- The scalar of a kind that is made from a native value. -/
def ofDatum (kind : Kind) (value : Datum) : Scalar :=
  ⟨kind, kind.coerce value, kind.coerce_coerce value⟩

/-- The scalar of a kind that is made from the empty text. -/
def empty (kind : Kind) : Scalar :=
  ofDatum kind (.text "")

/-- The text that a scalar is written as. -/
def lexical (scalar : Scalar) : String :=
  scalar.kind.format scalar.value

end Scalar

end TypedXml
