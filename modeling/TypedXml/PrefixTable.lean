/-!
# Prefixes of a written document

A written document binds every namespace that it uses to one prefix of its own.  The preferred
prefix is taken while it is free; otherwise a prefix `nsN` is made up, with the first free number
from the size of the table on.  Prefixes that begin with `xml` are reserved and never chosen.
-/

set_option autoImplicit false

namespace TypedXml

/-- The prefixes of namespaces, in the order in which they were declared. -/
structure PrefixTable where
  bindings : List (String × String)
  deriving DecidableEq, Repr

namespace PrefixTable

/-- The table without bindings. -/
def empty : PrefixTable := ⟨[]⟩

/-- The number of bindings. -/
def size (table : PrefixTable) : Nat :=
  table.bindings.length

/-- The prefix that a namespace is bound to. -/
def prefixOf? (table : PrefixTable) (uri : String) : Option String :=
  table.bindings.lookup uri

/-- Whether some namespace is bound to a prefix. -/
def isBound (table : PrefixTable) (label : String) : Bool :=
  table.bindings.any fun binding => binding.2 == label

/-- The made-up prefix of a number. -/
def generated (n : Nat) : String :=
  String.ofList ('n' :: 's' :: Nat.toDigits 10 n)

/-- The first free made-up prefix from number `n` on.  A table of `tries` bindings cannot hold
`tries + 1` candidates, so the last of them is free without a look. -/
def freshFrom (table : PrefixTable) (n : Nat) : (tries : Nat) → String
  | 0 => generated n
  | tries + 1 =>
    if table.isBound (generated n) then freshFrom table (n + 1) tries else generated n

/-- A free made-up prefix. -/
def fresh (table : PrefixTable) : String :=
  table.freshFrom table.size table.size

/-- Whether a prefix can be taken as it is: it is not empty, not bound and not reserved. -/
def isUsable (table : PrefixTable) (label : String) : Bool :=
  !label.isEmpty && !table.isBound label && !("xml".toList.isPrefixOf label.toList)

/-- The prefix for a new namespace: the preferred one if it is usable, and a made-up one
otherwise. -/
def choose (table : PrefixTable) (preferred : Option String) : String :=
  match preferred with
  | some label => if table.isUsable label then label else table.fresh
  | none => table.fresh

/-- Bind a namespace unless it has a prefix already. -/
def declare (table : PrefixTable) (uri : String) (preferred : Option String) : PrefixTable :=
  match table.prefixOf? uri with
  | some _ => table
  | none => ⟨table.bindings ++ [(uri, table.choose preferred)]⟩

end PrefixTable

end TypedXml
