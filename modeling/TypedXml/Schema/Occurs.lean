import TypedXml.Schema.Fault

/-!
# Occurrence ranges

How often a particle may occur in its place of a sequence: from a lower bound up to an upper bound
or without one.
-/

set_option autoImplicit false

namespace TypedXml

/-- A range of occurrence counts. -/
structure Occurs where
  min : Nat := 1
  /-- The greatest count, or none if there is no bound. -/
  max : Option Nat := some 1
  deriving DecidableEq, Repr

namespace Occurs

/-- Exactly one occurrence. -/
def once : Occurs := ⟨1, some 1⟩

/-- One occurrence or none. -/
def optional : Occurs := ⟨0, some 1⟩

/-- Any number of occurrences. -/
def zeroOrMore : Occurs := ⟨0, none⟩

/-- Any number of occurrences but none. -/
def oneOrMore : Occurs := ⟨1, none⟩

/-- Whether there may be one occurrence at most. -/
def isSingle (occurs : Occurs) : Bool :=
  occurs.max == some 1

/-- Whether a count is below the lower bound. -/
def isMissing (occurs : Occurs) (count : Nat) : Bool :=
  count < occurs.min

/-- Whether a count leaves no room for one more occurrence. -/
def isFull (occurs : Occurs) (count : Nat) : Bool :=
  match occurs.max with
  | some max => max ≤ count
  | none => false

/-- Whether a count is above the upper bound. -/
def isExceeded (occurs : Occurs) (count : Nat) : Bool :=
  match occurs.max with
  | some max => max < count
  | none => false

/-- Whether a count is in the range. -/
def contains (occurs : Occurs) (count : Nat) : Bool :=
  !occurs.isMissing count && !occurs.isExceeded count

/-- Refuse a range that allows no occurrence or whose bounds are reversed. -/
def check (occurs : Occurs) : Except DefinitionFault Unit :=
  match occurs.max with
  | some 0 => .error .emptyRange
  | some max => if max < occurs.min then .error (.reversedRange max occurs.min) else .ok ()
  | none => .ok ()

/-- A range as messages show it. -/
def text (occurs : Occurs) : String :=
  match occurs.max with
  | some max => s!"{occurs.min}..{max}"
  | none => s!"{occurs.min}..unbounded"

end Occurs

end TypedXml
