import TypedXml.Proofs.PrefixTable
import TypedXml.Proofs.Xml.Tree
import TypedXml.Xml.Rendering
import TypedXml.Xml.Scope

/-!
# The prefixes of a written tree

All namespaces of a tree are declared in one table before anything is written.  The table only
grows while the tree is walked, so that in the end every name of the tree has a prefix in it.
-/

set_option autoImplicit false

namespace TypedXml.Xml.Element

/-- Whether a namespace belongs to one of the prefixes `xml` and `xmlns`. -/
def IsReservedSpace (uri : String) : Prop :=
  uri.toList = xmlUri ∨ uri.toList = xmlnsUri

/-- Whether a namespace can be bound to any prefix. -/
structure IsFreeSpace (uri : String) : Prop where
  nonempty : uri ≠ ""
  unreserved : ¬ IsReservedSpace uri

/-- Whether the names of an element can be written, and its namespaces are of one sort. -/
structure Writable (good : String → Prop) (element : Element) : Prop where
  name : isNCName element.name.localName = true
  hint : PrefixTable.IsHint element.preferredPrefix
  space : ∀ uri ∈ element.name.space, good uri
  attributeNames : ∀ entry ∈ element.attributes.entries, isNCName entry.1.localName = true
  attributeSpaces : ∀ entry ∈ element.attributes.entries, ∀ uri ∈ entry.1.space, good uri

/-- Whether the namespaces of an element are of one sort, and the prefix that it is preferably
written with is of another. -/
structure Declarable (word good : String → Prop) (element : Element) : Prop where
  hint : ∀ label ∈ element.preferredPrefix, label = "" ∨ word label
  space : ∀ uri ∈ element.name.space, good uri
  attributeSpaces : ∀ entry ∈ element.attributes.entries, ∀ uri ∈ entry.1.space, good uri

/-- Whether a name has a prefix if it needs one. -/
def IsBound (table : PrefixTable) (name : Name) : Prop :=
  ∀ uri ∈ name.space, (table.prefixOf? uri).isSome = true

/-- Whether all names of an element have their prefixes. -/
structure AllBound (table : PrefixTable) (element : Element) : Prop where
  name : IsBound table element.name
  attributes : ∀ entry ∈ element.attributes.entries, IsBound table entry.1

open PrefixTable

variable {word good : String → Prop} {table : PrefixTable}

/-- A name keeps its prefix when the table grows. -/
theorem IsBound.extend {extended : PrefixTable} {name : Name} (h : IsBound table name)
    (hextends : Extends table extended) : IsBound extended name := by
  intro uri huri
  obtain ⟨label, hlabel⟩ := Option.isSome_iff_exists.1 (h uri huri)
  rw [hextends uri label hlabel]
  rfl

/-- An element keeps its prefixes when the table grows. -/
theorem AllBound.extend {extended : PrefixTable} {element : Element} (h : AllBound table element)
    (hextends : Extends table extended) : AllBound extended element :=
  ⟨h.name.extend hextends, fun entry hentry => (h.attributes entry hentry).extend hextends⟩

/-! ## Attributes -/

/-- Declaring the namespaces of attributes keeps all prefixes and gives each of their names one. -/
theorem declareAttributes_spec (table : PrefixTable) (entries : List (Name × String)) :
    Extends table (declareAttributes table entries) ∧
      ∀ entry ∈ entries, IsBound (declareAttributes table entries) entry.1 := by
  induction entries generalizing table with
  | nil => exact ⟨fun _ _ h => h, by simp⟩
  | cons entry rest ih =>
    obtain ⟨⟨space, localName⟩, value⟩ := entry
    cases space with
    | none =>
      obtain ⟨hextends, hbound⟩ := ih table
      refine ⟨hextends, List.forall_mem_cons.2 ⟨?_, hbound⟩⟩
      intro uri huri
      cases huri
    | some uri =>
      obtain ⟨hextends, hbound⟩ := ih (table.declare uri none)
      have hown : IsBound (table.declare uri none) ⟨some uri, localName⟩ := by
        intro other hother
        cases hother
        exact isSome_declare
      exact ⟨extends_declare.trans hextends,
        List.forall_mem_cons.2 ⟨hown.extend hextends, hbound⟩⟩

/-- Declaring the namespaces of attributes keeps a table sound if these are of its sort. -/
theorem sound_declareAttributes (hword : ∀ label, IsStrictLabel label → word label)
    {entries : List (Name × String)} (h : Sound word good table)
    (hspaces : ∀ entry ∈ entries, ∀ uri ∈ entry.1.space, good uri) :
    Sound word good (declareAttributes table entries) := by
  induction entries generalizing table with
  | nil => exact h
  | cons entry rest ih =>
    rw [List.forall_mem_cons] at hspaces
    obtain ⟨⟨space, localName⟩, value⟩ := entry
    cases space with
    | none => exact ih h hspaces.2
    | some uri =>
      have hhint : ∀ label ∈ (none : Option String), label = "" ∨ word label := by
        intro label hlabel
        cases hlabel
      exact ih (sound_declare hword h (hspaces.1 uri rfl) hhint) hspaces.2

/-! ## Trees -/

/-- The table for the own namespace of an element. -/
def declareOwn (table : PrefixTable) (element : Element) : PrefixTable :=
  match element.name.space with
  | some uri => table.declare uri element.preferredPrefix
  | none => table

/-- The namespaces of a tree are declared in the order of its own, its attributes, its children. -/
theorem declareSpaces_eq (table : PrefixTable) (element : Element) :
    declareSpaces table element = declareSpacesAll
      (declareAttributes (declareOwn table element) element.attributes.entries)
      element.children := by
  cases element
  rfl

/-- Declaring the namespace of an element keeps all prefixes and gives its name one. -/
theorem declareOwn_spec (table : PrefixTable) (element : Element) :
    Extends table (declareOwn table element) ∧
      IsBound (declareOwn table element) element.name := by
  unfold declareOwn IsBound
  cases hspace : element.name.space with
  | none => exact ⟨fun _ _ h => h, by simp⟩
  | some uri =>
    refine ⟨extends_declare, ?_⟩
    intro other hother
    cases hother
    exact isSome_declare

/-- Declaring the namespace of an element keeps a table sound if this can be declared. -/
theorem sound_declareOwn (hword : ∀ label, IsStrictLabel label → word label) {element : Element}
    (h : Sound word good table) (hdeclarable : Declarable word good element) :
    Sound word good (declareOwn table element) := by
  unfold declareOwn
  cases hspace : element.name.space with
  | none => exact h
  | some uri => exact sound_declare hword h (hdeclarable.space uri hspace) hdeclarable.hint

/-- What declaring the namespaces of a tree gives: a table that extends the one before, has
prefixes for all names of the tree, and is sound if these can be declared. -/
structure Declared (table : PrefixTable) (element : Element) (declared : PrefixTable) : Prop where
  extend : Extends table declared
  bound : Everywhere (AllBound declared) element
  sound : ∀ word good, (∀ label, IsStrictLabel label → word label) → Sound word good table →
    Everywhere (Declarable word good) element → Sound word good declared

/-- Declaring the namespaces of children does for each of them what declaring those of one tree
does. -/
theorem declareSpacesAll_spec {elements : List Element}
    (h : ∀ element ∈ elements, ∀ table, Declared table element (declareSpaces table element))
    (table : PrefixTable) :
    Extends table (declareSpacesAll table elements) ∧
      (∀ element ∈ elements, Everywhere (AllBound (declareSpacesAll table elements)) element) ∧
      ∀ word good, (∀ label, IsStrictLabel label → word label) → Sound word good table →
        (∀ element ∈ elements, Everywhere (Declarable word good) element) →
          Sound word good (declareSpacesAll table elements) := by
  induction elements generalizing table with
  | nil => exact ⟨fun _ _ h => h, by simp, fun _ _ _ h _ => h⟩
  | cons element rest ih =>
    rw [List.forall_mem_cons] at h
    have hfirst := h.1 table
    obtain ⟨hextends, hbound, hsound⟩ := ih h.2 (declareSpaces table element)
    refine ⟨hfirst.extend.trans hextends, List.forall_mem_cons.2 ⟨?_, hbound⟩, ?_⟩
    · exact hfirst.bound.imp fun other hother => hother.extend hextends
    · intro word good hword htable hdeclarable
      rw [List.forall_mem_cons] at hdeclarable
      exact hsound word good hword (hfirst.sound word good hword htable hdeclarable.1) hdeclarable.2

/-- What declaring the namespaces of a tree gives, for every tree. -/
theorem declareSpaces_spec (element : Element) :
    ∀ table, Declared table element (declareSpaces table element) := by
  induction element using induct with
  | step element ih =>
    intro table
    rw [declareSpaces_eq]
    obtain ⟨hown, hname⟩ := declareOwn_spec table element
    obtain ⟨hattributes, hkeys⟩ :=
      declareAttributes_spec (declareOwn table element) element.attributes.entries
    obtain ⟨hchildren, hbound, hsound⟩ := declareSpacesAll_spec ih
      (declareAttributes (declareOwn table element) element.attributes.entries)
    refine ⟨(hown.trans hattributes).trans hchildren, .intro ⟨?_, ?_⟩ hbound, ?_⟩
    · exact hname.extend (hattributes.trans hchildren)
    · intro entry hentry
      exact (hkeys entry hentry).extend hchildren
    · intro word good hword htable hdeclarable
      apply hsound word good hword
      · exact sound_declareAttributes hword (sound_declareOwn hword htable hdeclarable.root)
          hdeclarable.root.attributeSpaces
      · exact hdeclarable.children

/-- The table of a tree whose namespaces can be declared is sound. -/
theorem sound_prefixes (hword : ∀ label, IsStrictLabel label → word label) {root : Element}
    (h : Everywhere (Declarable word good) root) : Sound word good root.prefixes :=
  (declareSpaces_spec root PrefixTable.empty).sound word good hword sound_empty h

/-- All names of a tree have prefixes in its table. -/
theorem allBound_prefixes (root : Element) : Everywhere (AllBound root.prefixes) root :=
  (declareSpaces_spec root PrefixTable.empty).bound

end TypedXml.Xml.Element
