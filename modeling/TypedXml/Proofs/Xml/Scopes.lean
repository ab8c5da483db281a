import TypedXml.Proofs.Entries
import TypedXml.Proofs.Outcome
import TypedXml.Proofs.Xml.Prefixes
import TypedXml.Proofs.Xml.Tags

/-!
# Names under the bindings of a written document

The root element declares the table of the tree, so that every prefix is bound below it to its
namespace.  The value of a declaration is taken as it is written, with the references in it, and an
attribute of the name `xmlns` is a declaration as well: it binds the names without a prefix.  What
a written name is read as follows from these two.
-/

set_option autoImplicit false

namespace TypedXml

open Xml

/-- A namespace as it is read from its declaration. -/
def readSpace (uri : String) : String :=
  String.ofList (escape uri.toList)

/-- A name as it is read, where names without a prefix are in the namespace `unprefixed`. -/
def Name.reread (unprefixed : Option String) (name : Name) : Name :=
  match name.space with
  | some uri => ⟨some (readSpace uri), name.localName⟩
  | none => ⟨unprefixed, name.localName⟩

/-- A name without a namespace has no colon, so that nothing in it is taken for a prefix. -/
def Name.IsUnsplit (name : Name) : Prop :=
  name.space = none → ':' ∉ name.localName.toList

/-- A name whose local part is an NCName is not split. -/
theorem Name.isUnsplit_of_isNCName {name : Name} (h : isNCName name.localName = true) :
    name.IsUnsplit :=
  fun _ => not_mem_of_isNCNameChars h (by decide)

/-- Namespaces are told apart by what they are read as. -/
theorem readSpace_injective {uri other : String} (h : readSpace uri = readSpace other) :
    uri = other := by
  unfold readSpace at h
  rw [String.ofList_inj] at h
  exact String.toList_inj.1 (escape_injective h)

/-- Names are told apart by what they are read as. -/
theorem Name.reread_injective {name other : Name} (h : name.reread none = other.reread none) :
    name = other := by
  obtain ⟨space, localName⟩ := name
  obtain ⟨otherSpace, otherName⟩ := other
  cases space with
  | none =>
    cases otherSpace with
    | none => exact h
    | some uri => cases h
  | some uri =>
    cases otherSpace with
    | none => cases h
    | some otherUri =>
      simp only [reread, Name.mk.injEq, Option.some.injEq] at h
      rw [readSpace_injective h.1, h.2]

namespace Xml

open Element PrefixTable

variable {good : String → Prop} {table : PrefixTable} {scope : Scope}
  {unprefixed : Option String}

/-! ## Written names -/

/-- A prefix of a namespace comes from a binding of the table. -/
theorem mem_of_prefixOf? {uri label : String} (h : table.prefixOf? uri = some label) :
    (uri, label) ∈ table.bindings :=
  mem_of_lookup h

/-- A name without a namespace is written as its local part. -/
theorem writtenName_of_space {name : Name} (h : name.space = none) :
    writtenName table name = name.localName.toList := by
  unfold writtenName
  rw [h]
  rfl

/-- A name in a namespace is written with the prefix in front of its local part. -/
theorem writtenName_of_label {name : Name} {uri label : String} (h : name.space = some uri)
    (hlabel : table.prefixOf? uri = some label) :
    writtenName table name = label.toList ++ ':' :: name.localName.toList := by
  unfold writtenName
  rw [h, Option.bind_some, hlabel]

/-- The bindings of a place in a document that is written with a table. -/
structure Scope.Fits (table : PrefixTable) (unprefixed : Option String) (scope : Scope) :
    Prop where
  labels : ∀ uri label, table.prefixOf? uri = some label →
    scope.bindings.lookup label.toList = some (escape uri.toList)
  unprefixed : scope.defaultSpace = unprefixed

/-- A prefix of the table stands for what its namespace is read as. -/
theorem spaceOf_label (hfits : scope.Fits table unprefixed)
    (hsound : Sound IsLooseLabel IsFreeSpace table) {uri label : String} (h : table.prefixOf? uri = some label) :
    scope.spaceOf label.toList = .ok (readSpace uri) := by
  have hmem := mem_of_prefixOf? h
  have hlabel := (hsound.labels _ hmem).name.nonempty
  have huri : escape uri.toList ≠ [] := escape_ne_nil (hsound.spaces _ hmem).nonempty
  unfold Scope.spaceOf
  rw [List.isEmpty_eq_false_iff.2 hlabel, hfits.labels uri label h]
  cases hescape : escape uri.toList with
  | nil => exact absurd hescape huri
  | cons c rest =>
    simp only [Bool.false_eq_true, if_false]
    rw [readSpace, hescape]

/-- A written name is read in the namespace that its own is read as. -/
theorem resolve_writtenName (hfits : scope.Fits table unprefixed)
    (hsound : Sound IsLooseLabel IsFreeSpace table) {name : Name} (hname : name.IsUnsplit)
    (hbound : IsBound table name) (other : Option String) :
    scope.resolve other (writtenName table name) = .ok (name.reread other) := by
  unfold Scope.resolve Name.reread
  cases hspace : name.space with
  | none =>
    rw [writtenName_of_space hspace, splitAtColon_eq_none (hname hspace)]
    simp only [String.ofList_toList]
  | some uri =>
    obtain ⟨label, hlabel⟩ := Option.isSome_iff_exists.1 (hbound uri hspace)
    have hvalid := hsound.labels _ (mem_of_prefixOf? hlabel)
    rw [writtenName_of_label hspace hlabel, splitAtColon_append hvalid.name.colon]
    simp only [spaceOf_label hfits hsound hlabel, String.ofList_toList]
    rfl

/-- Different names are written differently. -/
theorem writtenName_injective (hfits : scope.Fits table unprefixed)
    (hsound : Sound IsLooseLabel IsFreeSpace table) {name other : Name}
    (hname : name.IsUnsplit) (hbound : IsBound table name)
    (hother : other.IsUnsplit) (hotherBound : IsBound table other)
    (h : writtenName table name = writtenName table other) : name = other := by
  have hread := resolve_writtenName hfits hsound hname hbound none
  rw [h, resolve_writtenName hfits hsound hother hotherBound none] at hread
  exact (Name.reread_injective (Except.ok.inj hread)).symm

/-! ## Attributes that bind -/

/-- A key that neither is `xmlns` nor has it in front of its colon binds nothing. -/
theorem declaredPrefix?_eq_none {cs : List Char} (hkey : cs ≠ "xmlns".toList)
    (hbegins : ¬ "xmlns:".toList <+: cs) : declaredPrefix? cs = none := by
  unfold declaredPrefix?
  split
  · exact absurd rfl hkey
  · next label =>
    apply absurd _ hbegins
    exact ⟨label, rfl⟩
  · rfl

/-- A beginning without a colon that stands in front of a colon does not reach it. -/
theorem prefix_of_prefix_append {start before after : List Char}
    (h : start <+: before ++ ':' :: after) (hcolon : ':' ∉ start) : start <+: before := by
  have hbefore : before ++ [':'] <+: before ++ ':' :: after := ⟨after, by simp⟩
  rcases List.prefix_or_prefix_of_prefix h hbefore with hshort | hlong
  · rcases List.prefix_concat_iff.1 hshort with heq | hbegins
    · rw [heq] at hcolon
      exact absurd (by simp) hcolon
    · exact hbegins
  · apply absurd _ hcolon
    exact hlong.subset (by simp)

/-- A written name is no declaration, unless it is `xmlns` itself. -/
theorem declaredPrefix?_writtenName (hsound : Sound IsLooseLabel IsFreeSpace table) {name : Name}
    (hname : name.IsUnsplit) (hbound : IsBound table name)
    (hne : name ≠ Name.unqualified "xmlns") :
    declaredPrefix? (writtenName table name) = none := by
  cases hspace : name.space with
  | none =>
    rw [writtenName_of_space hspace]
    apply declaredPrefix?_eq_none
    · intro heq
      apply hne
      obtain ⟨space, localName⟩ := name
      rw [String.toList_inj] at heq
      rw [Name.unqualified]
      simp only at hspace heq
      rw [hspace, heq]
    · intro hbegins
      exact hname hspace (hbegins.subset (by decide))
  | some uri =>
    obtain ⟨label, hlabel⟩ := Option.isSome_iff_exists.1 (hbound uri hspace)
    have hvalid := hsound.labels _ (mem_of_prefixOf? hlabel)
    -- no label begins with `xml`, and no name reaches over the colon behind the label
    have hreserved : ¬ "xml".toList <+: label.toList := by
      intro hbegins
      have hfree := hvalid.free
      rw [List.isPrefixOf_iff_prefix.2 hbegins] at hfree
      cases hfree
    rw [writtenName_of_label hspace hlabel]
    apply declaredPrefix?_eq_none
    · intro heq
      apply hreserved
      apply prefix_of_prefix_append _ (by decide)
      · exact name.localName.toList
      · rw [heq]
        decide
    · intro hbegins
      apply hreserved
      have hshort : "xml".toList <+: "xmlns:".toList := by decide
      exact prefix_of_prefix_append (hshort.trans hbegins) (by decide)

/-- The scope with the binding of an attribute, if the attribute is a declaration. -/
def bindEntry (scope : Scope) (entry : List Char × List Char) : Except Fault Scope :=
  match declaredPrefix? entry.1 with
  | none => .ok scope
  | some label => scope.bind entry.1 label entry.2

/-- The bindings of an element are made attribute by attribute. -/
theorem enter_eq_foldlM (scope : Scope) (written : List WrittenAttribute) :
    scope.enter written =
      (written.map fun one => (one.key, one.value)).foldlM bindEntry scope := by
  induction written generalizing scope with
  | nil => rfl
  | cons one rest ih =>
    rw [Scope.enter, List.map_cons, List.foldlM_cons, bindEntry]
    cases declaredPrefix? one.key with
    | none => exact ih scope
    | some label =>
      simp only
      cases scope.bind one.key label one.value with
      | error fault => rfl
      | ok bound => exact ih bound

/-- The namespace of names without a prefix that an attribute of the name `xmlns` binds. -/
def boundSpace (value : String) : Option String :=
  if value = "" then none else some (readSpace value)

/-- The namespace of names without a prefix inside an element with the given attributes. -/
def innerSpace (unprefixed : Option String) (entries : List (Name × String)) : Option String :=
  entries.foldl (fun space entry =>
    if entry.1 = Name.unqualified "xmlns" then boundSpace entry.2 else space) unprefixed

/-- A list of attributes as it is read: names with prefixes, and escaped values. -/
def readEntries (table : PrefixTable) (entries : List (Name × String)) :
    List (List Char × List Char) :=
  entries.map fun entry => (writtenName table entry.1, escape entry.2.toList)

/-- An attribute of the name `xmlns` binds the names without a prefix and nothing else. -/
theorem bindEntry_xmlns (hfits : scope.Fits table unprefixed)
    (hsound : Sound IsLooseLabel IsFreeSpace table) (value : String) :
    ∃ inner, bindEntry scope ("xmlns".toList, escape value.toList) = .ok inner ∧
      inner.Fits table (boundSpace value) := by
  refine ⟨⟨([], escape value.toList) :: scope.bindings⟩, rfl, ?_, ?_⟩
  · intro uri label hlabel
    have hne := (hsound.labels _ (mem_of_prefixOf? hlabel)).name.nonempty
    rw [lookup_cons_of_ne hne]
    exact hfits.labels uri label hlabel
  · unfold Scope.defaultSpace boundSpace
    rw [List.lookup_cons_self]
    by_cases hempty : value = ""
    · rw [if_pos hempty, hempty]
      rfl
    · rw [if_neg hempty]
      cases hescape : escape value.toList with
      | nil => exact absurd hescape (escape_ne_nil hempty)
      | cons c rest => rw [readSpace, hescape]

/-- The attributes of an element bind nothing but the names without a prefix. -/
theorem foldlM_bindEntry_own (hfits : scope.Fits table unprefixed)
    (hsound : Sound IsLooseLabel IsFreeSpace table) {entries : List (Name × String)}
    (hnames : ∀ entry ∈ entries, entry.1.IsUnsplit)
    (hbound : ∀ entry ∈ entries, IsBound table entry.1) :
    ∃ inner, (readEntries table entries).foldlM bindEntry scope = .ok inner ∧
      inner.Fits table (innerSpace unprefixed entries) := by
  induction entries generalizing scope unprefixed with
  | nil => exact ⟨scope, rfl, hfits⟩
  | cons entry rest ih =>
    rw [List.forall_mem_cons] at hnames hbound
    unfold readEntries innerSpace
    rw [List.map_cons, List.foldlM_cons, List.foldl_cons]
    by_cases hxmlns : entry.1 = Name.unqualified "xmlns"
    · obtain ⟨inner, hbind, hinner⟩ := bindEntry_xmlns hfits hsound entry.2
      have hkey : writtenName table entry.1 = "xmlns".toList := by
        rw [hxmlns]
        rfl
      rw [if_pos hxmlns, hkey, hbind]
      exact ih hinner hnames.2 hbound.2
    · have hkey := declaredPrefix?_writtenName hsound hnames.1 hbound.1 hxmlns
      rw [if_neg hxmlns]
      unfold bindEntry
      simp only [hkey]
      exact ih hfits hnames.2 hbound.2

/-! ## Declarations -/

/-- The binding of a prefix to a namespace as it is read. -/
def readBinding (binding : String × String) : List Char × List Char :=
  (binding.2.toList, escape binding.1.toList)

/-- The declarations of a table as they are read. -/
def readDeclarations (table : PrefixTable) : List (List Char × List Char) :=
  table.bindings.map fun binding =>
    ("xmlns:".toList ++ binding.2.toList, escape binding.1.toList)

/-- No other text is escaped to one that escaping leaves as it is. -/
theorem escape_eq_iff {uri reserved : List Char} (hplain : escape reserved = reserved) :
    escape uri = reserved ↔ uri = reserved := by
  constructor
  · intro h
    apply escape_injective
    rw [h, hplain]
  · rintro rfl
    exact hplain

/-- A prefix of the table is none of the reserved ones. -/
theorem label_ne_of_free {label : String} (h : IsLabel IsLooseLabel label) {reserved : List Char}
    (hreserved : "xml".toList <+: reserved) : label.toList ≠ reserved := by
  intro heq
  have hfree := h.free
  rw [heq, List.isPrefixOf_iff_prefix.2 hreserved] at hfree
  cases hfree

/-- A declaration of the root binds its prefix, unless the namespace is reserved. -/
theorem bindEntry_eq_ok {uri label : String} (hlabel : IsLabel IsLooseLabel label)
    {scope inner : Scope} :
    bindEntry scope ("xmlns:".toList ++ label.toList, escape uri.toList) = .ok inner ↔
      ¬ IsReservedSpace uri ∧ inner = ⟨readBinding (uri, label) :: scope.bindings⟩ := by
  have hkey : ("xmlns:".toList ++ label.toList == "xmlns".toList) = false := by
    rw [beq_eq_false_iff_ne]
    intro heq
    have hlength := congrArg List.length heq
    rw [List.length_append] at hlength
    have hcolon : "xmlns:".toList.length = "xmlns".toList.length + 1 := rfl
    omega
  have hxml : (label.toList == "xml".toList) = false :=
    beq_eq_false_iff_ne.2 (label_ne_of_free hlabel (by decide))
  have hxmlns : (label.toList == "xmlns".toList) = false :=
    beq_eq_false_iff_ne.2 (label_ne_of_free hlabel (by decide))
  have hreserved : (escape uri.toList == xmlUri || escape uri.toList == xmlnsUri) = true ↔
      IsReservedSpace uri := by
    rw [Bool.or_eq_true, beq_iff_eq, beq_iff_eq, escape_eq_iff (by decide),
      escape_eq_iff (by decide)]
    rfl
  have hdeclared : declaredPrefix? ("xmlns:".toList ++ label.toList) = some label.toList := rfl
  unfold bindEntry
  simp only [hdeclared]
  unfold Scope.bind
  simp only [hkey, hxml, hxmlns, Bool.false_eq_true, if_false]
  by_cases huri : IsReservedSpace uri
  · rw [if_pos (hreserved.2 huri)]
    constructor
    · intro h
      cases h
    · rintro ⟨hfree, _⟩
      exact absurd huri hfree
  · rw [if_neg (mt hreserved.1 huri), Except.ok.injEq]
    constructor
    · rintro rfl
      exact ⟨huri, rfl⟩
    · rintro ⟨_, rfl⟩
      rfl

/-- The declarations of the root bind their prefixes one after the other. -/
theorem foldlM_bindEntry_declarations {bindings : List (String × String)}
    (hlabels : ∀ binding ∈ bindings, IsLabel IsLooseLabel binding.2)
    (hspaces : ∀ binding ∈ bindings, IsFreeSpace binding.1) (scope : Scope) :
    (bindings.map fun binding =>
        ("xmlns:".toList ++ binding.2.toList, escape binding.1.toList)).foldlM bindEntry scope =
      .ok ⟨(bindings.map readBinding).reverse ++ scope.bindings⟩ := by
  induction bindings generalizing scope with
  | nil => rfl
  | cons binding rest ih =>
    rw [List.forall_mem_cons] at hlabels hspaces
    have hfirst : bindEntry scope ("xmlns:".toList ++ binding.2.toList, escape binding.1.toList) =
        .ok ⟨readBinding binding :: scope.bindings⟩ :=
      (bindEntry_eq_ok hlabels.1).2 ⟨hspaces.1.unreserved, rfl⟩
    rw [List.map_cons, List.foldlM_cons, hfirst]
    have hrest := ih hlabels.2 hspaces.2 ⟨readBinding binding :: scope.bindings⟩
    rw [List.map_cons, List.reverse_cons, List.append_assoc]
    exact hrest

/-- Behind the declarations of the root all prefixes of the table are bound, and names without a
prefix have no namespace. -/
theorem enter_declarations (hsound : Sound IsLooseLabel IsFreeSpace table) :
    ∃ inner, (readDeclarations table).foldlM bindEntry Scope.outermost = .ok inner ∧
      inner.Fits table none := by
  refine ⟨_, foldlM_bindEntry_declarations hsound.labels hsound.spaces _, ?_, ?_⟩
  · intro uri label hlabel
    have hmem : (label.toList, escape uri.toList) ∈ (table.bindings.map readBinding).reverse := by
      rw [List.mem_reverse]
      exact List.mem_map_of_mem (mem_of_prefixOf? hlabel)
    have hdistinct : ((table.bindings.map readBinding).reverse.map Prod.fst).Nodup := by
      rw [List.map_reverse, List.nodup_reverse, List.map_map]
      have hkeys : table.bindings.map (Prod.fst ∘ readBinding) =
          (table.bindings.map Prod.snd).map String.toList := by
        rw [List.map_map]
        rfl
      rw [hkeys]
      exact hsound.distinct.map fun a b hab => String.toList_inj.1 hab
    rw [List.lookup_append, lookup_of_mem hdistinct hmem]
    rfl
  · have hmissing : (table.bindings.map readBinding).reverse.lookup [] = none := by
      apply lookup_eq_none_of_not_mem
      rw [List.map_reverse, List.mem_reverse, List.map_map, List.mem_map]
      rintro ⟨binding, hmem, heq⟩
      exact (hsound.labels binding hmem).name.nonempty heq
    unfold Scope.defaultSpace
    rw [List.lookup_append, hmissing]
    rfl

end Xml

end TypedXml
