import TypedXml.Proofs.Xml.Scopes
import TypedXml.Xml.Document

/-!
# Start tags that are read

A start tag is read with the scope inside of its element, in which both its own name and those of
its attributes are resolved.  No key is written twice, so that nothing is refused, and the
attributes come back in their order, apart from those that were taken for declarations.
-/

set_option autoImplicit false

namespace TypedXml.Xml

open Element PrefixTable Document

/-- Attributes as they are read, behind those that are read already. -/
def Attributes.rereadFrom (read : Attributes) (entries : List (Name × String)) : Attributes :=
  entries.foldl (fun read entry =>
    if entry.1 = Name.unqualified "xmlns" then read
    else read.insert (entry.1.reread none) entry.2) read

/-- Attributes as they are read. -/
def Attributes.reread (attributes : Attributes) : Attributes :=
  Attributes.rereadFrom .empty attributes.entries

/-! ## Names in tags -/

/-- Whether an attribute name, once it is written, is read as a key of its own. -/
structure IsAttributeName (name : Name) : Prop where
  unsplit : name.IsUnsplit
  word : IsWord name.localName.toList
  plain : name.space = none → IsKey name.localName.toList
  prefixed : name.space ≠ none → '=' ∉ name.localName.toList

/-- Whether the names of an element, once they are written, are read as names of their own. -/
structure Element.Legible (good : String → Prop) (element : Element) : Prop extends
    Declarable IsLooseLabel good element where
  unsplit : element.name.IsUnsplit
  word : IsWord element.name.localName.toList
  start : element.name.space = none → IsTagStart element.name.localName.toList
  attributeNames : ∀ entry ∈ element.attributes.entries, IsAttributeName entry.1

/-- The names of attributes that are legible are not split. -/
theorem Element.Legible.attributesUnsplit {good : String → Prop} {element : Element}
    (h : Legible good element) : ∀ entry ∈ element.attributes.entries, entry.1.IsUnsplit :=
  fun entry hentry => (h.attributeNames entry hentry).unsplit

/-- A name whose local part is an NCName can be read as a key of its own. -/
theorem isAttributeName_of_isNCName {name : Name} (h : isNCName name.localName = true) :
    IsAttributeName name where
  unsplit := Name.isUnsplit_of_isNCName h
  word := isWord_of_isNCNameChars h
  plain _ := isKey_of_isNCNameChars h
  prefixed _ := not_mem_of_isNCNameChars h (by decide)

/-- Names that can be written are legible. -/
theorem Element.Writable.legible {good : String → Prop} {element : Element}
    (h : Writable good element) : Legible good element where
  hint label hlabel := (h.hint label hlabel).imp_right IsStrictLabel.loose
  space := h.space
  attributeSpaces := h.attributeSpaces
  unsplit := Name.isUnsplit_of_isNCName h.name
  word := isWord_of_isNCNameChars h.name
  start _ := isTagStart_of_isNCNameChars h.name
  attributeNames entry hentry := isAttributeName_of_isNCName (h.attributeNames entry hentry)

variable {good : String → Prop} {table : PrefixTable} {scope : Scope}
  {unprefixed : Option String}

/-- A name without white space has none when it is written. -/
theorem isWord_writtenName (hsound : Sound IsLooseLabel good table) {name : Name}
    (hname : IsWord name.localName.toList) (hbound : IsBound table name) :
    IsWord (writtenName table name) := by
  cases hspace : name.space with
  | none =>
    rw [writtenName_of_space hspace]
    exact hname
  | some uri =>
    obtain ⟨label, hlabel⟩ := Option.isSome_iff_exists.1 (hbound uri hspace)
    have hvalid := hsound.labels _ (mem_of_prefixOf? hlabel)
    rw [writtenName_of_label hspace hlabel]
    exact isWord_append.2 ⟨hvalid.name.word, List.forall_mem_cons.2 ⟨by decide, hname⟩⟩

/-- The name of an attribute is written as a key. -/
theorem isKey_writtenName (hsound : Sound IsLooseLabel good table) {name : Name}
    (hname : IsAttributeName name) (hbound : IsBound table name) :
    IsKey (writtenName table name) := by
  cases hspace : name.space with
  | none =>
    rw [writtenName_of_space hspace]
    exact hname.plain hspace
  | some uri =>
    obtain ⟨label, hlabel⟩ := Option.isSome_iff_exists.1 (hbound uri hspace)
    have hvalid := hsound.labels _ (mem_of_prefixOf? hlabel)
    rw [writtenName_of_label hspace hlabel]
    refine isKey_append hvalid.name hname.word (hname.prefixed ?_)
    rw [hspace]
    exact Option.some_ne_none uri

/-- A name that a tag can begin with is written as such. -/
theorem isTagStart_writtenName (hsound : Sound IsLooseLabel good table) {name : Name}
    (hname : name.space = none → IsTagStart name.localName.toList) (hbound : IsBound table name) :
    IsTagStart (writtenName table name) := by
  cases hspace : name.space with
  | none =>
    rw [writtenName_of_space hspace]
    exact hname hspace
  | some uri =>
    obtain ⟨label, hlabel⟩ := Option.isSome_iff_exists.1 (hbound uri hspace)
    have hvalid := hsound.labels _ (mem_of_prefixOf? hlabel)
    rw [writtenName_of_label hspace hlabel]
    exact isTagStart_append hvalid.name.start hvalid.name.nonempty

/-! ## Attributes one by one -/

/-- The attributes with one more, if it is no declaration. -/
def readEntry (scope : Scope) (read : Attributes) (entry : List Char × List Char) :
    Except Fault Attributes :=
  if (declaredPrefix? entry.1).isSome then .ok read
  else do
    let name ← scope.resolve none entry.1
    let value ← (unescape entry.2).mapError .valueReference
    pure (read.insert name (String.ofList value))

/-- A key that does not stand among earlier ones is not found there. -/
theorem earlier?_eq_none {seen : List WrittenAttribute} {key : List Char}
    (h : key ∉ seen.map (·.key)) : Tag.earlier? seen key = none := by
  unfold Tag.earlier?
  rw [Option.map_eq_none_iff, List.find?_eq_none]
  intro one hone
  rw [beq_iff_eq]
  rintro rfl
  exact h (List.mem_map_of_mem hone)

/-- Attributes with distinct keys are read one by one. -/
theorem readAttributes_eq_foldlM {seen written : List WrittenAttribute} {read : Attributes}
    (h : ((seen ++ written).map (·.key)).Nodup) :
    readAttributes scope seen read (written.map .attribute) =
      (written.map fun one => (one.key, one.value)).foldlM (readEntry scope) read := by
  induction written generalizing seen read with
  | nil => rfl
  | cons one rest ih =>
    have hfresh : one.key ∉ seen.map (·.key) := by
      rw [List.map_append, List.nodup_append] at h
      intro hmem
      exact h.2.2 _ hmem one.key (by simp) rfl
    have hmoved : seen ++ one :: rest = (seen ++ [one]) ++ rest := by simp
    rw [hmoved] at h
    have hcheck : Tag.check seen (.attribute one) = .ok one := by
      unfold Tag.check
      simp only [earlier?_eq_none hfresh]
    rw [List.map_cons, List.map_cons, List.foldlM_cons, readAttributes, hcheck, readEntry]
    show (if (declaredPrefix? one.key).isSome = true then
      readAttributes scope (seen ++ [one]) read (rest.map .attribute) else _) = _
    by_cases hdeclared : (declaredPrefix? one.key).isSome = true
    · rw [if_pos hdeclared, if_pos hdeclared]
      exact ih h
    · rw [if_neg hdeclared, if_neg hdeclared]
      cases scope.resolve none one.key with
      | error fault => rfl
      | ok name =>
        cases unescape one.value with
        | error fault => rfl
        | ok value => exact ih h

/-- Declarations are left out of the attributes. -/
theorem foldlM_readEntry_declared {entries : List (List Char × List Char)}
    (h : ∀ entry ∈ entries, (declaredPrefix? entry.1).isSome = true) (read : Attributes) :
    entries.foldlM (readEntry scope) read = .ok read := by
  induction entries with
  | nil => rfl
  | cons entry rest ih =>
    rw [List.forall_mem_cons] at h
    rw [List.foldlM_cons, readEntry, if_pos h.1]
    exact ih h.2

/-- The attributes of an element are read in their order. -/
theorem foldlM_readEntry_own (hfits : scope.Fits table unprefixed)
    (hsound : Sound IsLooseLabel IsFreeSpace table) {entries : List (Name × String)}
    (hnames : ∀ entry ∈ entries, entry.1.IsUnsplit)
    (hbound : ∀ entry ∈ entries, IsBound table entry.1) (read : Attributes) :
    (readEntries table entries).foldlM (readEntry scope) read =
      .ok (read.rereadFrom entries) := by
  induction entries generalizing read with
  | nil => rfl
  | cons entry rest ih =>
    rw [List.forall_mem_cons] at hnames hbound
    unfold readEntries Attributes.rereadFrom
    rw [List.map_cons, List.foldlM_cons, List.foldl_cons]
    by_cases hxmlns : entry.1 = Name.unqualified "xmlns"
    · have hkey : writtenName table entry.1 = "xmlns".toList := by
        rw [hxmlns]
        rfl
      rw [if_pos hxmlns, hkey]
      exact ih hnames.2 hbound.2 read
    · have hkey := declaredPrefix?_writtenName hsound hnames.1 hbound.1 hxmlns
      have hname := resolve_writtenName hfits hsound hnames.1 hbound.1 none
      have hentry : readEntry scope read (writtenName table entry.1, escape entry.2.toList) =
          .ok (read.insert (entry.1.reread none) entry.2) := by
        unfold readEntry
        simp only [hkey, hname, unescape_escape, Option.isSome_none, Bool.false_eq_true, if_false]
        show Except.ok (read.insert _ (String.ofList entry.2.toList)) = _
        rw [String.ofList_toList]
      rw [if_neg hxmlns, hentry]
      exact ih hnames.2 hbound.2 (read.insert (entry.1.reread none) entry.2)

/-! ## Keys -/

/-- Attributes with distinct names are written with distinct keys. -/
theorem nodup_writtenNames (hfits : scope.Fits table unprefixed)
    (hsound : Sound IsLooseLabel IsFreeSpace table) {entries : List (Name × String)}
    (hnames : ∀ entry ∈ entries, entry.1.IsUnsplit)
    (hbound : ∀ entry ∈ entries, IsBound table entry.1)
    (hdistinct : (Entries.keys entries).Nodup) :
    (entries.map fun entry => writtenName table entry.1).Nodup := by
  induction entries with
  | nil => exact List.nodup_nil
  | cons entry rest ih =>
    rw [List.forall_mem_cons] at hnames hbound
    have hkeys := List.nodup_cons.1 hdistinct
    rw [List.map_cons, List.nodup_cons]
    refine ⟨?_, ih hnames.2 hbound.2 hkeys.2⟩
    intro hmem
    obtain ⟨other, hother, heq⟩ := List.mem_map.1 hmem
    have hsame := writtenName_injective hfits hsound (hnames.2 other hother)
      (hbound.2 other hother) hnames.1 hbound.1 heq
    exact ne_of_nodup_cons hdistinct hother hsame

/-! ## Start tags -/

/-- Attributes that are written in front of those of an element: declarations under which the
bindings of the table hold. -/
structure Opens (table : PrefixTable) (outer : Scope) (unprefixed : Option String)
    (extra : List (List Char × List Char)) : Prop where
  enter : ∃ inner, (extra.map fun entry => (entry.1, escape entry.2)).foldlM bindEntry outer =
    .ok inner ∧ inner.Fits table unprefixed
  declared : ∀ entry ∈ extra, ∃ label, IsPrefixText label ∧ entry.1 = "xmlns:".toList ++ label
  distinct : (extra.map Prod.fst).Nodup

/-- Where the bindings of the table hold already, nothing has to be written in front. -/
theorem opens_nil (hfits : scope.Fits table unprefixed) : Opens table scope unprefixed [] :=
  ⟨⟨scope, rfl, hfits⟩, by simp, List.nodup_nil⟩

/-- The keys of declarations have the prefixes of the table behind their colon. -/
theorem declared_declarations (hsound : Sound IsLooseLabel good table) :
    ∀ entry ∈ declarations table, ∃ label, IsPrefixText label ∧
      entry.1 = "xmlns:".toList ++ label := by
  intro entry hentry
  obtain ⟨binding, hbinding, rfl⟩ := List.mem_map.1 hentry
  exact ⟨binding.2.toList, (hsound.labels binding hbinding).name, rfl⟩

/-- The declarations of the root are written in front of its attributes. -/
theorem opens_declarations (hsound : Sound IsLooseLabel IsFreeSpace table) :
    Opens table Scope.outermost none (declarations table) := by
  refine ⟨?_, declared_declarations hsound, ?_⟩
  · have hread : (declarations table).map (fun entry => (entry.1, escape entry.2)) =
        readDeclarations table := by
      unfold declarations readDeclarations
      rw [List.map_map]
      rfl
    rw [hread]
    exact enter_declarations hsound
  · have hkeys : (declarations table).map Prod.fst =
        (table.bindings.map Prod.snd).map fun label => "xmlns:".toList ++ label.toList := by
      unfold declarations
      rw [List.map_map, List.map_map]
      rfl
    rw [hkeys]
    refine hsound.distinct.map ?_
    intro label other heq
    exact String.toList_inj.1 (List.append_cancel_left heq)

/-- A key with `xmlns` in front of its colon is a declaration. -/
theorem isSome_declaredPrefix? (label : List Char) :
    (declaredPrefix? ("xmlns:".toList ++ label)).isSome = true := rfl

/-- A declaration of a prefix has a key. -/
theorem isKey_declaration {label : List Char} (h : IsPrefixText label) :
    IsKey ("xmlns:".toList ++ label) := by
  have hkey : IsPrefixText "xmlns".toList := isPrefixText_of_isNCNameChars (by decide)
  exact isKey_append hkey h.word h.equals

/-- An element as its start tag gives it: without text and without children. -/
def Element.opened (table : PrefixTable) (unprefixed : Option String) (element : Element) :
    Element where
  name := element.name.reread (innerSpace unprefixed element.attributes.entries)
  preferredPrefix := element.name.space.bind table.prefixOf?
  attributes := element.attributes.reread

variable {element : Element} {extra : List (List Char × List Char)} {outer : Scope}

/-- What stands in front of the colon of a written name is the prefix of its namespace. -/
theorem label_of_writtenName (hsound : Sound IsLooseLabel IsFreeSpace table) {name : Name}
    (hname : name.IsUnsplit) (hbound : IsBound table name) :
    (splitAtColon (writtenName table name)).map (fun parts => String.ofList parts.1) =
      name.space.bind table.prefixOf? := by
  cases hspace : name.space with
  | none =>
    rw [writtenName_of_space hspace, splitAtColon_eq_none (hname hspace)]
    rfl
  | some uri =>
    obtain ⟨label, hlabel⟩ := Option.isSome_iff_exists.1 (hbound uri hspace)
    have hvalid := hsound.labels _ (mem_of_prefixOf? hlabel)
    rw [writtenName_of_label hspace hlabel, splitAtColon_append hvalid.name.colon,
      Option.bind_some, hlabel, Option.map_some, String.ofList_toList]

/-- The attributes that are written with an element. -/
def tagEntries (table : PrefixTable) (extra : List (List Char × List Char)) (element : Element) :
    List (List Char × List Char) :=
  extra ++ writtenAttributes table element.attributes

/-- The attributes of a tag are the ones in front and those of the element, with escaped values. -/
theorem map_tagEntries :
    (tagEntries table extra element).map (fun entry => (entry.1, escape entry.2)) =
      extra.map (fun entry => (entry.1, escape entry.2)) ++
        readEntries table element.attributes.entries := by
  unfold tagEntries writtenAttributes readEntries
  rw [List.map_append, List.map_map]
  rfl

/-- The keys of declarations are keys. -/
theorem isKey_of_declared
    (h : ∀ entry ∈ extra, ∃ label, IsPrefixText label ∧ entry.1 = "xmlns:".toList ++ label) :
    ∀ entry ∈ extra, IsKey entry.1 := by
  intro entry hentry
  obtain ⟨label, hlabel, hkey⟩ := h entry hentry
  rw [hkey]
  exact isKey_declaration hlabel

/-- All attributes of a tag have keys. -/
theorem isKey_of_mem_tagEntries (hsound : Sound IsLooseLabel good table)
    (hlegible : Legible good element) (hbound : AllBound table element)
    (hextra : ∀ entry ∈ extra, IsKey entry.1) :
    ∀ entry ∈ tagEntries table extra element, IsKey entry.1 := by
  intro entry hentry
  rcases List.mem_append.1 hentry with hfront | hown
  · exact hextra entry hfront
  · obtain ⟨own, hmem, rfl⟩ := List.mem_map.1 hown
    exact isKey_writtenName hsound (hlegible.attributeNames own hmem)
      (hbound.attributes own hmem)

/-- No key is written twice in a tag. -/
theorem nodup_tagEntries (hsound : Sound IsLooseLabel IsFreeSpace table)
    (hlegible : Legible IsFreeSpace element)
    (hbound : AllBound table element) (hopens : Opens table outer unprefixed extra) :
    ((tagEntries table extra element).map Prod.fst).Nodup := by
  obtain ⟨inner, _, hfits⟩ := hopens.enter
  have hown := nodup_writtenNames hfits hsound hlegible.attributesUnsplit hbound.attributes
    element.attributes.distinct
  have hkeys : (writtenAttributes table element.attributes).map Prod.fst =
      element.attributes.entries.map fun entry => writtenName table entry.1 := by
    unfold writtenAttributes
    rw [List.map_map]
    rfl
  unfold tagEntries
  rw [List.map_append, hkeys, List.nodup_append]
  refine ⟨hopens.distinct, hown, ?_⟩
  intro key hkey other hother heq
  obtain ⟨entry, hentry, rfl⟩ := List.mem_map.1 hkey
  obtain ⟨own, hmem, rfl⟩ := List.mem_map.1 hother
  obtain ⟨label, hlabel, hdeclared⟩ := hopens.declared entry hentry
  rw [hdeclared] at heq
  by_cases hxmlns : own.1 = Name.unqualified "xmlns"
  · -- the key `xmlns` has no colon, and the keys of declarations have one
    have hplain : ':' ∉ "xmlns".toList := by decide
    apply hplain
    have hkey : "xmlns:".toList ++ label = "xmlns".toList := by
      rw [heq, hxmlns]
      rfl
    rw [← hkey]
    simp
  · have hnone := declaredPrefix?_writtenName hsound (hlegible.attributesUnsplit own hmem)
      (hbound.attributes own hmem) hxmlns
    rw [← heq] at hnone
    cases hnone

/-- A start tag is read as the element that it opens. -/
theorem readTag_write (hsound : Sound IsLooseLabel IsFreeSpace table)
    (hlegible : Legible IsFreeSpace element)
    (hbound : AllBound table element) (hopens : Opens table outer unprefixed extra) :
    ∃ inner, readTag outer
        (Tag.write (writtenName table element.name) (tagEntries table extra element)) =
          .ok (element.opened table unprefixed, inner) ∧
      inner.Fits table (innerSpace unprefixed element.attributes.entries) := by
  have hname := isWord_writtenName hsound hlegible.word hbound.name
  obtain ⟨written, hitems, hentries⟩ := Tag.items_write hname
    (isKey_of_mem_tagEntries hsound hlegible hbound (isKey_of_declared hopens.declared))
  -- declarations come first and bind; of the attributes behind them only `xmlns` does
  obtain ⟨middle, hmiddle, hfits⟩ := hopens.enter
  obtain ⟨inner, hinner, hinnerFits⟩ := foldlM_bindEntry_own hfits hsound
    hlegible.attributesUnsplit hbound.attributes
  rw [map_tagEntries] at hentries
  have henter : outer.enter (Tag.wellFormed (written.map .attribute)) = .ok inner := by
    rw [Tag.wellFormed_map, enter_eq_foldlM, hentries, List.foldlM_append, hmiddle]
    exact hinner
  have hkeys : (([] ++ written : List WrittenAttribute).map (·.key)).Nodup := by
    have hfst := congrArg (List.map Prod.fst) hentries
    rw [← map_tagEntries, List.map_map, List.map_map] at hfst
    have hnodup := nodup_tagEntries hsound hlegible hbound hopens
    exact hfst ▸ hnodup
  have hread : readAttributes inner [] .empty (written.map .attribute) =
      .ok element.attributes.reread := by
    have hdeclared : ∀ entry ∈ extra.map (fun entry => (entry.1, escape entry.2)),
        (declaredPrefix? entry.1).isSome = true := by
      intro entry hentry
      obtain ⟨raw, hraw, rfl⟩ := List.mem_map.1 hentry
      obtain ⟨label, _, hkey⟩ := hopens.declared raw hraw
      simp only [hkey, isSome_declaredPrefix?]
    rw [readAttributes_eq_foldlM hkeys, hentries, List.foldlM_append,
      foldlM_readEntry_declared hdeclared]
    exact foldlM_readEntry_own hinnerFits hsound hlegible.attributesUnsplit hbound.attributes _
  refine ⟨inner, ?_, hinnerFits⟩
  have hresolved := resolve_writtenName hinnerFits hsound hlegible.unsplit hbound.name
    inner.defaultSpace
  unfold readTag
  rw [hitems, Tag.name_write hname]
  refine bind_eq_ok.2 ⟨inner, henter, bind_eq_ok.2 ⟨_, hresolved, bind_eq_ok.2 ⟨_, hread, ?_⟩⟩⟩
  rw [hinnerFits.unprefixed, label_of_writtenName hsound hlegible.unsplit hbound.name]
  rfl

end TypedXml.Xml
