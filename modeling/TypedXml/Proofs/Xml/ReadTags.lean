import TypedXml.Proofs.Xml.StartTags

/-!
# What start tags are read as

Reading does not check names, but the characters that delimit them cannot stand in them: no white
space is in a name, no `=` in a prefix, and a name that has a colon has a namespace.  Declarations
are taken out of the attributes.  So the names in every tag that is read are legible once they are
written again.
-/

set_option autoImplicit false

namespace TypedXml.Xml

open Element Document

/-! ## Keys of attributes -/

/-- Whether what is read of a key so far is a key. -/
def Tag.Stage.HasKey : Tag.Stage → Prop
  | .between => True
  | .inKey _ seen => IsKey seen.reverse
  | .afterKey _ key | .beforeValue _ key | .inValue _ key _ _ => IsKey key

/-- Every attribute is read with a key, if what is read so far of a key is one. -/
theorem Tag.isKey_of_mem_itemsFrom {stage : Tag.Stage} {pos : Nat} {cs : List Char}
    {written : WrittenAttribute} (hmem : .attribute written ∈ itemsFrom stage pos cs)
    (h : stage.HasKey) : IsKey written.key := by
  induction cs generalizing stage pos with
  | nil => cases stage <;> simp [itemsFrom] at hmem
  | cons c rest ih =>
    cases stage with
    | between =>
      rw [itemsFrom] at hmem
      split at hmem
      · exact ih hmem trivial
      · next hspace => exact ih hmem (isKey_singleton (Bool.not_eq_true _ ▸ hspace))
    | inKey start seen =>
      rw [itemsFrom] at hmem
      split at hmem
      · exact ih hmem h
      · next hequals =>
        split at hmem
        · exact ih hmem h
        · next hspace =>
          refine ih hmem ?_
          rw [Stage.HasKey, List.reverse_cons]
          exact h.append_singleton (Bool.not_eq_true _ ▸ hspace) (mt beq_iff_eq.2 hequals)
    | afterKey start key =>
      rw [itemsFrom] at hmem
      split at hmem
      · exact ih hmem h
      · split at hmem
        · exact ih hmem h
        · simp at hmem
    | beforeValue start key =>
      rw [itemsFrom] at hmem
      split at hmem
      · exact ih hmem h
      · split at hmem
        · exact ih hmem h
        · simp at hmem
    | inValue start key quote seen =>
      rw [itemsFrom] at hmem
      split at hmem
      · rcases List.mem_cons.1 hmem with heq | hlater
        · cases heq
          exact h
        · exact ih hlater trivial
      · exact ih hmem h

/-- A well-formed attribute is one of those that are read. -/
theorem Tag.mem_items_of_mem_wellFormed {items : List Tag.Item} {written : WrittenAttribute}
    (h : written ∈ wellFormed items) : .attribute written ∈ items := by
  induction items with
  | nil => cases h
  | cons item rest ih =>
    rcases item with first | ⟨position, fault, key⟩
    · rw [wellFormed, List.mem_cons] at h
      rcases h with rfl | hlater
      · exact List.mem_cons_self
      · exact List.mem_cons_of_mem _ (ih hlater)
    · cases h

/-- An attribute that passes its check is the one that was read. -/
theorem Tag.check_eq_ok {seen : List WrittenAttribute} {item : Tag.Item}
    {written : WrittenAttribute} (h : check seen item = .ok written) :
    item = .attribute written := by
  unfold check at h
  split at h
  · split at h
    · cases h
    · cases h
      rfl
  · cases h
  · split at h
    · cases h
    · cases h

/-! ## Scopes -/

/-- Whether all prefixes that are bound can stand in front of the colon in a key. -/
def Scope.HasLabels (scope : Scope) : Prop :=
  ∀ binding ∈ scope.bindings, '=' ∉ binding.1

variable {scope inner : Scope} {unprefixed : Option String}

/-- The prefixes that are bound once and for all can stand in keys. -/
theorem Scope.hasLabels_outermost : Scope.outermost.HasLabels := by
  unfold HasLabels
  decide

/-- A key that binds a prefix has it behind the colon; otherwise it binds names without one. -/
theorem key_of_declaredPrefix? {key label : List Char} (h : declaredPrefix? key = some label) :
    label = [] ∨ key = "xmlns:".toList ++ label := by
  unfold declaredPrefix? at h
  split at h
  · cases h
    exact Or.inl rfl
  · cases h
    exact Or.inr rfl
  · cases h

/-- One more binding keeps prefixes fit for keys if its own is. -/
theorem Scope.HasLabels.bind (h : scope.HasLabels) {key label uri : List Char}
    (hlabel : '=' ∉ label) (hbind : scope.bind key label uri = .ok inner) : inner.HasLabels := by
  have hadded : HasLabels ⟨(label, uri) :: scope.bindings⟩ := List.forall_mem_cons.2 ⟨hlabel, h⟩
  unfold Scope.bind at hbind
  dsimp only at hbind
  split at hbind
  · cases hbind
    exact hadded
  · split at hbind
    · split at hbind
      · cases hbind
        exact h
      · cases hbind
    · split at hbind
      · cases hbind
      · split at hbind
        · cases hbind
        · cases hbind
          exact hadded

/-- Inside an element prefixes are fit for keys if they are outside of it. -/
theorem Scope.HasLabels.enter {written : List WrittenAttribute}
    (h : scope.HasLabels) (hkeys : ∀ one ∈ written, IsKey one.key)
    (henter : scope.enter written = .ok inner) : inner.HasLabels := by
  induction written generalizing scope with
  | nil =>
    cases henter
    exact h
  | cons one rest ih =>
    rw [List.forall_mem_cons] at hkeys
    rw [Scope.enter] at henter
    split at henter
    · exact ih h hkeys.2 henter
    · next label hdeclared =>
      split at henter
      · cases henter
      · next bound hbind =>
        refine ih (h.bind ?_ hbind) hkeys.2 henter
        rcases key_of_declaredPrefix? hdeclared with rfl | hkey
        · simp
        · intro hmem
          apply hkeys.1.equals
          rw [hkey]
          exact List.mem_append_right "mlns:".toList hmem

/-! ## Names -/

/-- A prefix with a namespace is not empty, is bound to it, and the namespace is not empty
either. -/
theorem spaceOf_eq_ok {label : List Char} {uri : String} (h : scope.spaceOf label = .ok uri) :
    label ≠ [] ∧ uri ≠ "" ∧ (label, uri.toList) ∈ scope.bindings := by
  unfold Scope.spaceOf at h
  split at h
  · cases h
  · cases h
  · next chars hnonempty hlookup =>
    cases h
    split at hlookup
    · cases hlookup
    · next hlabel =>
      refine ⟨?_, ?_, ?_⟩
      · rintro rfl
        exact hlabel rfl
      · intro hempty
        rw [← String.toList_eq_nil_iff, String.toList_ofList] at hempty
        exact hnonempty hempty
      · rw [String.toList_ofList]
        exact mem_of_lookup hlookup

/-- A name in a scope: with a colon, what stands in front of it is bound. -/
theorem resolve_cases {written : List Char} {name : Name}
    (h : scope.resolve unprefixed written = .ok name) :
    (splitAtColon written = none ∧ name = ⟨unprefixed, String.ofList written⟩) ∨
      ∃ label localName uri, splitAtColon written = some (label, localName) ∧
        scope.spaceOf label = .ok uri ∧ name = ⟨some uri, String.ofList localName⟩ := by
  unfold Scope.resolve at h
  split at h
  · next hsplit => exact Or.inl ⟨hsplit, (Except.ok.inj h).symm⟩
  · next label localName hsplit =>
    obtain ⟨uri, huri, rfl⟩ := map_eq_ok.1 h
    exact Or.inr ⟨label, localName, uri, hsplit, huri, rfl⟩

/-- Whether an attribute name is one that reading can give. -/
structure IsReadName (name : Name) : Prop extends IsAttributeName name where
  space : ∀ uri ∈ name.space, uri ≠ ""
  free : name ≠ Name.unqualified "xmlns"

/-- The name of a key that is no declaration is one that reading can give. -/
theorem isReadName_of_resolve {key : List Char} (hkey : IsKey key)
    (hfree : ¬ (declaredPrefix? key).isSome = true) {name : Name}
    (h : scope.resolve none key = .ok name) : IsReadName name := by
  rcases resolve_cases h with ⟨hsplit, rfl⟩ | ⟨label, localName, uri, hsplit, huri, rfl⟩
  · have hchars : (String.ofList key).toList = key := String.toList_ofList
    refine ⟨⟨fun _ => ?_, ?_, fun _ => ?_, fun hspace => absurd rfl hspace⟩, ?_, ?_⟩
    · rw [hchars]
      exact colon_not_mem_of_splitAtColon hsplit
    · rw [hchars]
      exact hkey.word
    · rw [hchars]
      exact hkey
    · rintro _ ⟨⟩
    · intro heq
      apply hfree
      rw [← hchars, (Name.mk.inj heq).2]
      rfl
  · obtain ⟨rfl, hcolon⟩ := splitAtColon_eq_some hsplit
    obtain ⟨hlabel, hne, _⟩ := spaceOf_eq_ok huri
    have hword := (isWord_append.1 hkey.word).2
    rw [IsWord, List.forall_mem_cons] at hword
    have hequals : '=' ∉ localName := by
      intro hmem
      apply hkey.equals
      rw [List.tail_append_of_ne_nil hlabel]
      exact List.mem_append_right _ (List.mem_cons_of_mem _ hmem)
    have hchars : (String.ofList localName).toList = localName := String.toList_ofList
    have hsome : (some uri : Option String) ≠ none := Option.some_ne_none uri
    refine ⟨⟨fun hnone => absurd hnone hsome, ?_, fun hnone => absurd hnone hsome, fun _ => ?_⟩,
      ?_, fun heq => hsome (congrArg Name.space heq)⟩
    · rw [hchars]
      exact hword.2
    · rw [hchars]
      exact hequals
    · rintro _ ⟨⟩
      exact hne

/-- All attributes of a tag have names that reading can give. -/
theorem readAttributes_spec {seen : List WrittenAttribute} {read all : Attributes}
    {items : List Tag.Item} (hkeys : ∀ written, .attribute written ∈ items → IsKey written.key)
    (hread : ∀ name ∈ Entries.keys read.entries, IsReadName name)
    (h : readAttributes scope seen read items = .ok all) :
    ∀ name ∈ Entries.keys all.entries, IsReadName name := by
  induction items generalizing seen read with
  | nil =>
    cases h
    exact hread
  | cons item rest ih =>
    have hrest : ∀ written, .attribute written ∈ rest → IsKey written.key :=
      fun written hmem => hkeys written (List.mem_cons_of_mem _ hmem)
    rw [readAttributes, bind_eq_ok] at h
    obtain ⟨written, hcheck, h⟩ := h
    split at h
    · exact ih hrest hread h
    · next hfree =>
      obtain ⟨name, hname, h⟩ := bind_eq_ok.1 h
      obtain ⟨value, _, h⟩ := bind_eq_ok.1 h
      have hkey := hkeys written (Tag.check_eq_ok hcheck ▸ List.mem_cons_self)
      refine ih hrest ?_ h
      intro other hother
      rcases Entries.mem_keys_insert.1 hother with rfl | hbefore
      · exact isReadName_of_resolve hkey hfree hname
      · exact hread other hbefore

/-! ## Start tags -/

/-- Whether the names of an element are such that reading can give them. -/
structure Element.HasReadNames (element : Element) : Prop extends
    Legible (· ≠ "") element where
  unbound : Name.unqualified "xmlns" ∉ Entries.keys element.attributes.entries

/-- What is inside of an element does not matter for its names. -/
theorem Element.HasReadNames.filled {element : Element} (h : HasReadNames element)
    (text : Option String) (children : List Element) :
    HasReadNames { element with text := text, children := children } :=
  ⟨⟨⟨h.hint, h.space, h.attributeSpaces⟩, h.unsplit, h.word, h.start, h.attributeNames⟩, h.unbound⟩

/-- The namespace of names without a prefix is not empty if there is one. -/
theorem defaultSpace_ne {uri : String} (h : scope.defaultSpace = some uri) : uri ≠ "" := by
  unfold Scope.defaultSpace at h
  split at h
  · cases h
  · cases h
  · next chars hnonempty _ =>
    cases h
    rw [Ne, ← String.toList_eq_nil_iff, String.toList_ofList]
    exact hnonempty

/-- A name as it stands in a start tag, and the name that it is there. -/
structure NamesElement (written : List Char) (name : Name) : Prop where
  hint : ∀ parts ∈ splitAtColon written, IsPrefixText parts.1
  space : ∀ uri ∈ name.space, uri ≠ ""
  unsplit : name.IsUnsplit
  word : IsWord name.localName.toList
  start : name.space = none → IsTagStart name.localName.toList

/-- What a tag begins with names an element, once it is resolved. -/
theorem namesElement_of_resolve {written : List Char} (hword : IsWord written)
    (hstart : IsTagStart written) (hlabels : scope.HasLabels) {name : Name}
    (h : scope.resolve scope.defaultSpace written = .ok name) : NamesElement written name := by
  rcases resolve_cases h with ⟨hsplit, rfl⟩ | ⟨label, localName, uri, hsplit, huri, rfl⟩
  · have hchars : (String.ofList written).toList = written := String.toList_ofList
    refine ⟨?_, fun uri huri => defaultSpace_ne huri, fun _ => ?_, ?_, fun _ => ?_⟩
    · rw [hsplit]
      rintro _ ⟨⟩
    · rw [hchars]
      exact colon_not_mem_of_splitAtColon hsplit
    · rw [hchars]
      exact hword
    · rw [hchars]
      exact hstart
  · obtain ⟨hchars, hcolon⟩ := splitAtColon_eq_some hsplit
    obtain ⟨hlabel, hne, hbound⟩ := spaceOf_eq_ok huri
    rw [hchars, isWord_append, IsWord, IsWord, List.forall_mem_cons] at hword
    have hsome : (some uri : Option String) ≠ none := Option.some_ne_none uri
    refine ⟨?_, ?_, fun hnone => absurd hnone hsome, ?_, fun hnone => absurd hnone hsome⟩
    · rw [hsplit]
      rintro _ ⟨⟩
      exact ⟨hlabel, isTagStart_of_front ⟨_, hchars.symm⟩ hstart, hword.1,
        hlabels (label, uri.toList) hbound, hcolon⟩
    · rintro _ ⟨⟩
      exact hne
    · rw [String.toList_ofList]
      exact hword.2.2

/-- There is no white space in the name of a tag. -/
theorem isWord_name (tag : List Char) : IsWord (Tag.name tag) := by
  intro c hc
  have hchar := List.mem_takeWhile_imp hc
  rwa [Bool.not_eq_true'] at hchar

/-- At its tag an element has its attributes, and no text or children yet. -/
theorem parts_of_readTag {outer : Scope} {tag : List Char} {element : Element}
    (h : readTag outer tag = .ok (element, inner)) :
    outer.enter (Tag.wellFormed (Tag.items tag)) = .ok inner ∧
      readAttributes inner [] .empty (Tag.items tag) = .ok element.attributes ∧
        element.text = none ∧ element.children = [] := by
  unfold readTag at h
  obtain ⟨entered, henter, h⟩ := bind_eq_ok.1 h
  obtain ⟨name, _, h⟩ := bind_eq_ok.1 h
  obtain ⟨attributes, hattributes, h⟩ := bind_eq_ok.1 h
  cases h
  exact ⟨henter, hattributes, rfl, rfl⟩

/-- What a start tag is read as, and the scope inside of its element. -/
theorem readTag_spec {outer : Scope} {tag : List Char} (hstart : IsTagStart tag)
    (hlabels : outer.HasLabels) {element : Element} (h : readTag outer tag = .ok (element, inner)) :
    inner.HasLabels ∧ HasReadNames element ∧ element.children = [] := by
  have hkeys : ∀ written, .attribute written ∈ Tag.items tag → IsKey written.key :=
    fun written hmem => Tag.isKey_of_mem_itemsFrom hmem trivial
  unfold readTag at h
  obtain ⟨entered, henter, h⟩ := bind_eq_ok.1 h
  obtain ⟨name, hname, h⟩ := bind_eq_ok.1 h
  obtain ⟨attributes, hattributes, h⟩ := bind_eq_ok.1 h
  cases h
  have hinner : inner.HasLabels :=
    hlabels.enter (fun one hone => hkeys one (Tag.mem_items_of_mem_wellFormed hone)) henter
  have hnames := namesElement_of_resolve (isWord_name tag)
    (isTagStart_of_front (List.takeWhile_prefix _) hstart) hinner hname
  have hread := readAttributes_spec hkeys (by simp [Entries.keys, Attributes.empty]) hattributes
  have hentry : ∀ entry ∈ attributes.entries, IsReadName entry.1 :=
    fun entry hentry => hread entry.1 (List.mem_map_of_mem hentry)
  refine ⟨hinner, ⟨⟨⟨?_, hnames.space, fun entry h => (hentry entry h).space⟩, hnames.unsplit,
    hnames.word, hnames.start, fun entry h => (hentry entry h).toIsAttributeName⟩, ?_⟩, rfl⟩
  · intro label hlabel
    obtain ⟨parts, hparts, rfl⟩ := Option.map_eq_some_iff.1 hlabel
    refine Or.inr ?_
    rw [PrefixTable.IsLooseLabel, String.toList_ofList]
    exact hnames.hint parts hparts
  · exact fun hmem => (hread _ hmem).free rfl

end TypedXml.Xml
