import TypedXml.Proofs.Xml.Documents

/-!
# Parsing undoes rendering

What a tree is read as is the tree itself if nothing in it is of the kinds that reading changes:
namespaces with special characters, attributes that bind the names without a prefix, and text that
counts as no text or as layout.  The prefixes may be others, and they do not count.
-/

set_option autoImplicit false

namespace TypedXml.Xml

open PrefixTable

/-- Whether a namespace stands in its declaration without references. -/
def IsPlainSpace (uri : String) : Prop :=
  ∀ c ∈ uri.toList, isSpecial c = false

/-- A namespace is plain if and only if it has no special characters. -/
theorem isPlainSpace_iff {uri : String} :
    IsPlainSpace uri ↔ uri.toList.any isSpecial = false := by
  rw [List.any_eq_false]
  constructor
  · intro h c hc
    rw [h c hc]
    exact Bool.false_ne_true
  · intro h c hc
    rw [← Bool.not_eq_true]
    exact h c hc

/-- Attributes with the same entries are equal. -/
theorem Attributes.ext {attributes others : Attributes}
    (h : attributes.entries = others.entries) : attributes = others := by
  obtain ⟨entries, _⟩ := attributes
  obtain ⟨otherEntries, _⟩ := others
  obtain rfl : entries = otherEntries := h
  rfl

/-- A plain namespace is read as it is. -/
theorem readSpace_eq_self {uri : String} (h : IsPlainSpace uri) : readSpace uri = uri := by
  unfold readSpace
  rw [escape_eq_self.2 h, String.ofList_toList]

namespace Element

/-- Whether the names of an element are read as they are: its namespaces are plain, and none of
its attributes binds names. -/
structure KeepsNames (element : Element) : Prop where
  space : ∀ uri ∈ element.name.space, IsPlainSpace uri
  attributeSpaces : ∀ entry ∈ element.attributes.entries, ∀ uri ∈ entry.1.space, IsPlainSpace uri
  unbound : Name.unqualified "xmlns" ∉ Entries.keys element.attributes.entries

/-- Whether the text of an element is read as it is: it is not empty, and in front of children it
is not blank. -/
structure KeepsText (element : Element) : Prop where
  nonempty : element.text ≠ some ""
  visible : element.children ≠ [] → ∀ text ∈ element.text, ¬ text.toList.all Text.isBlank = true

variable {table : PrefixTable} {element : Element}

/-- A name whose namespace is plain is read as it is. -/
theorem reread_name {name : Name} (h : ∀ uri ∈ name.space, IsPlainSpace uri) :
    name.reread none = name := by
  obtain ⟨space, localName⟩ := name
  cases space with
  | none => rfl
  | some uri =>
    show Name.mk (some (readSpace uri)) localName = _
    rw [readSpace_eq_self (h uri rfl)]

/-- Attributes that bind nothing leave the names without a prefix where they are. -/
theorem innerSpace_eq {entries : List (Name × String)} (unprefixed : Option String)
    (h : Name.unqualified "xmlns" ∉ Entries.keys entries) :
    innerSpace unprefixed entries = unprefixed := by
  induction entries with
  | nil => rfl
  | cons entry rest ih =>
    rw [Entries.keys, List.map_cons, List.mem_cons, not_or] at h
    unfold innerSpace
    rw [List.foldl_cons, if_neg (Ne.symm h.1)]
    exact ih h.2

/-- Attributes that bind nothing are written one after the other behind those that are read. -/
theorem entries_rereadFrom {entries : List (Name × String)}
    (hunbound : Name.unqualified "xmlns" ∉ Entries.keys entries) (read : Attributes) :
    (read.rereadFrom entries).entries =
      (entries.map fun entry => (entry.1.reread none, entry.2)).foldl
        (fun read entry => Entries.insert entry.1 entry.2 read) read.entries := by
  induction entries generalizing read with
  | nil => rfl
  | cons entry rest ih =>
    rw [Entries.keys, List.map_cons, List.mem_cons, not_or] at hunbound
    have hrest := ih hunbound.2 (read.insert (entry.1.reread none) entry.2)
    unfold Attributes.rereadFrom at hrest ⊢
    rw [List.foldl_cons, List.map_cons, List.foldl_cons, if_neg (Ne.symm hunbound.1)]
    exact hrest

/-- Attributes are read one by one, since their names stay distinct. -/
theorem entries_reread {attributes : Attributes}
    (hunbound : Name.unqualified "xmlns" ∉ Entries.keys attributes.entries) :
    attributes.reread.entries =
      attributes.entries.map fun entry => (entry.1.reread none, entry.2) := by
  have hdistinct : (Entries.keys (attributes.entries.map fun entry =>
      (entry.1.reread none, entry.2))).Nodup := by
    have hkeys := attributes.distinct.map @Name.reread_injective
    rw [Entries.keys, List.map_map] at hkeys ⊢
    exact hkeys
  exact (entries_rereadFrom hunbound .empty).trans (Entries.ofPairs_eq_self hdistinct)

/-- The attributes of an element whose names are kept are read as they are. -/
theorem reread_attributes (h : KeepsNames element) :
    element.attributes.reread = element.attributes := by
  refine Attributes.ext ((entries_reread h.unbound).trans ?_)
  refine (List.map_congr_left fun entry hentry => ?_).trans (List.map_id _)
  rw [reread_name (h.attributeSpaces entry hentry)]
  rfl

/-- An element whose names are kept may be read with another prefix and another text only. -/
theorem reread_of_keepsNames (h : KeepsNames element) :
    element.reread table none =
      { element with
        preferredPrefix := element.name.space.bind table.prefixOf?
        text := readText element.text element.children
        children := element.children.map (reread table none) } := by
  rw [reread_eq, innerSpace_eq none h.unbound]
  unfold opened
  rw [innerSpace_eq none h.unbound, reread_name h.space, reread_attributes h]

/-- A text that is kept is read as it is. -/
theorem readText_of_keepsText (h : KeepsText element) :
    readText element.text element.children = element.text := by
  obtain ⟨hnonempty, hvisible⟩ := h
  unfold readText withoutLayout
  cases htext : element.text with
  | none => rfl
  | some text =>
    rw [htext] at hnonempty hvisible
    have hne : text ≠ "" := fun hempty => hnonempty (congrArg some hempty)
    rw [Option.getD_some, if_neg hne]
    by_cases hchildren : element.children = []
    · rw [hchildren]
      rfl
    · have hshown := hvisible hchildren text rfl
      rw [if_neg]
      intro hblank
      rw [Bool.and_eq_true] at hblank
      exact hshown hblank.2

/-- A list of trees stays the same under a change that keeps each of them the same. -/
theorem sameAll_map {elements : List Element} {f : Element → Element}
    (h : ∀ element ∈ elements, (f element).same element = true) :
    sameAll (elements.map f) elements = true := by
  induction elements with
  | nil => rfl
  | cons element rest ih =>
    rw [List.forall_mem_cons] at h
    rw [List.map_cons, sameAll, h.1, ih h.2]
    rfl

/-- A tree whose names and texts are kept is read as the same tree. -/
theorem same_reread (hnames : Everywhere KeepsNames element)
    (htexts : Everywhere KeepsText element) :
    (element.reread table none).same element = true := by
  induction hnames with
  | @intro element root _ ih =>
    have hchildren : sameAll (element.children.map (reread table none)) element.children = true :=
      sameAll_map fun child hchild => ih child hchild (htexts.children child hchild)
    have hattributes : element.attributes.agree element.attributes = true :=
      Entries.agree_self element.attributes.distinct beq_self_eq_true
    rw [reread_of_keepsNames root, readText_of_keepsText htexts.root, same, hchildren, hattributes,
      beq_self_eq_true, beq_self_eq_true]
    rfl

/-- Parsing undoes rendering.  A tree whose names can be written and are kept, and whose texts are
kept, is rendered, compact or, if text and children do not mix in it, with any indentation; and if
the document and the tree are within limits, it is parsed as the same tree. -/
theorem parse_render_same {options : RenderOptions} {root : Element}
    (hwritable : Everywhere (Writable IsFreeSpace) root) (hnames : Everywhere KeepsNames root)
    (htexts : Everywhere KeepsText root) (hdepth : root.depth ≤ options.maxDepth)
    (hlayout : options.indent = none ∨ Everywhere IsUnmixed root) :
    ∃ text, render options root = .ok text ∧
      (text.utf8ByteSize ≤ ({} : Limits).size → root.depth ≤ ({} : Limits).depth →
        Everywhere (fun element => element.attributes.size ≤ ({} : Limits).attributes) root →
          ∃ read, parse text = .ok read ∧ read.same root = true) := by
  have hrender : render options root =
      .ok (String.ofList ((documentTokens options root).flatMap Token.write)) := by
    unfold render RenderOptions.checkDepth
    rw [if_neg (by omega)]
  refine ⟨_, hrender, ?_⟩
  intro hsize hbelow hattributes
  refine ⟨root.reread root.prefixes none, ?_, same_reread hnames htexts⟩
  exact parse_render hwritable hlayout hattributes hbelow hsize hrender

/-- A condition holds everywhere in a tree of two levels if it holds of the root and of its
children. -/
theorem everywhere_shallow {p : Element → Prop} (hroot : p element)
    (hchildren : ∀ child ∈ element.children, p child ∧ child.children = []) :
    Everywhere p element := by
  refine .intro hroot ?_
  intro child hchild
  refine .intro (hchildren child hchild).1 ?_
  rw [(hchildren child hchild).2]
  intro grandchild hgrandchild
  cases hgrandchild

/-- An order with one item, whose texts have special characters. -/
def sampleOrder : Element where
  name := ⟨some "urn:shop", "order"⟩
  preferredPrefix := some "shop"
  attributes := .ofPairs [(Name.unqualified "note", "\"5 < 6\" & so on")]
  children := [{ name := ⟨some "urn:shop", "item"⟩, text := some " a > b " }]

/-- The order is read back from a document with indentation. -/
theorem parse_render_sampleOrder :
    ∃ text read, render { indent := some 2 } sampleOrder = .ok text ∧ parse text = .ok read ∧
      read.same sampleOrder = true := by
  have hspace : IsFreeSpace "urn:shop" := ⟨by decide, by
    unfold IsReservedSpace
    decide⟩
  have hplain : IsPlainSpace "urn:shop" := isPlainSpace_iff.2 (by decide)
  have hattributes : ∀ entry ∈ sampleOrder.attributes.entries, entry.1.space = none := by
    decide
  have hwritable : Everywhere (Writable IsFreeSpace) sampleOrder := by
    refine everywhere_shallow ⟨by decide, ?_, ?_, by decide, ?_⟩
      (List.forall_mem_singleton.2 ⟨⟨by decide, ?_, ?_, ?_, ?_⟩, rfl⟩)
    · rintro _ ⟨⟩
      exact Or.inr (by decide)
    · rintro _ ⟨⟩
      exact hspace
    · intro entry hentry uri huri
      rw [hattributes entry hentry] at huri
      cases huri
    · rintro _ ⟨⟩
    · rintro _ ⟨⟩
      exact hspace
    · rintro _ ⟨⟩
    · rintro _ ⟨⟩
  have hnames : Everywhere KeepsNames sampleOrder := by
    refine everywhere_shallow ⟨?_, ?_, by decide⟩
      (List.forall_mem_singleton.2 ⟨⟨?_, ?_, by decide⟩, rfl⟩)
    · rintro _ ⟨⟩
      exact hplain
    · intro entry hentry uri huri
      rw [hattributes entry hentry] at huri
      cases huri
    · rintro _ ⟨⟩
      exact hplain
    · rintro _ ⟨⟩
  have htexts : Everywhere KeepsText sampleOrder := by
    refine everywhere_shallow ⟨by decide, ?_⟩
      (List.forall_mem_singleton.2 ⟨⟨by decide, fun h => absurd rfl h⟩, rfl⟩)
    rintro _ _ ⟨⟩
  have hunmixed : Everywhere IsUnmixed sampleOrder :=
    everywhere_shallow (Or.inl rfl) (List.forall_mem_singleton.2 ⟨Or.inr rfl, rfl⟩)
  have hsizes : Everywhere (fun element => element.attributes.size ≤ ({} : Limits).attributes)
      sampleOrder :=
    everywhere_shallow (by decide) (List.forall_mem_singleton.2 ⟨by decide, rfl⟩)
  have hdepth : sampleOrder.depth = 2 := by
    rw [depth_eq_height]
    rfl
  have htext : render { indent := some 2 } sampleOrder = .ok ("<shop:order xmlns:shop=\"urn:shop\" "
      ++ "note=\"&quot;5 &lt; 6&quot; &amp; so on\">\n  <shop:item> a &gt; b </shop:item>\n"
      ++ "</shop:order>") := by
    unfold render
    rw [hdepth]
    decide +kernel
  have hdeep : sampleOrder.depth ≤ ({ indent := some 2 } : RenderOptions).maxDepth := by
    rw [hdepth]
    decide
  obtain ⟨text, hrender, hparse⟩ := parse_render_same hwritable hnames htexts hdeep
    (Or.inr hunmixed)
  have hsize : text.utf8ByteSize ≤ ({} : Limits).size := by
    rw [htext] at hrender
    rw [← Except.ok.inj hrender]
    decide +kernel
  have hbelow : sampleOrder.depth ≤ ({} : Limits).depth := by
    rw [hdepth]
    decide
  obtain ⟨read, hread, hsame⟩ := hparse hsize hbelow hsizes
  exact ⟨text, read, hrender, hread, hsame⟩

end Element

end TypedXml.Xml
