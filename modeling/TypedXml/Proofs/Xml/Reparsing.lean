import Mathlib.Data.Set.Finite.Lemmas
import TypedXml.Proofs.Xml.ParsedTrees
import TypedXml.Proofs.Xml.RoundTrip

/-!
# Parsing what was parsed and written

What parsing gives can be written, with a declaration on the root for every namespace, whether or
not the namespace can be declared, and with every name as it was read.  If the tags of the document
end where they were meant to, it is parsed as the same tree if and only if all namespaces of the
tree can be declared and stand in their declarations without references, and no element has an
empty text, which is written like no text.
-/

set_option autoImplicit false

namespace TypedXml.Xml

open PrefixTable

/-- A list does not hold elements of a sort that leads from each to a larger one in the list. -/
theorem not_of_growing {α : Type} {p : α → Prop} {next : α → α} {size : α → Nat} {l : List α}
    (h : ∀ a ∈ l, p a → next a ∈ l ∧ p (next a) ∧ size a < size (next a)) :
    ∀ a ∈ l, ¬ p a := by
  intro a ha hp
  have hfinite : {a | a ∈ l ∧ p a}.Finite := (List.finite_toSet l).subset fun b hb => hb.1
  obtain ⟨largest, ⟨hmem, hlargest⟩, hmax⟩ :=
    Set.exists_max_image {a | a ∈ l ∧ p a} size hfinite ⟨a, ha, hp⟩
  obtain ⟨hnext, hsort, hlarger⟩ := h largest hmem hlargest
  exact absurd hlarger (Nat.not_lt.2 (hmax (next largest) ⟨hnext, hsort⟩))

/-- Only a plain namespace is read as it is. -/
theorem isPlainSpace_of_readSpace {uri : String} (h : readSpace uri = uri) : IsPlainSpace uri := by
  unfold readSpace at h
  apply escape_eq_self.1
  rw [← String.toList_inj, String.toList_ofList] at h
  exact h

/-- A namespace with a special character in it grows when it is read from its declaration. -/
theorem length_readSpace {uri : String} (h : ¬ IsPlainSpace uri) :
    uri.length < (readSpace uri).length := by
  have hcount : 0 < uri.toList.countP isSpecial := by
    rw [List.countP_pos_iff]
    by_contra hnone
    exact h fun c hc => Bool.not_eq_true _ ▸ fun hspecial => hnone ⟨c, hc, hspecial⟩
  have hlength := length_escape uri.toList
  unfold readSpace
  rw [String.length_ofList, ← String.length_toList]
  omega

open Document in
/-- A text is read as the tree that its tokens build. -/
theorem parse_of_tokens {text : String} {root : Element} (toks : List Token)
    (hsize : text.utf8ByteSize ≤ ({} : Limits).size)
    (htokens : tokens text.toList = ⟨toks, none⟩) (hmark : withoutMark text.toList = text.toList)
    (hfold : toks.foldlM (step {}) Building.start = .ok ⟨[], some root⟩) :
    parse text = .ok root := by
  unfold parse Document.parse
  rw [bind_of_eq_ok (mapError_eq_ok.2 (Limits.checkSize_eq_ok.2 hsize)), hmark, htokens,
    bind_of_eq_ok hfold]
  rfl

namespace Element

variable {limits : Limits} {table : PrefixTable} {element : Element}

/-- A name is read in the namespace that its own is read as. -/
theorem space_reread (name : Name) : (name.reread none).space = name.space.map readSpace := by
  obtain ⟨space, localName⟩ := name
  cases space with
  | none => rfl
  | some uri => rfl

/-- Attributes that are read as they are have plain namespaces. -/
theorem plainSpaces_of_agree {attributes : Attributes}
    (hunbound : Name.unqualified "xmlns" ∉ Entries.keys attributes.entries)
    (h : attributes.reread.agree attributes = true) :
    ∀ entry ∈ attributes.entries, ∀ uri ∈ entry.1.space, IsPlainSpace uri := by
  -- the names as they are read are among the names, so that no name can become longer
  have hclosed : ∀ name ∈ Entries.keys attributes.entries,
      name.reread none ∈ Entries.keys attributes.entries := by
    intro name hname
    obtain ⟨entry, hentry, rfl⟩ := List.mem_map.1 hname
    have hread : (entry.1.reread none, entry.2) ∈ attributes.reread.entries := by
      rw [entries_reread hunbound]
      exact List.mem_map_of_mem hentry
    exact List.mem_map_of_mem (mem_of_lookup (Entries.lookup_of_agree h hread))
  have hnone : ∀ name ∈ Entries.keys attributes.entries,
      ¬ ∃ uri, name.space = some uri ∧ ¬ IsPlainSpace uri := by
    refine @not_of_growing _ _ (Name.reread none) (fun name => (name.space.getD "").length) _ ?_
    rintro ⟨space, localName⟩ hname ⟨uri, rfl, huri⟩
    refine ⟨hclosed _ hname, ⟨readSpace uri, rfl, ?_⟩, length_readSpace huri⟩
    intro hplain
    exact huri (isPlainSpace_of_readSpace (readSpace_injective (readSpace_eq_self hplain)))
  intro entry hentry uri huri
  by_contra hplain
  exact hnone entry.1 (List.mem_map_of_mem hentry) ⟨uri, huri, hplain⟩

/-- A parsed tree is read as the same tree only if its names and texts are kept. -/
theorem keeps_of_same_reread (hparsed : Everywhere (Parsed limits) element)
    (h : (element.reread table none).same element = true) :
    Everywhere (fun element => KeepsNames element ∧ KeepsText element) element := by
  induction hparsed with
  | @intro element root _ ih =>
    have hinner := innerSpace_eq none root.names.unbound
    rw [reread_eq, same_iff] at h
    unfold opened at h
    rw [hinner] at h
    obtain ⟨hname, hattributes, htext, hchildren⟩ := h
    refine .intro ⟨⟨?_, plainSpaces_of_agree root.names.unbound hattributes, root.names.unbound⟩,
      ?_, root.visible⟩ ?_
    · intro uri huri
      have hspace := congrArg Name.space hname
      rw [space_reread, huri] at hspace
      exact isPlainSpace_of_readSpace (Option.some.inj hspace)
    · intro hempty
      rw [hempty] at htext
      cases htext
    · intro child hchild
      rw [List.forall₂_map_left_iff, List.forall₂_same] at hchildren
      exact ih child hchild (hchildren child hchild)

/-- Whether a namespace can be declared, and is read as it is from its declaration. -/
def IsLastingSpace (uri : String) : Prop :=
  IsPlainSpace uri ∧ ¬ IsReservedSpace uri

/-- Whether an element that was parsed can be written and parsed again: its namespaces last, and
its text is not the empty one. -/
structure Lasts (element : Element) : Prop where
  space : ∀ uri ∈ element.name.space, IsLastingSpace uri
  attributeSpaces : ∀ entry ∈ element.attributes.entries, ∀ uri ∈ entry.1.space, IsLastingSpace uri
  text : element.text ≠ some ""

/-- Where everything lasts, the names of a parsed element are kept. -/
theorem Lasts.keepsNames (h : Lasts element) (hparsed : Parsed limits element) :
    KeepsNames element :=
  ⟨fun uri huri => (h.space uri huri).1,
    fun entry hentry uri huri => (h.attributeSpaces entry hentry uri huri).1, hparsed.names.unbound⟩

/-- Where everything lasts, the text of a parsed element is kept. -/
theorem Lasts.keepsText (h : Lasts element) (hparsed : Parsed limits element) :
    KeepsText element :=
  ⟨h.text, hparsed.visible⟩

/-- Names whose namespaces can be declared are legible with them. -/
theorem Legible.free (h : Legible (· ≠ "") element)
    (hspace : ∀ uri ∈ element.name.space, ¬ IsReservedSpace uri)
    (hspaces : ∀ entry ∈ element.attributes.entries, ∀ uri ∈ entry.1.space,
      ¬ IsReservedSpace uri) : Legible IsFreeSpace element :=
  ⟨⟨h.hint, fun uri huri => ⟨h.space uri huri, hspace uri huri⟩, fun entry hentry uri huri =>
      ⟨h.attributeSpaces entry hentry uri huri, hspaces entry hentry uri huri⟩⟩,
    h.unsplit, h.word, h.start, h.attributeNames⟩

variable {options : RenderOptions} {root : Element} {text : String}

/-- A parsed tree in which everything lasts is read as the same tree. -/
theorem exists_parse_of_lasts (hparsed : Everywhere (Parsed limits) root)
    (hdepth : root.depth ≤ limits.depth) (hwhole : IsWholeDocument root)
    (hlayout : options.indent = none ∨ Everywhere IsUnmixed root)
    (hsize : text.utf8ByteSize ≤ limits.size) (hrender : render options root = .ok text)
    (hlasts : Everywhere Lasts root) :
    ∃ read, Document.parse limits text = .ok read ∧ read.same root = true := by
  have hboth := hparsed.both hlasts
  have hlegible : Everywhere (Legible IsFreeSpace) root :=
    hboth.imp fun element h => h.1.names.toLegible.free (fun uri huri => (h.2.space uri huri).2)
      fun entry hentry uri huri => (h.2.attributeSpaces entry hentry uri huri).2
  have hsame : (root.reread root.prefixes none).same root = true :=
    same_reread (hboth.imp fun element h => h.2.keepsNames h.1)
      (hboth.imp fun element h => h.2.keepsText h.1)
  refine ⟨_, ?_, hsame⟩
  exact parse_render_of_legible hlegible hwhole hlayout (hparsed.imp fun element h => h.size) hdepth
    hsize hrender

/-- If a document that was written is parsed at all, the namespaces in it can be declared. -/
theorem legible_of_parse (hparsed : Everywhere (Parsed limits) root)
    (hwhole : IsWholeDocument root) (hlayout : options.indent = none ∨ Everywhere IsUnmixed root)
    (hrender : render options root = .ok text) {read : Element}
    (hread : Document.parse limits text = .ok read) : Everywhere (Legible IsFreeSpace) root := by
  have hlegible : Everywhere (Legible (· ≠ "")) root :=
    hparsed.imp fun element h => h.names.toLegible
  have hfree : ∀ {uri label : String}, root.prefixes.prefixOf? uri = some label →
      ¬ IsReservedSpace uri := by
    intro uri label hlabel hreserved
    exact parse_render_declared hlegible hwhole hlayout hlabel hreserved hrender read hread
  refine (hlegible.both (allBound_prefixes root)).imp fun element h => h.1.free ?_ ?_
  · intro uri huri
    obtain ⟨label, hlabel⟩ := Option.isSome_iff_exists.1 (h.2.name uri huri)
    exact hfree hlabel
  · intro entry hentry uri huri
    obtain ⟨label, hlabel⟩ := Option.isSome_iff_exists.1 (h.2.attributes entry hentry uri huri)
    exact hfree hlabel

/-- A parsed tree is read as the same tree only if everything in it lasts. -/
theorem lasts_of_parse (hparsed : Everywhere (Parsed limits) root)
    (hdepth : root.depth ≤ limits.depth) (hwhole : IsWholeDocument root)
    (hlayout : options.indent = none ∨ Everywhere IsUnmixed root)
    (hsize : text.utf8ByteSize ≤ limits.size) (hrender : render options root = .ok text)
    {read : Element} (hread : Document.parse limits text = .ok read)
    (hsame : read.same root = true) : Everywhere Lasts root := by
  have hlegible := legible_of_parse hparsed hwhole hlayout hrender hread
  have hreread := parse_render_of_legible hlegible hwhole hlayout
    (hparsed.imp fun element h => h.size) hdepth hsize hrender
  rw [hread, Except.ok.injEq] at hreread
  rw [hreread] at hsame
  refine (hlegible.both (keeps_of_same_reread hparsed hsame)).imp fun element h => ⟨?_, ?_, ?_⟩
  · exact fun uri huri => ⟨h.2.1.space uri huri, (h.1.space uri huri).unreserved⟩
  · exact fun entry hentry uri huri => ⟨h.2.1.attributeSpaces entry hentry uri huri,
      (h.1.attributeSpaces entry hentry uri huri).unreserved⟩
  · exact h.2.2.nonempty

/-- A tree that is not too deep is written token by token. -/
theorem render_of_height (h : root.height ≤ options.maxDepth)
    (htext : (documentTokens options root).flatMap Token.write = text.toList) :
    render options root = .ok text := by
  rw [render_eq_ok, depth_eq_height, htext, String.ofList_toList]
  exact ⟨h, rfl⟩

/-- What was parsed can be written, and if its tags are whole, what is written is parsed as the
same tree if and only if everything in the tree lasts. -/
theorem parse_render_iff_lasts (h : parse text = .ok root) :
    ∃ written, render {} root = .ok written ∧
      (IsWholeDocument root → written.utf8ByteSize ≤ ({} : Limits).size →
        ((∃ read, parse written = .ok read ∧ read.same root = true) ↔ Everywhere Lasts root)) := by
  obtain ⟨hparsed, hdepth⟩ := parsed_of_parse h
  have hrender : render {} root =
      .ok (String.ofList ((documentTokens {} root).flatMap Token.write)) :=
    render_of_height (depth_eq_height root ▸ hdepth) String.toList_ofList.symm
  refine ⟨_, hrender, fun hwhole hsize => ⟨?_, ?_⟩⟩
  · rintro ⟨read, hread, hsame⟩
    exact lasts_of_parse hparsed hdepth hwhole (Or.inl rfl) hsize hrender hread hsame
  · exact exists_parse_of_lasts hparsed hdepth hwhole (Or.inl rfl) hsize hrender

/-! ## Memos -/

/-- A memo with text around its child. -/
def memo : Element where
  name := ⟨some "urn:memo", "memo"⟩
  preferredPrefix := some "m"
  attributes := .ofPairs [(⟨some "urn:memo", "to"⟩, "all")]
  text := some " done"
  children := [{ name := .unqualified "mark" }]

/-- The text that the memo is read from, token by token. -/
def memoTokens : List Token :=
  [.opening "m:memo xmlns:m=\"urn:memo\" m:to=\"all\"".toList, .text [' '], .empty "mark".toList,
    .text "done".toList, .closing "m:memo".toList]

/-- The memo is what its text is parsed as. -/
theorem parse_memo :
    parse "<m:memo xmlns:m=\"urn:memo\" m:to=\"all\"> <mark/>done</m:memo>" = .ok memo := by
  have hopening : IsTagStart "m:memo xmlns:m=\"urn:memo\" m:to=\"all\"".toList := by
    rintro _ ⟨⟩
    decide
  have hmark : IsTagStart "mark".toList := isTagStart_of_isNCNameChars (by decide)
  have hlexable : Lexable true memoTokens :=
    ⟨.opening (Token.isTagText_iff.2 (by decide)) hopening (by decide), nofun,
      .text (by decide) (by decide), fun _ => rfl,
      .empty (Token.isTagText_iff.2 (by decide)) hmark (by decide), nofun,
      .text (by decide) (by decide), fun _ => rfl, .closing (by decide), nofun, trivial⟩
  exact parse_of_tokens memoTokens (by decide +kernel) (tokens_flatMap_write hlexable) rfl rfl

/-- The memo is parsed again from the document that it is written as. -/
theorem parse_render_memo :
    ∃ written read, render {} memo = .ok written ∧ parse written = .ok read ∧
      read.same memo = true := by
  obtain ⟨written, hrender, hiff⟩ := parse_render_iff_lasts parse_memo
  have hspace : IsLastingSpace "urn:memo" := ⟨isPlainSpace_iff.2 (by decide), by
    unfold IsReservedSpace
    decide⟩
  have hunquoted : Everywhere Unquoted memo := by
    refine everywhere_shallow
      ⟨isUnquoted_of_isNCNameChars (by decide), by decide, by decide, ?_, ?_⟩
      (List.forall_mem_singleton.2 ⟨⟨isUnquoted_of_isNCNameChars (by decide), by decide, by decide,
        nofun, nofun⟩, rfl⟩)
    · rintro _ ⟨⟩
      exact isUnquoted_of_isNCNameChars (by decide)
    · exact List.forall_mem_singleton.2 (isUnquoted_of_isNCNameChars (by decide))
  have hlasts : Everywhere Lasts memo := by
    refine everywhere_shallow ⟨?_, ?_, by decide⟩
      (List.forall_mem_singleton.2 ⟨⟨nofun, nofun, by decide⟩, rfl⟩)
    · rintro _ ⟨⟩
      exact hspace
    · refine List.forall_mem_singleton.2 ?_
      rintro _ ⟨⟩
      exact hspace
  have hsize : written.utf8ByteSize ≤ ({} : Limits).size := by
    have htext : render {} memo =
        .ok "<m:memo xmlns:m=\"urn:memo\" m:to=\"all\"> done<mark/></m:memo>" :=
      render_of_height (by decide) (by decide +kernel)
    rw [hrender, Except.ok.injEq] at htext
    rw [htext]
    decide +kernel
  obtain ⟨read, hread, hsame⟩ := (hiff (isWholeDocument_of_unquoted hunquoted) hsize).2 hlasts
  exact ⟨written, read, hrender, hread, hsame⟩

/-- The law that what is parsed from a text can be written and is parsed again as the same tree. -/
def ReadsAgain (text : String) : Prop :=
  ∀ root, parse text = .ok root → ∃ written, render {} root = .ok written ∧
    (written.utf8ByteSize ≤ ({} : Limits).size →
      ∃ read, parse written = .ok read ∧ read.same root = true)

/-- A tree that is parsed from what it is written as, but as another one, goes against the law. -/
theorem not_readsAgain {written : String} (hparse : parse text = .ok root)
    (hrender : render {} root = .ok written) (hsize : written.utf8ByteSize ≤ ({} : Limits).size)
    (hother : ∀ read, parse written = .ok read → ¬ read.same root = true) : ¬ ReadsAgain text := by
  intro hagain
  obtain ⟨found, hfound, hread⟩ := hagain root hparse
  rw [hrender, Except.ok.injEq] at hfound
  rw [← hfound] at hread
  obtain ⟨read, hread, hsame⟩ := hread hsize
  exact hother read hread hsame

/-- A tree without quotes in its names in which something does not last goes against the law. -/
theorem not_readsAgain_of_not_lasts {written : String} (hparse : parse text = .ok root)
    (hrender : render {} root = .ok written) (hsize : written.utf8ByteSize ≤ ({} : Limits).size)
    (hunquoted : Everywhere Unquoted root) (hlasts : ¬ Lasts root) : ¬ ReadsAgain text := by
  refine not_readsAgain hparse hrender hsize fun read hread hsame => hlasts ?_
  obtain ⟨hparsed, hdepth⟩ := parsed_of_parse hparse
  exact (lasts_of_parse hparsed hdepth (isWholeDocument_of_unquoted hunquoted) (Or.inl rfl) hsize
    hrender hread hsame).root

/-- A namespace with a reference in it gets another reference. -/
theorem not_readsAgain_reference : ¬ ReadsAgain "<m:memo xmlns:m=\"urn:a&amp;b\"/>" := by
  have hnext : Token.next "<m:memo xmlns:m=\"urn:a&amp;b\"/>".toList =
      .ok (some (.empty "m:memo xmlns:m=\"urn:a&amp;b\"".toList, [])) := rfl
  have hparse : parse "<m:memo xmlns:m=\"urn:a&amp;b\"/>" =
      .ok { name := ⟨some "urn:a&amp;b", "memo"⟩, preferredPrefix := some "m" } :=
    parse_of_tokens [.empty "m:memo xmlns:m=\"urn:a&amp;b\"".toList] (by decide +kernel)
      (by rw [tokens_of_next hnext, tokens_nil]) rfl rfl
  have hrender : render {} { name := ⟨some "urn:a&amp;b", "memo"⟩, preferredPrefix := some "m" } =
      .ok "<m:memo xmlns:m=\"urn:a&amp;amp;b\"/>" :=
    render_of_height (by decide) (by decide +kernel)
  refine not_readsAgain_of_not_lasts hparse hrender (by decide +kernel) ?_ ?_
  · refine everywhere_shallow ⟨isUnquoted_of_isNCNameChars (by decide), by decide, by decide, ?_,
      nofun⟩ nofun
    rintro _ ⟨⟩
    exact isUnquoted_of_isNCNameChars (by decide)
  · intro hlasts
    have hspecial := (hlasts.space _ rfl).1 '&' (by decide)
    cases hspecial

/-- The namespace of `xml` gets a prefix that it cannot have. -/
theorem not_readsAgain_reserved : ¬ ReadsAgain "<memo xml:lang=\"en\"/>" := by
  have hnext : Token.next "<memo xml:lang=\"en\"/>".toList =
      .ok (some (.empty "memo xml:lang=\"en\"".toList, [])) := rfl
  have hparse : parse "<memo xml:lang=\"en\"/>" =
      .ok { name := .unqualified "memo"
            attributes := .ofPairs [(⟨some (String.ofList xmlUri), "lang"⟩, "en")] } :=
    parse_of_tokens [.empty "memo xml:lang=\"en\"".toList] (by decide +kernel)
      (by rw [tokens_of_next hnext, tokens_nil]) rfl rfl
  have hrender : render {}
        { name := .unqualified "memo"
          attributes := .ofPairs [(⟨some (String.ofList xmlUri), "lang"⟩, "en")] } =
      .ok "<memo xmlns:ns0=\"http://www.w3.org/XML/1998/namespace\" ns0:lang=\"en\"/>" :=
    render_of_height (by decide) (by decide +kernel)
  refine not_readsAgain_of_not_lasts hparse hrender (by decide +kernel) ?_ ?_
  · exact everywhere_shallow ⟨isUnquoted_of_isNCNameChars (by decide), by decide, by decide, nofun,
      List.forall_mem_singleton.2 (isUnquoted_of_isNCNameChars (by decide))⟩ nofun
  · intro hlasts
    exact ((List.forall_mem_singleton.1 hlasts.attributeSpaces) _ rfl).2
      (Or.inl String.toList_ofList)

/-- An empty text is written like no text. -/
theorem not_readsAgain_emptyText : ¬ ReadsAgain "<memo><![CDATA[]]></memo>" := by
  have hopening : Token.next "<memo><![CDATA[]]></memo>".toList =
      .ok (some (.opening "memo".toList, "<![CDATA[]]></memo>".toList)) := rfl
  have hcdata : Token.next "<![CDATA[]]></memo>".toList =
      .ok (some (.cdata [], "</memo>".toList)) := rfl
  have hclosing : Token.next "</memo>".toList = .ok (some (.closing "memo".toList, [])) := rfl
  have hparse : parse "<memo><![CDATA[]]></memo>" =
      .ok { name := .unqualified "memo", text := some "" } :=
    parse_of_tokens [.opening "memo".toList, .cdata [], .closing "memo".toList] (by decide +kernel)
      (by rw [tokens_of_next hopening, tokens_of_next hcdata, tokens_of_next hclosing, tokens_nil])
      rfl rfl
  have hrender : render {} { name := .unqualified "memo", text := some "" } = .ok "<memo/>" :=
    render_of_height (by decide) (by decide +kernel)
  refine not_readsAgain_of_not_lasts hparse hrender (by decide +kernel) ?_
    fun hlasts => hlasts.text rfl
  exact everywhere_shallow ⟨isUnquoted_of_isNCNameChars (by decide), by decide, by decide, nofun,
    nofun⟩ nofun

/-- A slash at the end of a name ends the tag that is written. -/
theorem not_readsAgain_slash : ¬ ReadsAgain "<memo/ >done</memo/>" := by
  have hopening : Token.next "<memo/ >done</memo/>".toList =
      .ok (some (.opening "memo/ ".toList, "done</memo/>".toList)) := rfl
  have htext : Token.next "done</memo/>".toList =
      .ok (some (.text "done".toList, "</memo/>".toList)) := rfl
  have hclosing : Token.next "</memo/>".toList = .ok (some (.closing "memo/".toList, [])) := rfl
  have hparse : parse "<memo/ >done</memo/>" =
      .ok { name := .unqualified "memo/", text := some "done" } :=
    parse_of_tokens [.opening "memo/ ".toList, .text "done".toList, .closing "memo/".toList]
      (by decide +kernel)
      (by rw [tokens_of_next hopening, tokens_of_next htext, tokens_of_next hclosing, tokens_nil])
      rfl rfl
  have hrender : render {} { name := .unqualified "memo/", text := some "done" } =
      .ok "<memo/>done</memo/>" :=
    render_of_height (by decide) (by decide +kernel)
  have hempty : Token.next "<memo/>done</memo/>".toList =
      .ok (some (.empty "memo".toList, "done</memo/>".toList)) := rfl
  refine not_readsAgain hparse hrender (by decide +kernel) fun read hread => ?_
  unfold parse Document.parse at hread
  obtain ⟨_, hread⟩ := check_bind_eq_ok.1 hread
  have hmark : Document.withoutMark "<memo/>done</memo/>".toList = "<memo/>done</memo/>".toList :=
    rfl
  rw [hmark, tokens_of_next hempty, tokens_of_next htext, tokens_of_next hclosing, tokens_nil]
    at hread
  cases hread

/-- A namespace with a reference in it, an attribute in the namespace of `xml`, an empty text and a
name with a slash at its end are each parsed, but not parsed again as the same. -/
theorem not_readsAgain_memos :
    ¬ ReadsAgain "<m:memo xmlns:m=\"urn:a&amp;b\"/>" ∧ ¬ ReadsAgain "<memo xml:lang=\"en\"/>" ∧
      ¬ ReadsAgain "<memo><![CDATA[]]></memo>" ∧ ¬ ReadsAgain "<memo/ >done</memo/>" :=
  ⟨not_readsAgain_reference, not_readsAgain_reserved, not_readsAgain_emptyText,
    not_readsAgain_slash⟩

end Element

end TypedXml.Xml
