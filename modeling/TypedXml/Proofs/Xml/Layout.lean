import TypedXml.Proofs.Xml.StartTags
import TypedXml.Proofs.Xml.Tokens

/-!
# The tokens of a tree with its layout

Compact and indented documents differ in the gaps in front of their tags: there is none, or a line
break and the indentation of the level.  With the gaps as a parameter one recursion along the tree
gives the tokens of both.  A gap never stands beside text, since indentation is for trees in which
text and children do not mix.
-/

set_option autoImplicit false

namespace TypedXml.Xml

open Element PrefixTable

namespace Element

mutual

/-- The tokens of a tree with the gaps of a level in front of its tags, apart from the first. -/
def laidTokens (gap : Nat → List Token) (table : PrefixTable) (level : Nat)
    (extra : List (List Char × List Char)) : Element → List Token
  | ⟨name, _, attributes, text, children⟩ =>
    let written := writtenName table name
    let tag := Tag.write written (extra ++ writtenAttributes table attributes)
    let run := (text.getD "").toList
    if run.isEmpty && children.isEmpty then [.empty tag]
    else
      .opening tag :: (if run.isEmpty then [] else [.text (escape run)]) ++
        laidAll gap table (level + 1) children ++
        (if children.isEmpty then [] else gap level) ++ [.closing written]

/-- The tokens of a list of trees, each behind a gap. -/
def laidAll (gap : Nat → List Token) (table : PrefixTable) (level : Nat) :
    List Element → List Token
  | [] => []
  | element :: rest =>
    gap level ++ laidTokens gap table level [] element ++ laidAll gap table level rest

end

/-- Whether an element does not hold text and children at once. -/
def IsUnmixed (element : Element) : Prop :=
  element.textOrEmpty = "" ∨ element.children = []

/-- The start tag of an element. -/
def startTag (table : PrefixTable) (extra : List (List Char × List Char)) (element : Element) :
    List Char :=
  Tag.write (writtenName table element.name) (tagEntries table extra element)

variable {gap : Nat → List Token} {table : PrefixTable} {level : Nat}
  {extra : List (List Char × List Char)} {element : Element}

/-- An element without text and children. -/
theorem laidTokens_of_empty (htext : element.textOrEmpty = "") (hchildren : element.children = []) :
    laidTokens gap table level extra element = [.empty (element.startTag table extra)] := by
  obtain ⟨name, preferred, attributes, text, children⟩ := element
  simp only at hchildren
  subst hchildren
  unfold textOrEmpty at htext
  unfold laidTokens
  simp only [htext]
  rfl

/-- An element with text alone. -/
theorem laidTokens_of_text (htext : element.textOrEmpty ≠ "") (hchildren : element.children = []) :
    laidTokens gap table level extra element =
      [.opening (element.startTag table extra), .text (escape element.textOrEmpty.toList),
        .closing (writtenName table element.name)] := by
  obtain ⟨name, preferred, attributes, text, children⟩ := element
  simp only at hchildren
  subst hchildren
  unfold textOrEmpty at htext
  have hrun : (text.getD "").toList.isEmpty = false := by
    rw [List.isEmpty_eq_false_iff]
    exact mt String.toList_eq_nil_iff.1 htext
  unfold laidTokens
  simp only [hrun]
  rfl

/-- An element with children and no text. -/
theorem laidTokens_of_children (htext : element.textOrEmpty = "")
    (hchildren : element.children ≠ []) :
    laidTokens gap table level extra element =
      .opening (element.startTag table extra) ::
        (laidAll gap table (level + 1) element.children ++
          (gap level ++ [.closing (writtenName table element.name)])) := by
  obtain ⟨name, preferred, attributes, text, children⟩ := element
  have hnonempty : children.isEmpty = false := List.isEmpty_eq_false_iff.2 hchildren
  unfold textOrEmpty at htext
  have hrun : (text.getD "").toList.isEmpty = true := by
    simp only at htext
    rw [htext]
    rfl
  unfold laidTokens
  simp only [hrun, hnonempty]
  simp [startTag, tagEntries]

/-- An element with text and children. -/
theorem laidTokens_of_mixed (htext : element.textOrEmpty ≠ "")
    (hchildren : element.children ≠ []) :
    laidTokens gap table level extra element =
      .opening (element.startTag table extra) :: .text (escape element.textOrEmpty.toList) ::
        (laidAll gap table (level + 1) element.children ++
          (gap level ++ [.closing (writtenName table element.name)])) := by
  obtain ⟨name, preferred, attributes, text, children⟩ := element
  have hnonempty : children.isEmpty = false := List.isEmpty_eq_false_iff.2 hchildren
  unfold textOrEmpty at htext
  have hrun : (text.getD "").toList.isEmpty = false := by
    rw [List.isEmpty_eq_false_iff]
    exact mt String.toList_eq_nil_iff.1 htext
  unfold laidTokens
  simp only [hrun, hnonempty]
  simp [startTag, tagEntries, textOrEmpty]

/-! ## Compact and indented documents -/

/-- Compact documents have no gaps. -/
def noGap (_ : Nat) : List Token := []

/-- Indented documents have a line break and the indentation in each gap. -/
def lineGap (width level : Nat) : List Token := [lineBreak width level]

mutual

/-- The tokens of a tree are those without gaps, at any level. -/
theorem tokens_eq_laidTokens (table : PrefixTable) : (element : Element) → (level : Nat) →
    (extra : List (List Char × List Char)) →
      tokens table extra element = laidTokens noGap table level extra element
  | ⟨name, preferred, attributes, text, children⟩, level, extra => by
    unfold tokens laidTokens
    rw [tokensAll_eq_laidAll table children (level + 1)]
    simp [noGap]

/-- The same for a list of trees. -/
theorem tokensAll_eq_laidAll (table : PrefixTable) : (elements : List Element) →
    (level : Nat) → tokensAll table elements = laidAll noGap table level elements
  | [], level => rfl
  | element :: rest, level => by
    unfold tokensAll laidAll
    rw [tokens_eq_laidTokens table element level [], tokensAll_eq_laidAll table rest level]
    rfl

end

/-- What indentation makes of the tokens of a tree in front of others. -/
def Indents (width : Nat) (table : PrefixTable) (element : Element) : Prop :=
  ∀ level inner after extra rest,
    indentFrom width level after (laidTokens noGap table inner extra element ++ rest) =
      (if after then lineGap width level else []) ++
        laidTokens (lineGap width) table level extra element ++ indentFrom width level true rest

/-- Indentation fills the gaps of children if it does so for each of them. -/
theorem indentFrom_laidAll {width inner : Nat} {children : List Element}
    (h : ∀ child ∈ children, Indents width table child) (rest : List Token) :
    indentFrom width level true (laidAll noGap table inner children ++ rest) =
      laidAll (lineGap width) table level children ++ indentFrom width level true rest := by
  induction children with
  | nil => rfl
  | cons child children ih =>
    rw [List.forall_mem_cons] at h
    unfold laidAll
    rw [noGap, List.nil_append, List.append_assoc, h.1, ih h.2, if_pos rfl]
    simp only [List.append_assoc]

/-- Indentation fills the gaps of a tree in which text and children do not mix. -/
theorem indents_of_unmixed {width : Nat} (h : Everywhere IsUnmixed element) :
    Indents width table element := by
  induction h with
  | @intro element root _ ih =>
    intro level inner after extra rest
    by_cases htext : element.textOrEmpty = ""
    · by_cases hchildren : element.children = []
      · rw [laidTokens_of_empty htext hchildren, laidTokens_of_empty htext hchildren]
        cases after with
        | false => rfl
        | true => rfl
      · have hinner : indentFrom width (level + 1) true
            (laidAll noGap table (inner + 1) element.children ++
              .closing (writtenName table element.name) :: rest) =
            laidAll (lineGap width) table (level + 1) element.children ++
              (lineGap width level ++ .closing (writtenName table element.name) ::
                indentFrom width level true rest) := indentFrom_laidAll ih _
        rw [laidTokens_of_children htext hchildren, laidTokens_of_children htext hchildren]
        simp only [List.cons_append, List.append_assoc, List.nil_append, noGap]
        cases after with
        | false =>
          show _ :: indentFrom width (level + 1) true _ = _
          rw [hinner]
          rfl
        | true =>
          show _ :: _ :: indentFrom width (level + 1) true _ = _
          rw [hinner]
          rfl
    · have hchildren : element.children = [] := root.resolve_left htext
      rw [laidTokens_of_text htext hchildren, laidTokens_of_text htext hchildren]
      cases after with
      | false => rfl
      | true => rfl

/-! ## Tokens that are read as they are written -/

/-- A gap is a run of blank characters, if there is one. -/
def IsGap (gap : Nat → List Token) : Prop :=
  ∀ level, gap level = [] ∨ ∃ run, gap level = [.text run] ∧ run ≠ [] ∧
    ∀ c ∈ run, isSpecial c = false ∧ Text.isBlank c = true

/-- A gap may be empty. -/
theorem isGap_noGap : IsGap noGap :=
  fun _ => Or.inl rfl

/-- A line break and spaces are a gap. -/
theorem isGap_lineGap (width : Nat) : IsGap (lineGap width) := by
  intro level
  refine Or.inr ⟨_, rfl, List.cons_ne_nil _ _, ?_⟩
  intro c hc
  rcases List.mem_cons.1 hc with rfl | hspace
  · decide
  · rw [(List.mem_replicate.1 hspace).2]
    decide

/-- Gaps are for trees in which text and children do not mix. -/
def Suits (gap : Nat → List Token) (element : Element) : Prop :=
  (∀ level, gap level = []) ∨ Everywhere IsUnmixed element

/-- Gaps that are for a tree are for the trees below it. -/
theorem Suits.children (h : Suits gap element) : ∀ child ∈ element.children, Suits gap child := by
  intro child hchild
  rcases h with hgap | hunmixed
  · exact Or.inl hgap
  · exact Or.inr (hunmixed.children child hchild)

/-- In a tree where text and children mix no gap has anything in it. -/
theorem Suits.no_gap (h : Suits gap element) (htext : element.textOrEmpty ≠ "")
    (hchildren : element.children ≠ []) : ∀ level, gap level = [] := by
  rcases h with hgap | hunmixed
  · exact hgap
  · rcases hunmixed.root with hempty | hnone
    · exact absurd hempty htext
    · exact absurd hnone hchildren

/-- A gap in front of tokens is read as it is written, where no text stands before it. -/
theorem lexable_gap (hgap : IsGap gap) {after : Bool}
    (hafter : after = true → ∀ level, gap level = []) {toks : List Token}
    (h : ∀ after, Lexable after toks) : Lexable after (gap level ++ toks) := by
  rcases hgap level with hnone | ⟨run, hrun, hne, hchars⟩
  · rw [hnone]
    exact h after
  · have hplain : '<' ∉ run := by
      intro hmem
      have hspecial := (hchars '<' hmem).1
      cases hspecial
    rw [hrun]
    refine ⟨.text hne hplain, ?_, h true⟩
    intro _
    by_contra hfollows
    rw [Bool.not_eq_false] at hfollows
    rw [hafter hfollows level] at hrun
    cases hrun

/-- Whether the tags of an element end where they were meant to: quotes pair up in the start tag
and no `>` stands outside of them, and neither is the start tag taken for an empty one or for an end
tag, nor does a `>` cut the end tag short. -/
structure HasWholeTags (table : PrefixTable) (extra : List (List Char × List Char))
    (element : Element) : Prop where
  start : Token.IsTagText (element.startTag table extra)
  empty : element.isEmpty = true → element.startTag table extra ≠ []
  opening : element.isEmpty = false → (element.startTag table extra).getLast? ≠ some '/'
  closing : element.isEmpty = false → '>' ∉ writtenName table element.name

/-- An element without text and children is empty. -/
theorem isEmpty_eq_true (htext : element.textOrEmpty = "") (hchildren : element.children = []) :
    element.isEmpty = true := by
  rw [isEmpty, htext, hchildren]
  rfl

/-- An element with text or children is not empty. -/
theorem isEmpty_eq_false (h : element.textOrEmpty ≠ "" ∨ element.children ≠ []) :
    element.isEmpty = false := by
  rw [isEmpty, Bool.and_eq_false_iff, List.isEmpty_eq_false_iff, ← Bool.not_eq_true,
    String.isEmpty_iff]
  exact h

/-- Whether the tokens of a tree with whole tags are read as they are written, whatever stands
around them. -/
def Delimited (gap : Nat → List Token) (table : PrefixTable) (element : Element) : Prop :=
  ∀ level after extra rest, HasWholeTags table extra element → Lexable false rest →
    Lexable after (laidTokens gap table level extra element ++ rest)

/-- The tokens of children, each behind a gap, are read as they are written. -/
theorem lexable_laidAll (hgap : IsGap gap) {children : List Element}
    (h : ∀ child ∈ children, Delimited gap table child ∧ HasWholeTags table [] child)
    {after : Bool} (hafter : after = true → ∀ level, gap level = []) {rest : List Token}
    (hrest : Lexable after rest) :
    Lexable after (laidAll gap table level children ++ rest) := by
  induction children generalizing after with
  | nil => exact hrest
  | cons child children ih =>
    rw [List.forall_mem_cons] at h
    have hlater := ih h.2 (by simp) hrest.mono
    unfold laidAll
    rw [List.append_assoc, List.append_assoc]
    refine lexable_gap hgap hafter ?_
    intro follows
    exact h.1.1 level follows [] _ h.1.2 hlater

/-- The start tag of an element whose name is legible begins like a tag. -/
theorem isTagStart_startTag {good : String → Prop} (hsound : Sound IsLooseLabel good table)
    (hlegible : Legible good element) (hbound : AllBound table element) :
    IsTagStart (element.startTag table extra) := by
  have hname := isTagStart_writtenName hsound hlegible.start hbound.name
  rw [startTag, Tag.write_eq]
  by_cases hnil : writtenName table element.name = []
  · -- without a name the tag begins with the blank in front of an attribute
    rw [hnil, List.nil_append]
    cases tagEntries table extra element with
    | nil => rintro c ⟨⟩
    | cons entry others =>
      rintro c ⟨⟩
      decide
  · exact isTagStart_append hname hnil

/-- The tokens of a tree whose tags are whole are read as they are written. -/
theorem delimited_of_legible {good : String → Prop} (hgap : IsGap gap)
    (hsound : Sound IsLooseLabel good table)
    (h : Everywhere (fun element => Legible good element ∧ AllBound table element) element)
    (hwhole : ∀ child ∈ element.children, Everywhere (HasWholeTags table []) child)
    (hsuits : Suits gap element) : Delimited gap table element := by
  induction h with
  | @intro element root _ ih =>
    intro level after extra rest htags hrest
    have hstart : IsTagStart (element.startTag table extra) :=
      isTagStart_startTag hsound root.1 root.2
    have hchildren : ∀ child ∈ element.children,
        Delimited gap table child ∧ HasWholeTags table [] child :=
      fun child hchild => ⟨ih child hchild (hwhole child hchild).children
        (hsuits.children child hchild), (hwhole child hchild).root⟩
    have hplain : '<' ∉ escape element.textOrEmpty.toList :=
      not_mem_escape (by decide) (by decide)
    by_cases hempty : element.textOrEmpty = "" ∧ element.children = []
    · rw [laidTokens_of_empty hempty.1 hempty.2]
      exact ⟨.empty htags.start hstart (htags.empty (isEmpty_eq_true hempty.1 hempty.2)),
        by simp [Token.isText], hrest⟩
    · have hfilled : element.isEmpty = false := isEmpty_eq_false (not_and_or.1 hempty)
      have hopening : Token.Readable (.opening (element.startTag table extra)) :=
        .opening htags.start hstart (htags.opening hfilled)
      have hclosing : ∀ after, Lexable after
          (.closing (writtenName table element.name) :: rest) :=
        fun after => ⟨.closing (htags.closing hfilled), by simp [Token.isText], hrest⟩
      by_cases htext : element.textOrEmpty = ""
      · have hnone : element.children ≠ [] := fun hnone => hempty ⟨htext, hnone⟩
        have hbehind : Lexable false (gap level ++
            .closing (writtenName table element.name) :: rest) :=
          lexable_gap hgap (by simp) hclosing
        have hinside : Lexable false (laidAll gap table (level + 1) element.children ++
            (gap level ++ .closing (writtenName table element.name) :: rest)) :=
          lexable_laidAll hgap hchildren (by simp) hbehind
        rw [laidTokens_of_children htext hnone]
        simp only [List.cons_append, List.append_assoc, List.nil_append]
        exact ⟨hopening, by simp [Token.isText], hinside⟩
      · by_cases hnone : element.children = []
        · rw [laidTokens_of_text htext hnone]
          exact ⟨hopening, by simp [Token.isText], .text (escape_ne_nil htext) hplain,
            by simp [Token.isText], hclosing true⟩
        · have hquiet := hsuits.no_gap htext hnone
          have hbehind : Lexable true (gap level ++
              .closing (writtenName table element.name) :: rest) := by
            rw [hquiet level]
            exact hclosing true
          rw [laidTokens_of_mixed htext hnone]
          simp only [List.cons_append, List.append_assoc, List.nil_append]
          exact ⟨hopening, by simp [Token.isText], .text (escape_ne_nil htext) hplain,
            by simp [Token.isText], lexable_laidAll hgap hchildren (fun _ => hquiet) hbehind⟩

/-- Whether all tags of a document end where they were meant to; the declarations stand in the tag
of the root. -/
structure IsWholeDocument (root : Element) : Prop where
  top : HasWholeTags root.prefixes (declarations root.prefixes) root
  below : ∀ child ∈ root.children, Everywhere (HasWholeTags root.prefixes []) child

/-! ## Trees without quotes in their names -/

/-- Whether there are no quotes and no `>` in the names of an element, nor in its prefix, and a
slash at the end of its name is not taken for the end of its tag. -/
structure Unquoted (element : Element) : Prop where
  name : IsUnquoted element.name.localName.toList
  nonempty : element.name.localName ≠ ""
  unslashed : element.name.localName.toList.getLast? ≠ some '/'
  hint : ∀ label ∈ element.preferredPrefix, IsUnquoted label.toList
  attributeNames : ∀ entry ∈ element.attributes.entries, IsUnquoted entry.1.localName.toList

/-- An element whose names can be written has no quotes in them. -/
theorem Writable.unquoted {good : String → Prop} (h : Writable good element) :
    Unquoted element where
  name := isUnquoted_of_isNCNameChars h.name
  nonempty := mt String.toList_eq_nil_iff.2 (ne_nil_of_isNCNameChars h.name)
  unslashed hlast := not_mem_of_isNCNameChars h.name (by decide) (List.mem_of_getLast? hlast)
  hint label hlabel := by
    rcases h.hint label hlabel with rfl | hname
    · nofun
    · exact isUnquoted_of_isNCNameChars hname
  attributeNames entry hentry := isUnquoted_of_isNCNameChars (h.attributeNames entry hentry)

/-- Whether a label neither begins nor ends a quoted value, nor ends a tag. -/
def IsUnquotedLabel (label : String) : Prop :=
  IsUnquoted label.toList

/-- A written name is its local name, perhaps behind a prefix. -/
theorem writtenName_cases (hsound : Sound IsUnquotedLabel (fun _ => True) table) (name : Name) :
    ∃ before, IsUnquoted before ∧ writtenName table name = before ++ name.localName.toList := by
  unfold writtenName
  split
  · next label hlabel =>
    obtain ⟨uri, _, hfront⟩ := Option.bind_eq_some_iff.1 hlabel
    have hunquoted := (hsound.labels _ (mem_of_prefixOf? hfront)).name
    refine ⟨label.toList ++ [':'], isUnquoted_append.2 ⟨hunquoted, ?_⟩, by simp⟩
    exact List.forall_mem_singleton.2 (by decide)
  · exact ⟨[], nofun, rfl⟩

/-- A name without quotes has none when it is written, if the prefixes have none. -/
theorem isUnquoted_writtenName (hsound : Sound IsUnquotedLabel (fun _ => True) table) {name : Name}
    (h : IsUnquoted name.localName.toList) : IsUnquoted (writtenName table name) := by
  obtain ⟨before, hbefore, hwritten⟩ := writtenName_cases hsound name
  rw [hwritten]
  exact isUnquoted_append.2 ⟨hbefore, h⟩

/-- The tags of an element without quotes in its names end where they were meant to. -/
theorem hasWholeTags_of_unquoted (hsound : Sound IsUnquotedLabel (fun _ => True) table)
    (h : Unquoted element) (hextra : ∀ entry ∈ extra, IsUnquoted entry.1) :
    HasWholeTags table extra element := by
  have hname := isUnquoted_writtenName hsound h.name
  have hkeys : ∀ entry ∈ tagEntries table extra element, IsUnquoted entry.1 := by
    intro entry hentry
    rcases List.mem_append.1 hentry with hfront | hown
    · exact hextra entry hfront
    · obtain ⟨own, hmem, rfl⟩ := List.mem_map.1 hown
      exact isUnquoted_writtenName hsound (h.attributeNames own hmem)
  obtain ⟨before, _, hwritten⟩ := writtenName_cases hsound element.name
  have hchars : element.name.localName.toList ≠ [] := mt String.toList_eq_nil_iff.1 h.nonempty
  have hlast : (writtenName table element.name).getLast? ≠ some '/' := by
    rw [hwritten, List.getLast?_append_of_ne_nil _ hchars]
    exact h.unslashed
  refine ⟨Token.isTagText_write hname hkeys, fun _ => ?_, fun _ => Token.getLast?_write hlast _,
    fun _ hmem => hname _ hmem (by decide)⟩
  rw [startTag, Tag.write_eq, hwritten]
  simp [hchars]

/-- The keys of namespace declarations have no quotes if the prefixes have none. -/
theorem isUnquoted_declarations (hsound : Sound IsUnquotedLabel (fun _ => True) table) :
    ∀ entry ∈ declarations table, IsUnquoted entry.1 := by
  intro entry hentry
  obtain ⟨binding, hbinding, rfl⟩ := List.mem_map.1 hentry
  have hkey : IsUnquoted ("xmlns".toList ++ [':']) :=
    isUnquoted_append.2 ⟨isUnquoted_of_isNCNameChars (by decide),
      List.forall_mem_singleton.2 (by decide)⟩
  exact isUnquoted_append.2 ⟨hkey, (hsound.labels binding hbinding).name⟩

/-- A document without quotes in its names is whole. -/
theorem isWholeDocument_of_unquoted {root : Element} (h : Everywhere Unquoted root) :
    IsWholeDocument root := by
  have hsound : Sound IsUnquotedLabel (fun _ => True) root.prefixes :=
    sound_prefixes (fun _ hlabel => isUnquoted_of_isNCNameChars hlabel)
      (h.imp fun element hunquoted => ⟨fun label hlabel => Or.inr (hunquoted.hint label hlabel),
        fun _ _ => trivial, fun _ _ _ _ => trivial⟩)
  refine ⟨hasWholeTags_of_unquoted hsound h.root (isUnquoted_declarations hsound), ?_⟩
  intro child hchild
  exact (h.children child hchild).imp fun element helement =>
    hasWholeTags_of_unquoted hsound helement nofun

end Element

end TypedXml.Xml
