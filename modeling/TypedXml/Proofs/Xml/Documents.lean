import TypedXml.Proofs.Xml.Layout

/-!
# What a written document is read as

Reading goes along the tokens of a tree with a stack of open elements.  When the tokens of one tree
are passed, the stack is as it was and the tree is attached where it belongs, as it is read: with
its namespaces as they stand in the declarations, without the attributes that bind names without a
prefix, and without text that counts as layout.  This holds of every tree whose names can be
written, compact or indented, and `parse_render` says it of whole documents.
-/

set_option autoImplicit false

namespace TypedXml.Xml

open Element PrefixTable Document

namespace Element

/-- Text without layout: blank text in front of children is layout. -/
def withoutLayout (children : List Element) (text : Option String) : Option String :=
  if !children.isEmpty && (text.getD "").toList.all Text.isBlank then none else text

/-- The text of an element as it is read. -/
def readText (text : Option String) (children : List Element) : Option String :=
  if text.getD "" = "" then none else withoutLayout children text

mutual

/-- A tree as it is read from what it is written as. -/
def reread (table : PrefixTable) (unprefixed : Option String) : Element → Element
  | ⟨name, _, attributes, text, children⟩ =>
    let inner := innerSpace unprefixed attributes.entries
    ⟨name.reread inner, name.space.bind table.prefixOf?, attributes.reread,
      readText text children, rereadAll table inner children⟩

/-- A list of trees as they are read. -/
def rereadAll (table : PrefixTable) (unprefixed : Option String) : List Element → List Element
  | [] => []
  | element :: rest => reread table unprefixed element :: rereadAll table unprefixed rest

end

/-- A list of trees is read tree by tree. -/
theorem rereadAll_eq_map (table : PrefixTable) (unprefixed : Option String)
    (elements : List Element) :
    rereadAll table unprefixed elements = elements.map (reread table unprefixed) := by
  induction elements with
  | nil => rfl
  | cons element rest ih => rw [rereadAll, ih, List.map_cons]

end Element

variable {limits : Limits} {gap : Nat → List Token} {table : PrefixTable}
  {unprefixed : Option String} {element : Element}

/-! ## Attributes within limits -/

/-- One attribute more is at most one more. -/
theorem size_insert_le (attributes : Attributes) (name : Name) (value : String) :
    (attributes.insert name value).size ≤ attributes.size + 1 := by
  have hlength : ∀ entries : List (Name × String),
      (Entries.insert name value entries).length ≤ entries.length + 1 := by
    intro entries
    induction entries with
    | nil => exact Nat.le_refl _
    | cons entry rest ih =>
      obtain ⟨k, v⟩ := entry
      unfold Entries.insert
      split
      · simp
      · simp only [List.length_cons]
        omega
  exact hlength attributes.entries

/-- No more attributes are read than are written. -/
theorem size_reread_le (attributes : Attributes) : attributes.reread.size ≤ attributes.size := by
  have hfold : ∀ (entries : List (Name × String)) (read : Attributes),
      (read.rereadFrom entries).size ≤ read.size + entries.length := by
    intro entries
    induction entries with
    | nil => exact fun read => Nat.le_refl _
    | cons entry rest ih =>
      intro read
      unfold Attributes.rereadFrom
      rw [List.foldl_cons]
      split
      · have hrest := ih read
        unfold Attributes.rereadFrom at hrest
        rw [List.length_cons]
        omega
      · have hrest := ih (read.insert (entry.1.reread none) entry.2)
        have hsize := size_insert_le read (entry.1.reread none) entry.2
        unfold Attributes.rereadFrom at hrest
        rw [List.length_cons]
        omega
  have hall := hfold attributes.entries .empty
  have hempty : Attributes.empty.size = 0 := rfl
  unfold Attributes.reread Attributes.size at *
  omega

/-! ## Text in gaps -/

/-- Text with the blank characters of gaps behind it; without gaps it stays as it is. -/
def PaddedBy (gap : Nat → List Token) (text padded : Option String) : Prop :=
  padded = text ∨ (∃ level, gap level ≠ []) ∧ ∃ blanks : String,
    blanks.toList.all Text.isBlank = true ∧ padded = some (text.getD "" ++ blanks)

/-- Text that is padded twice is padded. -/
theorem PaddedBy.trans {first second third : Option String} (h : PaddedBy gap first second)
    (hthird : PaddedBy gap second third) : PaddedBy gap first third := by
  rcases h with rfl | ⟨hgap, blanks, hblank, rfl⟩
  · exact hthird
  · rcases hthird with rfl | ⟨_, more, hmore, rfl⟩
    · exact Or.inr ⟨hgap, blanks, hblank, rfl⟩
    · refine Or.inr ⟨hgap, blanks ++ more, ?_, ?_⟩
      · rw [String.toList_append, List.all_append, hblank, hmore]
        rfl
      · rw [Option.getD_some, String.append_assoc]

/-- An open element with other text and other children. -/
def Document.Frame.filled (frame : Frame) (text : Option String) (children : List Element) :
    Frame :=
  { frame with element := { frame.element with text := text, children := children } }

/-- An open element with its own text and its own children is itself. -/
theorem Document.Frame.filled_self (frame : Frame) :
    frame.filled frame.element.text frame.element.children = frame := by
  obtain ⟨written, scope, element⟩ := frame
  cases element
  rfl

variable {frame : Frame} {frames : List Frame} {root : Option Element}

/-- A run of escaped characters is added to the text of the innermost open element. -/
theorem step_text (frame : Frame) (frames : List Frame) (root : Option Element)
    (run : List Char) :
    step limits ⟨frame :: frames, root⟩ (.text (escape run)) =
      .ok ⟨frame.filled (some (frame.element.textOrEmpty ++ String.ofList run))
        frame.element.children :: frames, root⟩ := by
  unfold step
  simp only [unescape_escape]
  rfl

/-- A gap adds blank text to the innermost open element. -/
theorem foldlM_gap (limits : Limits) (hgap : IsGap gap) (level : Nat) (frame : Frame)
    (frames : List Frame) (root : Option Element) :
    ∃ padded, PaddedBy gap frame.element.text padded ∧
      (gap level).foldlM (step limits) ⟨frame :: frames, root⟩ =
        .ok ⟨frame.filled padded frame.element.children :: frames, root⟩ := by
  rcases hgap level with hnone | ⟨run, hrun, _, hchars⟩
  · rw [hnone]
    refine ⟨frame.element.text, Or.inl rfl, ?_⟩
    rw [frame.filled_self]
    rfl
  · have hplain : escape run = run := escape_eq_self.2 fun c hc => (hchars c hc).1
    have hblank : (String.ofList run).toList.all Text.isBlank = true := by
      rw [String.toList_ofList, List.all_eq_true]
      exact fun c hc => (hchars c hc).2
    have hsome : gap level ≠ [] := by
      rw [hrun]
      exact List.cons_ne_nil _ _
    have hstep : step limits ⟨frame :: frames, root⟩ (.text (escape run)) = _ :=
      step_text frame frames root run
    rw [hplain] at hstep
    refine ⟨_, Or.inr ⟨⟨level, hsome⟩, String.ofList run, hblank, rfl⟩, ?_⟩
    rw [hrun, List.foldlM_cons, hstep]
    rfl

/-! ## Trees -/

/-- Passing the tokens of a tree attaches the tree, as it is read, where the tokens stand. -/
def ReadsBack (limits : Limits) (gap : Nat → List Token) (table : PrefixTable)
    (element : Element) : Prop :=
  ∀ unprefixed level extra building, Opens table building.scope unprefixed extra →
    building.frames.length + element.height ≤ limits.depth →
      (laidTokens gap table level extra element).foldlM (step limits) building =
        (attach (element.reread table unprefixed) building).mapError .xml

/-- Passing the tokens of children attaches them to the open element one after the other. -/
theorem foldlM_laidAll (hgap : IsGap gap) {children : List Element} (level : Nat)
    (h : ∀ child ∈ children, ReadsBack limits gap table child)
    (frame : Frame) (hfits : frame.scope.Fits table unprefixed) (frames : List Frame)
    (root : Option Element) (hdepth : frames.length + 1 + heightAll children ≤ limits.depth) :
    ∃ padded, PaddedBy gap frame.element.text padded ∧
      (laidAll gap table level children).foldlM (step limits) ⟨frame :: frames, root⟩ =
        .ok ⟨frame.filled padded
          ((children.map (reread table unprefixed)).reverse ++ frame.element.children) :: frames,
          root⟩ := by
  induction children generalizing frame with
  | nil =>
    refine ⟨frame.element.text, Or.inl rfl, ?_⟩
    rw [List.map_nil, List.reverse_nil, List.nil_append, frame.filled_self]
    rfl
  | cons child rest ih =>
    rw [List.forall_mem_cons] at h
    unfold heightAll at hdepth
    -- the gap before a child is text of the parent until the end tag drops it
    obtain ⟨padded, hpadded, hfirst⟩ := foldlM_gap limits hgap level frame frames root
    have hchild : (laidTokens gap table level [] child).foldlM (step limits)
        ⟨frame.filled padded frame.element.children :: frames, root⟩ =
          .ok ⟨frame.filled padded (child.reread table unprefixed :: frame.element.children) ::
            frames, root⟩ := by
      refine h.1 unprefixed level [] _ (opens_nil hfits) ?_
      show (frames.length + 1) + child.height ≤ limits.depth
      omega
    obtain ⟨final, hfinal, hrest⟩ := ih h.2
      (frame.filled padded (child.reread table unprefixed :: frame.element.children)) hfits
      (by omega)
    refine ⟨final, hpadded.trans hfinal, ?_⟩
    unfold laidAll
    rw [List.foldlM_append, List.foldlM_append, hfirst]
    show ((laidTokens gap table level [] child).foldlM (step limits) _ >>= fun building =>
      (laidAll gap table level rest).foldlM (step limits) building) = _
    rw [hchild]
    refine hrest.trans ?_
    rw [List.map_cons, List.reverse_cons, List.append_assoc]
    rfl

/-- The name in a written end tag is the name without white space behind it. -/
theorem closingName_written {name : List Char} (h : IsWord name) :
    closingName name = name := by
  have hkeep : Text.dropTrailing Text.isMarkupSpace name = name := by
    unfold Text.dropTrailing
    have hnone : name.reverse.dropWhile Text.isMarkupSpace = name.reverse := by
      rw [List.dropWhile_eq_self_iff]
      intro hlength
      have hmem := List.getElem_mem hlength
      rw [List.mem_reverse] at hmem
      rw [h _ hmem]
      exact Bool.false_ne_true
    rw [hnone, List.reverse_reverse]
  unfold closingName
  rw [hkeep]
  cases name with
  | nil => rfl
  | cons first rest => rfl

/-- The end tag of the innermost open element completes it and attaches it where it belongs. -/
theorem step_closing {frame : Frame} (h : IsWord frame.written) (frames : List Frame)
    (root : Option Element) :
    step limits ⟨frame :: frames, root⟩ (.closing frame.written) =
      (attach (complete frame.element) ⟨frames, root⟩).mapError .xml := by
  unfold step
  simp only [closingName_written h, beq_self_eq_true, if_true]

/-- An element whose start tag is passed. -/
def openFrame (table : PrefixTable) (unprefixed : Option String) (inner : Scope)
    (element : Element) : Frame :=
  ⟨writtenName table element.name, inner, element.opened table unprefixed⟩

/-- A start tag opens its element, and the tag of an empty one attaches it. -/
theorem step_startTag (hsound : Sound IsLooseLabel IsFreeSpace table)
    (hlegible : Legible IsFreeSpace element)
    (hbound : AllBound table element) (hattributes : element.attributes.size ≤ limits.attributes)
    {building : Building} {extra : List (List Char × List Char)}
    (hopens : Opens table building.scope unprefixed extra)
    (hdepth : building.frames.length + 1 ≤ limits.depth) :
    ∃ inner, inner.Fits table (innerSpace unprefixed element.attributes.entries) ∧
      step limits building (.opening (element.startTag table extra)) =
        .ok ⟨openFrame table unprefixed inner element :: building.frames, building.root⟩ ∧
      step limits building (.empty (element.startTag table extra)) =
        (attach (element.opened table unprefixed) building).mapError .xml := by
  obtain ⟨inner, hread, hfits⟩ : ∃ inner, readTag building.scope (element.startTag table extra) =
        .ok (element.opened table unprefixed, inner) ∧
      inner.Fits table (innerSpace unprefixed element.attributes.entries) :=
    readTag_write hsound hlegible hbound hopens
  have hname : Tag.name (element.startTag table extra) = writtenName table element.name :=
    Tag.name_write (isWord_writtenName hsound hlegible.word hbound.name) _
  have hsize : (element.opened table unprefixed).attributes.size ≤ limits.attributes :=
    Nat.le_trans (size_reread_le element.attributes) hattributes
  refine ⟨inner, hfits, ?_, ?_⟩
  · show (_ >>= _) = _
    rw [bind_of_eq_ok (mapError_eq_ok.2 hread)]
    show (_ >>= _) = _
    rw [bind_of_eq_ok (mapError_eq_ok.2 (Limits.checkAttributes_eq_ok.2 hsize)),
      bind_of_eq_ok (mapError_eq_ok.2 (Limits.checkDepth_eq_ok.2 hdepth)), hname]
    rfl
  · show (_ >>= _) = _
    rw [bind_of_eq_ok (mapError_eq_ok.2 hread)]
    show (_ >>= _) = _
    rw [bind_of_eq_ok (mapError_eq_ok.2 (Limits.checkAttributes_eq_ok.2 hsize)),
      bind_of_eq_ok (mapError_eq_ok.2 (Limits.checkDepth_eq_ok.2 hdepth))]

/-- A tree is read as its start tag, its text and its children are. -/
theorem reread_eq (table : PrefixTable) (unprefixed : Option String) (element : Element) :
    element.reread table unprefixed =
      { element.opened table unprefixed with
        text := readText element.text element.children
        children := element.children.map
          (reread table (innerSpace unprefixed element.attributes.entries)) } := by
  cases element
  rw [reread, rereadAll_eq_map]
  rfl

/-- A tree is read as deep as it is. -/
theorem height_reread (table : PrefixTable) (element : Element) :
    ∀ unprefixed, (element.reread table unprefixed).height = element.height := by
  induction element using induct with
  | step element ih =>
    intro unprefixed
    have hall : ∀ {children : List Element} {inner : Option String},
        (∀ child ∈ children, ∀ unprefixed,
          (child.reread table unprefixed).height = child.height) →
        heightAll (children.map (reread table inner)) = heightAll children := by
      intro children inner h
      induction children with
      | nil => rfl
      | cons child rest ih =>
        rw [List.forall_mem_cons] at h
        rw [List.map_cons, heightAll, heightAll, h.1 inner, ih h.2]
    rw [height_eq, height_eq, reread_eq]
    show heightAll (element.children.map _) + 1 = _
    rw [hall ih]

/-- An open element with its children and a text that is read as its own is completed as it is
read. -/
theorem complete_filled (table : PrefixTable) (unprefixed : Option String) (inner : Scope)
    {final : Option String}
    (htext : withoutLayout element.children final = readText element.text element.children) :
    complete ((openFrame table unprefixed inner element).filled final
      (element.children.map
        (reread table (innerSpace unprefixed element.attributes.entries))).reverse).element =
      element.reread table unprefixed := by
  have hempty (l : List Element) (f : Element → Element) :
      (l.map f).reverse.isEmpty = l.isEmpty := by
    rw [List.isEmpty_reverse, List.isEmpty_map]
  rw [reread_eq, ← htext]
  unfold complete withoutLayout
  simp only [Document.Frame.filled, openFrame, textOrEmpty, hempty, List.reverse_reverse]

/-- Text in front of children that is padded with gaps. -/
theorem readText_of_paddedBy {text final : Option String} {children : List Element}
    (hchildren : children ≠ [])
    (hpadded : PaddedBy gap (if text.getD "" = "" then none else some (text.getD "")) final)
    (hgap : text.getD "" ≠ "" → ∀ level, gap level = []) :
    withoutLayout children final = readText text children := by
  have hnonempty : children.isEmpty = false := List.isEmpty_eq_false_iff.2 hchildren
  unfold readText withoutLayout
  rw [hnonempty, Bool.not_false, Bool.true_and, Bool.true_and]
  by_cases htext : text.getD "" = ""
  · rw [if_pos htext] at hpadded ⊢
    rcases hpadded with rfl | ⟨_, blanks, hblank, rfl⟩
    · rfl
    · rw [Option.getD_none, Option.getD_some, String.empty_append, if_pos hblank]
  · rw [if_neg htext] at hpadded ⊢
    rcases hpadded with rfl | ⟨⟨level, hsome⟩, _⟩
    · cases text with
      | none => exact absurd rfl htext
      | some chars => rfl
    · exact absurd (hgap htext level) hsome

/-- The text of an element without children is read as it is. -/
theorem readText_of_leaf (htext : element.textOrEmpty ≠ "") (hchildren : element.children = []) :
    withoutLayout element.children (some element.textOrEmpty) =
      readText element.text element.children := by
  unfold textOrEmpty at htext ⊢
  unfold readText withoutLayout
  rw [hchildren, if_neg htext]
  cases htextOf : element.text with
  | none =>
    rw [htextOf] at htext
    exact absurd rfl htext
  | some chars => rfl

/-- The text of an element is passed behind its start tag. -/
theorem step_ownText (limits : Limits) (table : PrefixTable) (unprefixed : Option String)
    (inner : Scope) (element : Element) (frames : List Frame) (root : Option Element) :
    step limits ⟨openFrame table unprefixed inner element :: frames, root⟩
        (.text (escape element.textOrEmpty.toList)) =
      .ok ⟨(openFrame table unprefixed inner element).filled (some element.textOrEmpty) [] ::
        frames, root⟩ := by
  rw [step_text, String.ofList_toList]
  show Except.ok (Building.mk (Document.Frame.filled _ (some ("" ++ _)) _ :: _) _) = _
  rw [String.empty_append]
  rfl

/-- Behind the start tag and the text of an element with children, the element is completed. -/
theorem foldlM_inside (hgap : IsGap gap) {inner : Scope}
    (hfits : inner.Fits table (innerSpace unprefixed element.attributes.entries))
    (hname : IsWord (writtenName table element.name)) (level : Nat)
    (hchildren : ∀ child ∈ element.children, ReadsBack limits gap table child)
    (hnonempty : element.children ≠ [])
    (hquiet : element.textOrEmpty ≠ "" → ∀ level, gap level = []) (frames : List Frame)
    (root : Option Element) (hdepth : frames.length + element.height ≤ limits.depth) :
    (laidAll gap table (level + 1) element.children ++
        (gap level ++ [Token.closing (writtenName table element.name)])).foldlM (step limits)
      ⟨(openFrame table unprefixed inner element).filled
        (if element.textOrEmpty = "" then none else some element.textOrEmpty) [] :: frames, root⟩ =
      (attach (element.reread table unprefixed) ⟨frames, root⟩).mapError .xml := by
  rw [height_eq] at hdepth
  obtain ⟨middle, hmiddle, hall⟩ := foldlM_laidAll hgap (level + 1) hchildren
    ((openFrame table unprefixed inner element).filled
      (if element.textOrEmpty = "" then none else some element.textOrEmpty) [])
    hfits frames root (by omega)
  rw [List.foldlM_append, bind_of_eq_ok hall]
  obtain ⟨final, hfinal, hlast⟩ := foldlM_gap limits hgap level
    ((openFrame table unprefixed inner element).filled middle
      (element.children.map (reread table
        (innerSpace unprefixed element.attributes.entries))).reverse) frames root
  -- only gaps have been added to the text, and these are dropped or were never there
  have hbehind : (gap level ++ [Token.closing (writtenName table element.name)]).foldlM
      (step limits) ⟨(openFrame table unprefixed inner element).filled middle
        (element.children.map (reread table
          (innerSpace unprefixed element.attributes.entries))).reverse :: frames, root⟩ =
      (attach (element.reread table unprefixed) ⟨frames, root⟩).mapError .xml := by
    rw [List.foldlM_append, bind_of_eq_ok hlast, foldlM_singleton,
      ← complete_filled table unprefixed inner
        (readText_of_paddedBy hnonempty (hmiddle.trans hfinal) hquiet)]
    exact step_closing hname frames root
  rw [← hbehind]
  show List.foldlM (step limits)
    ⟨(openFrame table unprefixed inner element).filled middle (_ ++ []) :: frames, root⟩ _ = _
  rw [List.append_nil]

/-- The tokens of a tree whose names are legible are read back. -/
theorem readsBack_of_legible (hgap : IsGap gap) (hsound : Sound IsLooseLabel IsFreeSpace table)
    (h : Everywhere (fun element => Legible IsFreeSpace element ∧ AllBound table element) element)
    (hattributes : Everywhere (fun element => element.attributes.size ≤ limits.attributes) element)
    (hsuits : Suits gap element) : ReadsBack limits gap table element := by
  induction h with
  | @intro element root _ ih =>
    intro unprefixed level extra building hopens hdepth
    obtain ⟨frames, done⟩ := building
    have hchildren : ∀ child ∈ element.children, ReadsBack limits gap table child :=
      fun child hchild => ih child hchild (hattributes.children child hchild)
        (hsuits.children child hchild)
    have hown : frames.length + 1 ≤ limits.depth := by
      have hheight := height_eq element
      have hbelow : frames.length + element.height ≤ limits.depth := hdepth
      omega
    obtain ⟨inner, hfits, hopening, hempty⟩ := step_startTag hsound root.1 root.2
      hattributes.root hopens hown
    have hname : IsWord (writtenName table element.name) :=
      isWord_writtenName hsound root.1.word root.2.name
    -- the four layouts: with and without children, with and without text
    by_cases hnone : element.children = []
    · by_cases htext : element.textOrEmpty = ""
      · have hread : element.reread table unprefixed = element.opened table unprefixed := by
          rw [reread_eq, hnone]
          unfold textOrEmpty at htext
          unfold readText
          rw [if_pos htext]
          rfl
        rw [laidTokens_of_empty htext hnone, foldlM_singleton, hempty, hread]
      · have htag := step_ownText limits table unprefixed inner element frames done
        rw [laidTokens_of_text htext hnone, List.foldlM_cons, bind_of_eq_ok hopening,
          List.foldlM_cons, bind_of_eq_ok htag, foldlM_singleton,
          ← complete_filled table unprefixed inner (readText_of_leaf htext hnone), hnone]
        exact step_closing hname frames done
    · by_cases htext : element.textOrEmpty = ""
      · have hinside := foldlM_inside hgap hfits hname level hchildren hnone
          (fun h => absurd htext h) frames done hdepth
        rw [if_pos htext] at hinside
        rw [laidTokens_of_children htext hnone, List.foldlM_cons, bind_of_eq_ok hopening]
        exact hinside
      · have hinside := foldlM_inside hgap hfits hname level hchildren hnone
          (fun _ => hsuits.no_gap htext hnone) frames done hdepth
        rw [if_neg htext] at hinside
        rw [laidTokens_of_mixed htext hnone, List.foldlM_cons, bind_of_eq_ok hopening,
          List.foldlM_cons,
          bind_of_eq_ok (step_ownText limits table unprefixed inner element frames done)]
        exact hinside

/-! ## Documents -/

/-- What stands in front of the root: nothing, the declaration, or the declaration and a line
break. -/
def IsProlog (prolog : List Token) : Prop :=
  prolog = [] ∨ prolog = [xmlDeclaration] ∨ ∃ width, prolog = [xmlDeclaration, lineBreak width 0]

/-- The tokens of a document are those of its root with one sort of gaps, behind the prolog. -/
theorem documentTokens_eq {options : RenderOptions} {root : Element}
    (hlayout : options.indent = none ∨ Everywhere IsUnmixed root) :
    ∃ gap prolog, IsGap gap ∧ Suits gap root ∧ IsProlog prolog ∧
      documentTokens options root =
        prolog ++ laidTokens gap root.prefixes 0 (declarations root.prefixes) root := by
  unfold documentTokens
  cases hindent : options.indent with
  | none =>
    have htokens := tokens_eq_laidTokens root.prefixes root 0 (declarations root.prefixes)
    refine ⟨noGap, if options.declaration then [xmlDeclaration] else [], isGap_noGap,
      Or.inl fun _ => rfl, ?_, ?_⟩
    · split
      · exact Or.inr (Or.inl rfl)
      · exact Or.inl rfl
    · simp only [htokens]
  | some width =>
    have hunmixed : Everywhere IsUnmixed root := by
      rcases hlayout with hnone | hunmixed
      · rw [hindent] at hnone
        cases hnone
      · exact hunmixed
    have htokens := tokens_eq_laidTokens root.prefixes root 0 (declarations root.prefixes)
    have hindents : Indents width root.prefixes root := indents_of_unmixed hunmixed
    cases hdeclaration : options.declaration with
    | false =>
      have hlaid := hindents 0 0 false (declarations root.prefixes) []
      refine ⟨lineGap width, [], isGap_lineGap width, Or.inr hunmixed, Or.inl rfl, ?_⟩
      rw [List.append_nil] at hlaid
      simp only [htokens]
      exact hlaid.trans (List.append_nil _)
    | true =>
      have hlaid := hindents 0 0 true (declarations root.prefixes) []
      refine ⟨lineGap width, [xmlDeclaration, lineBreak width 0], isGap_lineGap width,
        Or.inr hunmixed, Or.inr (Or.inr ⟨width, rfl⟩), ?_⟩
      rw [List.append_nil] at hlaid
      simp only [htokens]
      exact congrArg (xmlDeclaration :: ·) (hlaid.trans (List.append_nil _))

/-- What stands in front of the root leaves no trace. -/
theorem foldlM_prolog {prolog : List Token} (h : IsProlog prolog) :
    prolog.foldlM (step limits) Building.start = .ok Building.start := by
  rcases h with rfl | rfl | ⟨width, rfl⟩
  · rfl
  · rfl
  · rfl

/-- What stands in front of the root is read as it is written. -/
theorem lexable_prolog {prolog toks : List Token} (h : IsProlog prolog)
    (htoks : ∀ after, Lexable after toks) : Lexable true (prolog ++ toks) := by
  have hdeclaration : xmlDeclaration.Readable := .instruction (by decide) (by decide)
  rcases h with rfl | rfl | ⟨width, rfl⟩
  · exact htoks true
  · exact ⟨hdeclaration, by simp [xmlDeclaration, Token.isText], htoks false⟩
  · refine ⟨hdeclaration, by simp [xmlDeclaration, Token.isText],
      .text (List.cons_ne_nil _ _) ?_, fun _ => rfl, htoks true⟩
    rw [List.mem_cons, List.mem_replicate]
    rintro (heq | ⟨_, heq⟩)
    · cases heq
    · cases heq

/-- The prefixes of a document whose names are legible can stand in its tags. -/
theorem sound_of_legible {good : String → Prop} {root : Element}
    (h : Everywhere (Legible good) root) : Sound IsLooseLabel good root.prefixes :=
  sound_prefixes (fun _ hlabel => hlabel.loose) (h.imp fun _ hlegible => hlegible.toDeclarable)

/-- The tokens of a document whose names are legible and whose tags are whole are read as they are
written. -/
theorem lexable_documentTokens {good : String → Prop} {options : RenderOptions} {root : Element}
    (hlegible : Everywhere (Legible good) root) (hwhole : IsWholeDocument root)
    (hlayout : options.indent = none ∨ Everywhere IsUnmixed root) :
    Lexable true (documentTokens options root) := by
  have hsound := sound_of_legible hlegible
  obtain ⟨gap, prolog, hgap, hsuits, hprolog, htokens⟩ := documentTokens_eq hlayout
  rw [htokens]
  refine lexable_prolog hprolog ?_
  intro after
  have hdelimited := delimited_of_legible hgap hsound (hlegible.both (allBound_prefixes root))
    hwhole.below hsuits 0 after _ [] hwhole.top trivial
  rwa [List.append_nil] at hdelimited

/-- A document is written token by token, unless it is too deep. -/
theorem render_eq_ok {options : RenderOptions} {root : Element} {text : String} :
    render options root = .ok text ↔ root.depth ≤ options.maxDepth ∧
      String.ofList ((documentTokens options root).flatMap Token.write) = text := by
  rw [render, ← RenderOptions.checkDepth_eq_ok]
  cases options.checkDepth root.depth with
  | error exceeded => simp
  | ok _ => simp

/-- The tokens of a document that was written are taken one after the other. -/
theorem parse_eq_foldlM {good : String → Prop} {options : RenderOptions} {root : Element}
    {text : String} (hlegible : Everywhere (Legible good) root) (hwhole : IsWholeDocument root)
    (hlayout : options.indent = none ∨ Everywhere IsUnmixed root)
    (hsize : text.utf8ByteSize ≤ limits.size) (h : render options root = .ok text) :
    Document.parse limits text =
      ((documentTokens options root).foldlM (step limits) Building.start >>= fun building =>
        (finish building).mapError .xml) := by
  have htext : text = String.ofList ((documentTokens options root).flatMap Token.write) :=
    (render_eq_ok.1 h).2.symm
  have hlexable := lexable_documentTokens hlegible hwhole hlayout
  -- a document that is written begins with `<` or is empty, never with a byte order mark
  have hmark : withoutMark ((documentTokens options root).flatMap Token.write) =
      (documentTokens options root).flatMap Token.write := by
    rcases write_start_of_lexable hlexable with hnil | ⟨rest, hrest⟩
    · rw [hnil]
      rfl
    · rw [hrest]
      rfl
  unfold Document.parse
  rw [bind_of_eq_ok (mapError_eq_ok.2 (Limits.checkSize_eq_ok.2 hsize)), htext,
    String.toList_ofList, hmark, tokens_flatMap_write hlexable]

/-- A document whose names are legible and whose tags are whole is read as its root, with its
namespaces as they stand in the declarations. -/
theorem parse_render_of_legible {options : RenderOptions} {root : Element} {text : String}
    (hlegible : Everywhere (Legible IsFreeSpace) root) (hwhole : IsWholeDocument root)
    (hlayout : options.indent = none ∨ Everywhere IsUnmixed root)
    (hattributes : Everywhere (fun element => element.attributes.size ≤ limits.attributes) root)
    (hdepth : root.depth ≤ limits.depth) (hsize : text.utf8ByteSize ≤ limits.size)
    (h : render options root = .ok text) :
    Document.parse limits text = .ok (root.reread root.prefixes none) := by
  have hsound := sound_of_legible hlegible
  obtain ⟨gap, prolog, hgap, hsuits, hprolog, htokens⟩ := documentTokens_eq hlayout
  have hread : (documentTokens options root).foldlM (step limits) Building.start =
      .ok ⟨[], some (root.reread root.prefixes none)⟩ := by
    rw [htokens, List.foldlM_append, bind_of_eq_ok (foldlM_prolog hprolog)]
    refine readsBack_of_legible hgap hsound (hlegible.both (allBound_prefixes root))
      hattributes hsuits none 0 _ _ (opens_declarations hsound) ?_
    rw [depth_eq_height] at hdepth
    show 0 + root.height ≤ limits.depth
    omega
  rw [parse_eq_foldlM hlegible hwhole hlayout hsize h, bind_of_eq_ok hread]
  rfl

/-- A document that is written is read as its root, with its namespaces as they stand in the
declarations. -/
theorem parse_render {options : RenderOptions} {root : Element} {text : String}
    (hwritable : Everywhere (Writable IsFreeSpace) root)
    (hlayout : options.indent = none ∨ Everywhere IsUnmixed root)
    (hattributes : Everywhere (fun element => element.attributes.size ≤ limits.attributes) root)
    (hdepth : root.depth ≤ limits.depth) (hsize : text.utf8ByteSize ≤ limits.size)
    (h : render options root = .ok text) :
    Document.parse limits text = .ok (root.reread root.prefixes none) :=
  parse_render_of_legible (hwritable.imp fun _ => Writable.legible)
    (isWholeDocument_of_unquoted (hwritable.imp fun _ => Writable.unquoted)) hlayout hattributes
    hdepth hsize h

/-! ## Reserved namespaces -/

/-- The tokens of a tree begin with its start tag, which may be that of an empty element. -/
theorem laidTokens_head (gap : Nat → List Token) (table : PrefixTable) (level : Nat)
    (extra : List (List Char × List Char)) (element : Element) :
    ∃ token rest, laidTokens gap table level extra element = token :: rest ∧
      (token = .opening (element.startTag table extra) ∨
        token = .empty (element.startTag table extra)) := by
  by_cases htext : element.textOrEmpty = ""
  · by_cases hchildren : element.children = []
    · exact ⟨_, _, laidTokens_of_empty htext hchildren, Or.inr rfl⟩
    · exact ⟨_, _, laidTokens_of_children htext hchildren, Or.inl rfl⟩
  · by_cases hchildren : element.children = []
    · exact ⟨_, _, laidTokens_of_text htext hchildren, Or.inl rfl⟩
    · exact ⟨_, _, laidTokens_of_mixed htext hchildren, Or.inl rfl⟩

/-- A start tag that is taken is read in the scope where it stands. -/
theorem readTag_of_step {tag : List Char} {token : Token}
    (htoken : token = .opening tag ∨ token = .empty tag) {before after : Building}
    (h : step limits before token = .ok after) : ∃ read, readTag before.scope tag = .ok read := by
  rcases htoken with rfl | rfl
  · obtain ⟨read, hread, _⟩ := bind_eq_ok.1 h
    exact ⟨read, mapError_eq_ok.1 hread⟩
  · obtain ⟨read, hread, _⟩ := bind_eq_ok.1 h
    exact ⟨read, mapError_eq_ok.1 hread⟩

/-- A start tag that declares a reserved namespace is refused. -/
theorem readTag_reserved {good : String → Prop} {root : Element}
    (hlegible : Everywhere (Legible good) root) {uri label : String}
    (hlabel : root.prefixes.prefixOf? uri = some label) (hreserved : IsReservedSpace uri)
    (outer : Scope) (read : Element × Scope) :
    readTag outer (root.startTag root.prefixes (declarations root.prefixes)) ≠ .ok read := by
  have hsound := sound_of_legible hlegible
  have hbound := (allBound_prefixes root).root
  have hmem := mem_of_prefixOf? hlabel
  have hname := isWord_writtenName hsound hlegible.root.word hbound.name
  obtain ⟨written, hitems, hentries⟩ := Tag.items_write hname
    (isKey_of_mem_tagEntries hsound hlegible.root hbound
      (isKey_of_declared (declared_declarations hsound)))
  intro hread
  unfold readTag startTag at hread
  obtain ⟨inner, henter, _⟩ := bind_eq_ok.1 hread
  rw [hitems, Tag.wellFormed_map, enter_eq_foldlM, hentries] at henter
  -- the root writes the declarations of all namespaces
  have hentry : ("xmlns:".toList ++ label.toList, escape uri.toList) ∈
      (tagEntries root.prefixes (declarations root.prefixes) root).map
        fun entry => (entry.1, escape entry.2) := by
    refine List.mem_map.2 ⟨("xmlns:".toList ++ label.toList, uri.toList), ?_, rfl⟩
    exact List.mem_append_left _ (List.mem_map.2 ⟨(uri, label), hmem, rfl⟩)
  obtain ⟨before, after, hbind⟩ := exists_of_foldlM_eq_ok henter _ hentry
  exact ((bindEntry_eq_ok (hsound.labels _ hmem)).1 hbind).1 hreserved

/-- A document that declares a reserved namespace is refused. -/
theorem parse_render_declared {good : String → Prop} {options : RenderOptions} {root : Element}
    {text uri label : String} (hlegible : Everywhere (Legible good) root)
    (hwhole : IsWholeDocument root) (hlayout : options.indent = none ∨ Everywhere IsUnmixed root)
    (hlabel : root.prefixes.prefixOf? uri = some label) (hreserved : IsReservedSpace uri)
    (h : render options root = .ok text) (read : Element) :
    Document.parse limits text ≠ .ok read := by
  intro hparse
  have hsize : text.utf8ByteSize ≤ limits.size := by
    have hcheck := (check_bind_eq_ok.1 hparse).1
    exact Limits.checkSize_eq_ok.1 (mapError_eq_ok.1 hcheck)
  rw [parse_eq_foldlM hlegible hwhole hlayout hsize h] at hparse
  obtain ⟨building, hbuilding, _⟩ := bind_eq_ok.1 hparse
  obtain ⟨gap, prolog, _, _, _, htokens⟩ := documentTokens_eq hlayout
  obtain ⟨token, rest, hhead, htoken⟩ := laidTokens_head gap root.prefixes 0
    (declarations root.prefixes) root
  rw [htokens, hhead] at hbuilding
  obtain ⟨before, after, hstep⟩ := exists_of_foldlM_eq_ok hbuilding token
    (List.mem_append_right prolog List.mem_cons_self)
  obtain ⟨opened, hopened⟩ := readTag_of_step htoken hstep
  exact readTag_reserved hlegible hlabel hreserved _ _ hopened

/-- A document whose root is in a reserved namespace is refused. -/
theorem parse_render_reserved {good : String → Prop} {options : RenderOptions} {root : Element}
    {text uri : String} (hwritable : Everywhere (Writable good) root)
    (hlayout : options.indent = none ∨ Everywhere IsUnmixed root)
    (hspace : root.name.space = some uri) (hreserved : IsReservedSpace uri)
    (h : render options root = .ok text) (read : Element) :
    Document.parse limits text ≠ .ok read := by
  obtain ⟨label, hlabel⟩ :=
    Option.isSome_iff_exists.1 ((allBound_prefixes root).root.name uri hspace)
  exact parse_render_declared (hwritable.imp fun _ => Writable.legible)
    (isWholeDocument_of_unquoted (hwritable.imp fun _ => Writable.unquoted)) hlayout hlabel
    hreserved h read

end TypedXml.Xml
