import TypedXml.Proofs.Xml.ReadTags
import TypedXml.Xml.Depth

/-!
# What parsing can give

The names of every element are such as reading gives them, blank text in front of children is
dropped, and the limits are kept.  Every token keeps this true of the open elements and of the
trees that are complete so far, and so it is true of every root that parsing gives.
-/

set_option autoImplicit false

namespace TypedXml.Xml

open Element Document

/-! ## Tokens -/

/-- Whether a tag begins like one. -/
def Token.BeginsTag : Token → Prop
  | .opening tag | .empty tag => IsTagStart tag
  | _ => True

/-- The characters of a tag are the front of those that it is split off. -/
theorem Token.splitTag_front {seen cs content rest : List Char} {quote : Option Char}
    (h : splitTag seen quote cs = some (content, rest)) :
    ∃ taken, content = seen.reverse ++ taken ∧ taken <+: cs := by
  induction cs generalizing seen quote with
  | nil => simp [splitTag] at h
  | cons c cs ih =>
    have hmore : ∀ {quote}, splitTag (c :: seen) quote cs = some (content, rest) →
        ∃ taken, content = seen.reverse ++ taken ∧ taken <+: c :: cs := by
      intro quote h
      obtain ⟨taken, rfl, hfront⟩ := ih h
      exact ⟨c :: taken, by simp, (List.prefix_cons_inj c).2 hfront⟩
    simp only [splitTag] at h
    split at h
    · exact hmore h
    · split at h
      · cases h
        exact ⟨[], (List.append_nil _).symm, List.nil_prefix⟩
      · exact hmore h

/-- A tag that is read behind `<` begins like one. -/
theorem Token.beginsTag_of_nextTag {cs rest : List Char} {token : Token} (hstart : IsTagStart cs)
    (h : nextTag cs = .ok (token, rest)) : token.BeginsTag := by
  unfold nextTag at h
  split at h
  · cases h
  · next content behind hsplit =>
    obtain ⟨taken, heq, hfront⟩ := splitTag_front hsplit
    obtain rfl : content = taken := heq
    have hcontent : IsTagStart content := isTagStart_of_front hfront hstart
    split at h
    · next seen hreverse =>
      cases h
      refine isTagStart_of_front ?_ hcontent
      rw [List.reverse_eq_cons_iff] at hreverse
      exact ⟨_, hreverse.symm⟩
    · cases h
      exact hcontent

/-- What is read behind an exclamation mark is no tag. -/
theorem Token.beginsTag_of_nextBang {markup : Markup} {complete : List Char → Bool}
    {cs rest : List Char} {token : Token} (h : nextBang markup complete cs = .ok (token, rest)) :
    token.BeginsTag := by
  unfold nextBang at h
  split at h
  · cases h
  · obtain ⟨found, hfound, heq⟩ := map_eq_ok.1 h
    cases heq
    unfold ofBang at hfound
    split at hfound
    · split at hfound
      · cases hfound
        trivial
      · cases hfound
    · split at hfound
      · cases hfound
        trivial
      · cases hfound
    · split at hfound
      · split at hfound
        · cases hfound
        · cases hfound
          trivial
      · cases hfound

/-- What is read behind a question mark is no tag. -/
theorem Token.beginsTag_of_nextInstruction {cs rest : List Char} {token : Token}
    (h : nextInstruction cs = .ok (token, rest)) : token.BeginsTag := by
  unfold nextInstruction at h
  dsimp only at h
  split at h
  · cases h
    trivial
  · cases h

/-- The first token of a text begins like a tag if it is one. -/
theorem Token.beginsTag_of_next {cs rest : List Char} {token : Token}
    (h : next cs = .ok (some (token, rest))) : token.BeginsTag := by
  have hsome : ∀ {found : Except Fault (Token × List Char)},
      found.map some = .ok (some (token, rest)) → found = .ok (token, rest) := by
    intro found hfound
    obtain ⟨pair, hpair, heq⟩ := map_eq_ok.1 hfound
    rw [hpair, Option.some.inj heq]
  unfold next at h
  split at h
  · cases h
  · split at h
    · cases h
    · split at h
      · cases h
      · split at h
        · exact beginsTag_of_nextBang (hsome h)
        · split at h
          · exact beginsTag_of_nextBang (hsome h)
          · split at h
            · exact beginsTag_of_nextBang (hsome h)
            · cases h
    · cases h
      trivial
    · exact beginsTag_of_nextInstruction (hsome h)
    · next hbang hslash hquestion =>
      refine beginsTag_of_nextTag ?_ (hsome h)
      rintro c hc hmem
      obtain ⟨behind, rfl⟩ := List.head?_eq_some_iff.1 hc
      simp only [List.mem_cons, List.not_mem_nil, or_false] at hmem
      rcases hmem with rfl | rfl | rfl
      · exact hbang _ rfl
      · exact hslash _ rfl
      · exact hquestion _ rfl
  · cases h
    trivial

/-- All tags of a text begin like tags. -/
theorem beginsTag_of_mem_tokens (cs : List Char) : ∀ token ∈ (tokens cs).list, token.BeginsTag := by
  fun_induction tokens cs with
  | case1 cs fault => nofun
  | case2 cs => nofun
  | case3 cs token rest hnext more ih =>
    exact List.forall_mem_cons.2 ⟨Token.beginsTag_of_next hnext, ih⟩

/-! ## Trees that are read -/

/-- Whether an element is one that parsing within limits can give. -/
structure Element.Parsed (limits : Limits) (element : Element) : Prop where
  names : HasReadNames element
  size : element.attributes.size ≤ limits.attributes
  visible : element.children ≠ [] → ∀ text ∈ element.text, ¬ text.toList.all Text.isBlank = true

variable {limits : Limits} {element : Element} {inner : Scope}

/-- Whether a tree is one that parsing can give below open elements of a number. -/
structure Element.ParsedAt (limits : Limits) (level : Nat) (element : Element) : Prop where
  everywhere : Everywhere (Parsed limits) element
  depth : level + element.height ≤ limits.depth

/-- Whether an open element at a level is one that parsing can lead to. -/
structure Document.Frame.Fits (limits : Limits) (level : Nat) (frame : Frame) : Prop where
  labels : frame.scope.HasLabels
  names : HasReadNames frame.element
  size : frame.element.attributes.size ≤ limits.attributes
  within : level ≤ limits.depth
  children : ∀ child ∈ frame.element.children, ParsedAt limits level child

/-- Whether open elements, innermost first, are such that parsing can lead to them. -/
def Document.FramesFit (limits : Limits) : List Frame → Prop
  | [] => True
  | frame :: outer => frame.Fits limits (outer.length + 1) ∧ FramesFit limits outer

/-- Whether parsing can have come to a state. -/
structure Document.Building.Fits (limits : Limits) (building : Building) : Prop where
  frames : FramesFit limits building.frames
  root : ∀ root ∈ building.root, ParsedAt limits 0 root

/-- Parsing begins with a state that fits. -/
theorem Document.Building.fits_start : Building.start.Fits limits :=
  ⟨trivial, nofun⟩

variable {building after : Building}

/-- The bindings of a state that fits have prefixes that can stand in tags. -/
theorem Document.Building.Fits.hasLabels (h : building.Fits limits) : building.scope.HasLabels := by
  obtain ⟨frames, root⟩ := building
  cases frames with
  | nil => exact Scope.hasLabels_outermost
  | cons frame outer => exact h.frames.1.labels

/-- What is inside of an open element may change as long as its children are read. -/
theorem Document.Frame.Fits.filled {frame : Frame} {level : Nat} (h : frame.Fits limits level)
    (text : Option String) {children : List Element}
    (hchildren : ∀ child ∈ children, ParsedAt limits level child) :
    Frame.Fits limits level
      { frame with element := { frame.element with text := text, children := children } } :=
  ⟨h.labels, h.names.filled text children, h.size, h.within, hchildren⟩

/-- A tree that is read keeps the state fit where it is attached. -/
theorem fits_of_attach (hbuilding : building.Fits limits)
    (helement : ParsedAt limits building.frames.length element)
    (h : attach element building = .ok after) : after.Fits limits := by
  obtain ⟨frames, root⟩ := building
  cases frames with
  | nil =>
    cases root with
    | none =>
      cases h
      refine ⟨trivial, ?_⟩
      rintro _ ⟨⟩
      exact helement
    | some root => cases h
  | cons frame outer =>
    cases h
    have hchildren := List.forall_mem_cons.2 ⟨helement, hbuilding.frames.1.children⟩
    exact ⟨⟨hbuilding.frames.1.filled _ hchildren, hbuilding.frames.2⟩, hbuilding.root⟩

/-- Text keeps the state fit. -/
theorem fits_of_addText {frame : Frame} {outer : List Frame} {root : Option Element}
    (h : Building.Fits limits ⟨frame :: outer, root⟩) (text : List Char) :
    Building.Fits limits ⟨addText text frame :: outer, root⟩ :=
  ⟨⟨h.frames.1.filled _ h.frames.1.children, h.frames.2⟩, h.root⟩

/-- An open element is complete at its end tag. -/
theorem parsedAt_complete {frame : Frame} {level : Nat} (h : frame.Fits limits (level + 1)) :
    ParsedAt limits level (complete frame.element) := by
  have hchildren : ∀ child ∈ (complete frame.element).children,
      ParsedAt limits (level + 1) child :=
    fun child hchild => h.children child (List.mem_reverse.1 hchild)
  refine ⟨.intro ⟨h.names.filled _ _, h.size, ?_⟩ fun child hchild =>
    (hchildren child hchild).everywhere, ?_⟩
  · -- blank text in front of children is layout and has been dropped
    intro hnonempty text htext hblank
    have hsome : frame.element.children.isEmpty = false :=
      List.isEmpty_eq_false_iff.2 fun hnil => hnonempty (List.reverse_eq_nil_iff.2 hnil)
    unfold complete at htext
    rw [Option.mem_def, hsome, Bool.not_false, Bool.true_and] at htext
    dsimp only at htext
    split at htext
    · cases htext
    · next hshown =>
      rw [textOrEmpty, htext] at hshown
      exact hshown hblank
  · have hbelow : heightAll (complete frame.element).children ≤ limits.depth - (level + 1) := by
      refine heightAll_le_iff.2 fun child hchild => ?_
      have hdepth := (hchildren child hchild).depth
      omega
    have hlevel := h.within
    rw [height_eq]
    omega

/-- What a start tag is read as is fit to be opened at its level, and to be attached if it is
empty. -/
theorem fits_of_readTag {tag : List Char} (hbuilding : building.Fits limits)
    (hstart : IsTagStart tag) (hread : readTag building.scope tag = .ok (element, inner))
    (hsize : element.attributes.size ≤ limits.attributes)
    (hdepth : building.frames.length + 1 ≤ limits.depth) (written : List Char) :
    Frame.Fits limits (building.frames.length + 1) ⟨written, inner, element⟩ ∧
      ParsedAt limits building.frames.length element := by
  obtain ⟨hlabels, hnames, hchildren⟩ := readTag_spec hstart hbuilding.hasLabels hread
  refine ⟨⟨hlabels, hnames, hsize, hdepth, ?_⟩, .intro ⟨hnames, hsize, ?_⟩ ?_, ?_⟩
  · rw [hchildren]
    nofun
  · exact fun hnonempty => absurd hchildren hnonempty
  · rw [hchildren]
    nofun
  · rw [height_eq, hchildren]
    exact hdepth

/-! ## Steps -/

/-- A tag that is taken is read within the limits. -/
theorem readTag_of_bind {tag : List Char} {build : Element × Scope → Except Error Building}
    (h : ((readTag building.scope tag).mapError .xml >>= fun read =>
      (limits.checkAttributes read.1.attributes.size).mapError .limit >>= fun _ =>
        (limits.checkDepth (building.frames.length + 1)).mapError .limit >>= fun _ =>
          build read) = .ok after) :
    ∃ element inner, readTag building.scope tag = .ok (element, inner) ∧
      element.attributes.size ≤ limits.attributes ∧ building.frames.length + 1 ≤ limits.depth ∧
        build (element, inner) = .ok after := by
  obtain ⟨⟨element, inner⟩, hread, h⟩ := bind_eq_ok.1 h
  obtain ⟨hsize, h⟩ := check_bind_eq_ok.1 h
  obtain ⟨hdepth, h⟩ := check_bind_eq_ok.1 h
  rw [mapError_eq_ok] at hread hsize hdepth
  exact ⟨element, inner, hread, Limits.checkAttributes_eq_ok.1 hsize,
    Limits.checkDepth_eq_ok.1 hdepth, h⟩

/-- A start tag keeps the state fit. -/
theorem fits_of_opening {tag : List Char} (hbuilding : building.Fits limits)
    (hstart : IsTagStart tag) (h : step limits building (.opening tag) = .ok after) :
    after.Fits limits := by
  obtain ⟨element, inner, hread, hsize, hdepth, hafter⟩ := readTag_of_bind h
  have hfits := fits_of_readTag hbuilding hstart hread hsize hdepth (Tag.name tag)
  cases hafter
  exact ⟨⟨hfits.1, hbuilding.frames⟩, hbuilding.root⟩

/-- The tag of an empty element keeps the state fit. -/
theorem fits_of_empty {tag : List Char} (hbuilding : building.Fits limits)
    (hstart : IsTagStart tag) (h : step limits building (.empty tag) = .ok after) :
    after.Fits limits := by
  obtain ⟨element, inner, hread, hsize, hdepth, hafter⟩ := readTag_of_bind h
  have hfits := fits_of_readTag hbuilding hstart hread hsize hdepth (Tag.name tag)
  exact fits_of_attach hbuilding hfits.2 (mapError_eq_ok.1 hafter)

/-- An end tag keeps the state fit. -/
theorem fits_of_closing {tag : List Char} {frame : Frame} {outer : List Frame}
    {root : Option Element} (hbuilding : Building.Fits limits ⟨frame :: outer, root⟩)
    (h : step limits ⟨frame :: outer, root⟩ (.closing tag) = .ok after) : after.Fits limits := by
  unfold step at h
  dsimp only at h
  split at h
  · have hcomplete : ParsedAt limits outer.length (complete frame.element) :=
      parsedAt_complete hbuilding.frames.1
    have houter : Building.Fits limits ⟨outer, root⟩ := ⟨hbuilding.frames.2, hbuilding.root⟩
    exact fits_of_attach houter hcomplete (mapError_eq_ok.1 h)
  · cases h

/-- Every token keeps the state fit. -/
theorem fits_of_step {token : Token} (hbuilding : building.Fits limits) (htoken : token.BeginsTag)
    (h : step limits building token = .ok after) : after.Fits limits := by
  obtain ⟨frames, root⟩ := building
  cases token with
  | opening tag => exact fits_of_opening hbuilding htoken h
  | empty tag => exact fits_of_empty hbuilding htoken h
  | closing tag =>
    cases frames with
    | nil => cases h
    | cons frame outer => exact fits_of_closing hbuilding h
  | text run =>
    cases frames with
    | nil =>
      cases h
      exact hbuilding
    | cons frame outer =>
      obtain ⟨text, _, h⟩ := bind_eq_ok.1 h
      cases h
      exact fits_of_addText hbuilding _
  | cdata run =>
    cases frames with
    | nil =>
      cases h
      exact hbuilding
    | cons frame outer =>
      cases h
      exact fits_of_addText hbuilding _
  | comment | instruction | doctype =>
    cases h
    exact hbuilding

/-- The state stays fit along all tokens. -/
theorem fits_of_foldlM {toks : List Token} (hbuilding : building.Fits limits)
    (htoks : ∀ token ∈ toks, token.BeginsTag)
    (h : toks.foldlM (step limits) building = .ok after) : after.Fits limits := by
  induction toks generalizing building with
  | nil =>
    cases h
    exact hbuilding
  | cons token rest ih =>
    rw [List.forall_mem_cons] at htoks
    rw [List.foldlM_cons, bind_eq_ok] at h
    obtain ⟨between, hfirst, hrest⟩ := h
    exact ih (fits_of_step hbuilding htoks.1 hfirst) htoks.2 hrest

/-- A document is finished when nothing but its root is left. -/
theorem finish_eq_ok {root : Element} :
    finish building = .ok root ↔ building = ⟨[], some root⟩ := by
  obtain ⟨frames, complete⟩ := building
  cases frames with
  | cons frame outer => simp [finish]
  | nil => cases complete <;> simp [finish]

/-- A text that is parsed leads through all of its tokens to a state with nothing but the root. -/
theorem run_of_parse {text : String} {root : Element} (h : Document.parse limits text = .ok root) :
    (tokens (withoutMark text.toList)).list.foldlM (step limits) Building.start =
      .ok ⟨[], some root⟩ := by
  unfold Document.parse at h
  obtain ⟨_, h⟩ := check_bind_eq_ok.1 h
  obtain ⟨building, hrun, h⟩ := bind_eq_ok.1 h
  split at h
  · cases h
  · rw [mapError_eq_ok, finish_eq_ok] at h
    rw [hrun, h]

/-- Whatever parsing gives is a tree within the limits, with the names and texts that reading can
give. -/
theorem parsed_of_parse {text : String} {root : Element}
    (h : Document.parse limits text = .ok root) :
    Everywhere (Parsed limits) root ∧ root.depth ≤ limits.depth := by
  have hfits :=
    fits_of_foldlM Building.fits_start (beginsTag_of_mem_tokens _) (run_of_parse h)
  have hparsed := hfits.root root rfl
  rw [depth_eq_height]
  refine ⟨hparsed.everywhere, ?_⟩
  have hdepth := hparsed.depth
  omega

end TypedXml.Xml
