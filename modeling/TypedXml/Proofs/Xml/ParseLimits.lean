import TypedXml.Instance.Decoding
import TypedXml.Proofs.TwoRuns
import TypedXml.Proofs.Xml.Reparsing

/-!
# The limits of parsing

Parsing looks at its limits at the size of the text and at every tag, where the depth is the number
of the elements that are open.  What it looks at can be seen in the tree that it gives: the depth at
a tag is the depth of an element in the tree, and no element is lost.  So the limits decide between
the tree and an error, and change nothing else.
-/

set_option autoImplicit false

namespace TypedXml.Xml

open Element Document

/-- Whether a text and the tree that it is parsed as keep limits. -/
structure Document.Keeps (limits : Limits) (text : String) (root : Element) : Prop where
  size : text.utf8ByteSize ≤ limits.size
  depth : root.depth ≤ limits.depth
  attributes : Everywhere (fun element => element.attributes.size ≤ limits.attributes) root

/-! ## States within limits -/

/-- Whether a tree below open elements of a number keeps limits. -/
structure Element.KeptAt (limits : Limits) (level : Nat) (element : Element) : Prop where
  attributes : Everywhere (fun element => element.attributes.size ≤ limits.attributes) element
  depth : level + element.height ≤ limits.depth

/-- Whether an open element at a level keeps limits. -/
structure Document.Frame.Within (limits : Limits) (level : Nat) (frame : Frame) : Prop where
  attributes : frame.element.attributes.size ≤ limits.attributes
  depth : level ≤ limits.depth
  children : ∀ child ∈ frame.element.children, KeptAt limits level child

/-- Whether open elements, innermost first, keep limits. -/
def Document.FramesWithin (limits : Limits) : List Frame → Prop
  | [] => True
  | frame :: outer => frame.Within limits (outer.length + 1) ∧ FramesWithin limits outer

/-- Whether a state keeps limits. -/
structure Document.Building.Within (limits : Limits) (building : Building) : Prop where
  frames : FramesWithin limits building.frames
  root : ∀ root ∈ building.root, KeptAt limits 0 root

/-- The state at the beginning of a document keeps all limits. -/
theorem Document.Building.within_start {limits : Limits} : Building.start.Within limits :=
  ⟨trivial, nofun⟩

variable {wide narrow : Limits} {element : Element} {inner : Scope} {building after : Building}

/-- An element that is complete keeps limits if it did while it was open. -/
theorem keptAt_complete_iff {frame : Frame} {level : Nat} :
    KeptAt narrow level (complete frame.element) ↔ frame.Within narrow (level + 1) := by
  have hchildren : ∀ child, child ∈ (complete frame.element).children ↔
      child ∈ frame.element.children := fun child => List.mem_reverse
  constructor
  · intro h
    have hdepth := h.depth
    rw [height_eq] at hdepth
    refine ⟨h.attributes.root, by omega, fun child hchild => ?_⟩
    have hmem := (hchildren child).2 hchild
    have hheight := heightAll_le_iff.1 (Nat.le_refl _) child hmem
    exact ⟨h.attributes.children child hmem, by omega⟩
  · intro h
    have hlevel := h.depth
    refine ⟨.intro h.attributes fun child hchild => ?_, ?_⟩
    · exact (h.children child ((hchildren child).1 hchild)).attributes
    · have hbelow : heightAll (complete frame.element).children ≤ narrow.depth - (level + 1) := by
        refine heightAll_le_iff.2 fun child hchild => ?_
        have hdepth := (h.children child ((hchildren child).1 hchild)).depth
        omega
      rw [height_eq]
      omega

/-- A state keeps limits behind a tree that is attached if it did before and the tree does. -/
theorem within_attach_iff (h : attach element building = .ok after) :
    after.Within narrow ↔
      building.Within narrow ∧ KeptAt narrow building.frames.length element := by
  obtain ⟨frames, root⟩ := building
  cases frames with
  | nil =>
    cases root with
    | some root => cases h
    | none =>
      cases h
      constructor
      · exact fun hwithin => ⟨⟨trivial, nofun⟩, hwithin.root element rfl⟩
      · rintro ⟨_, helement⟩
        refine ⟨trivial, ?_⟩
        rintro _ ⟨⟩
        exact helement
  | cons frame outer =>
    cases h
    constructor
    · rintro ⟨⟨hframe, houter⟩, hroot⟩
      have hchildren := List.forall_mem_cons.1 hframe.children
      exact ⟨⟨⟨⟨hframe.attributes, hframe.depth, hchildren.2⟩, houter⟩, hroot⟩, hchildren.1⟩
    · rintro ⟨⟨⟨hframe, houter⟩, hroot⟩, helement⟩
      have hchildren := List.forall_mem_cons.2 ⟨helement, hframe.children⟩
      exact ⟨⟨⟨hframe.attributes, hframe.depth, hchildren⟩, houter⟩, hroot⟩

/-- Text does not matter for the limits of a state. -/
theorem within_addText_iff {frame : Frame} {outer : List Frame} {root : Option Element}
    (text : List Char) :
    Building.Within narrow ⟨addText text frame :: outer, root⟩ ↔
      Building.Within narrow ⟨frame :: outer, root⟩ :=
  ⟨fun ⟨⟨⟨hattributes, hlevel, hchildren⟩, houter⟩, hroot⟩ =>
      ⟨⟨⟨hattributes, hlevel, hchildren⟩, houter⟩, hroot⟩,
    fun ⟨⟨⟨hattributes, hlevel, hchildren⟩, houter⟩, hroot⟩ =>
      ⟨⟨⟨hattributes, hlevel, hchildren⟩, houter⟩, hroot⟩⟩

/-! ## Tags -/

/-- What a tag does to a state is the same under other limits as long as they are kept, if the
state behind it tells whether they are. -/
theorem narrows_tag {tag : List Char} {build : Element × Scope → Except Error Building}
    (hbuild : ∀ element inner after, element.children = [] → build (element, inner) = .ok after →
      (after.Within narrow ↔ element.attributes.size ≤ narrow.attributes ∧
        building.frames.length + 1 ≤ narrow.depth)) :
    Narrows (Building.Within narrow)
      ((readTag building.scope tag).mapError .xml >>= fun read =>
        (wide.checkAttributes read.1.attributes.size).mapError .limit >>= fun _ =>
          (wide.checkDepth (building.frames.length + 1)).mapError .limit >>= fun _ => build read)
      ((readTag building.scope tag).mapError .xml >>= fun read =>
        (narrow.checkAttributes read.1.attributes.size).mapError .limit >>= fun _ =>
          (narrow.checkDepth (building.frames.length + 1)).mapError .limit >>= fun _ =>
            build read) := by
  refine Narrows.bind_same ?_
  rintro ⟨element, inner⟩ hread
  obtain ⟨_, _, _, hchildren⟩ := parts_of_readTag (mapError_eq_ok.1 hread)
  refine (narrows_check Limits.checkAttributes_eq_ok _).bind (fun _ _ hsize => ?_) ?_
  · refine (narrows_check Limits.checkDepth_eq_ok _).bind (fun _ _ hdepth => ?_) ?_
    · exact .of_ok fun after hafter =>
        ⟨(hbuild element inner after hchildren hafter).2 ⟨hsize, hdepth⟩, hafter⟩
    · intro _ after _ hafter hwithin
      exact ((hbuild element inner after hchildren hafter).1 hwithin).2
  · intro _ after _ hafter hwithin
    obtain ⟨_, _, hafter⟩ := bind_eq_ok.1 hafter
    exact ((hbuild element inner after hchildren hafter).1 hwithin).1

/-! ## Steps -/

/-- A state that keeps limits comes from one that does. -/
theorem within_of_step {token : Token} (h : step wide building token = .ok after)
    (hafter : after.Within narrow) : building.Within narrow := by
  obtain ⟨frames, root⟩ := building
  cases token with
  | opening tag =>
    obtain ⟨_, _, _, _, _, hbuild⟩ := readTag_of_bind h
    cases hbuild
    exact ⟨hafter.frames.2, hafter.root⟩
  | empty tag =>
    obtain ⟨_, _, _, _, _, hbuild⟩ := readTag_of_bind h
    exact ((within_attach_iff (mapError_eq_ok.1 hbuild)).1 hafter).1
  | closing tag =>
    cases frames with
    | nil => cases h
    | cons frame outer =>
      unfold step at h
      dsimp only at h
      split at h
      · obtain ⟨houter, hcomplete⟩ := (within_attach_iff (mapError_eq_ok.1 h)).1 hafter
        exact ⟨⟨keptAt_complete_iff.1 hcomplete, houter.frames⟩, houter.root⟩
      · cases h
  | text run =>
    cases frames with
    | nil =>
      cases h
      exact hafter
    | cons frame outer =>
      obtain ⟨text, _, h⟩ := bind_eq_ok.1 h
      cases h
      exact (within_addText_iff text).1 hafter
  | cdata run =>
    cases frames with
    | nil =>
      cases h
      exact hafter
    | cons frame outer =>
      cases h
      exact (within_addText_iff run).1 hafter
  | comment | instruction | doctype =>
    cases h
    exact hafter

/-- A token does the same under other limits if they are kept behind it. -/
theorem narrows_step (h : building.Within narrow) (token : Token) :
    Narrows (Building.Within narrow) (step wide building token) (step narrow building token) := by
  -- an element without children is no higher than its tag
  have hempty : ∀ {element : Element}, element.children = [] →
      (KeptAt narrow building.frames.length element ↔
        element.attributes.size ≤ narrow.attributes ∧
          building.frames.length + 1 ≤ narrow.depth) := by
    intro element hchildren
    constructor
    · intro hkept
      have hdepth := hkept.depth
      rw [height_eq, hchildren] at hdepth
      exact ⟨hkept.attributes.root, hdepth⟩
    · rintro ⟨hsize, hdepth⟩
      refine ⟨.intro hsize ?_, ?_⟩
      · rw [hchildren]
        nofun
      · rw [height_eq, hchildren]
        exact hdepth
  obtain ⟨frames, root⟩ := building
  cases token with
  | opening tag =>
    refine narrows_tag ?_
    rintro element inner _ hchildren ⟨⟩
    constructor
    · exact fun hafter => ⟨hafter.frames.1.attributes, hafter.frames.1.depth⟩
    · rintro ⟨hsize, hdepth⟩
      refine ⟨⟨⟨hsize, hdepth, ?_⟩, h.frames⟩, h.root⟩
      rw [hchildren]
      nofun
  | empty tag =>
    refine narrows_tag ?_
    intro element inner after hchildren hafter
    rw [within_attach_iff (mapError_eq_ok.1 hafter), and_iff_right h]
    exact hempty hchildren
  | closing tag =>
    cases frames with
    | nil => exact .of_ok nofun
    | cons frame outer =>
      refine .of_ok fun after hafter => ⟨?_, hafter⟩
      unfold step at hafter
      dsimp only at hafter
      split at hafter
      · rw [within_attach_iff (mapError_eq_ok.1 hafter), keptAt_complete_iff]
        exact ⟨⟨h.frames.2, h.root⟩, h.frames.1⟩
      · cases hafter
  | text run =>
    cases frames with
    | nil => exact .ok h
    | cons frame outer =>
      refine .of_ok fun after hafter => ⟨?_, hafter⟩
      obtain ⟨text, _, hafter⟩ := bind_eq_ok.1 hafter
      cases hafter
      exact (within_addText_iff text).2 h
  | cdata run =>
    cases frames with
    | nil => exact .ok h
    | cons frame outer => exact .ok ((within_addText_iff run).2 h)
  | comment | instruction | doctype => exact .ok h

/-- A state with nothing but the root keeps limits if and only if the root does. -/
theorem within_root_iff {root : Element} :
    Building.Within narrow ⟨[], some root⟩ ↔ KeptAt narrow 0 root := by
  constructor
  · exact fun hwithin => hwithin.root root rfl
  · intro hkept
    refine ⟨trivial, ?_⟩
    rintro _ ⟨⟩
    exact hkept

/-! ## Documents -/

/-- A text and its tree keep limits if and only if the text keeps the one on size and the tree the
others. -/
theorem keeps_iff {text : String} {root : Element} :
    Keeps narrow text root ↔ text.utf8ByteSize ≤ narrow.size ∧ KeptAt narrow 0 root := by
  have hdepth : root.depth ≤ narrow.depth ↔ 0 + root.height ≤ narrow.depth := by
    rw [depth_eq_height, Nat.zero_add]
  constructor
  · rintro ⟨hsize, hkept, hattributes⟩
    exact ⟨hsize, hattributes, hdepth.1 hkept⟩
  · rintro ⟨hsize, hattributes, hkept⟩
    exact ⟨hsize, hdepth.2 hkept, hattributes⟩

/-- Parsing under some limits, compared with parsing under others. -/
theorem parse_narrows {text : String} :
    Narrows (Keeps narrow text) (Document.parse wide text) (Document.parse narrow text) := by
  have hrun : Narrows (Building.Within narrow)
      ((tokens (withoutMark text.toList)).list.foldlM (step wide) Building.start)
      ((tokens (withoutMark text.toList)).list.foldlM (step narrow) Building.start) :=
    Narrows.foldlM (fun _ token h => narrows_step h token) (fun _ _ _ => within_of_step)
      Building.within_start
  unfold Document.parse
  refine (narrows_check Limits.checkSize_eq_ok _).bind (fun _ _ hsize => ?_) ?_
  · refine hrun.bind (fun building _ hbuilding => .of_ok fun root hroot => ⟨?_, hroot⟩) ?_
    · split at hroot
      · cases hroot
      · rw [mapError_eq_ok, finish_eq_ok] at hroot
        subst hroot
        exact keeps_iff.2 ⟨hsize, within_root_iff.1 hbuilding⟩
    · intro building root _ hroot hkeeps
      split at hroot
      · cases hroot
      · rw [mapError_eq_ok, finish_eq_ok] at hroot
        subst hroot
        exact within_root_iff.2 (keeps_iff.1 hkeeps).2
  · exact fun _ root _ _ hkeeps => (keeps_iff.1 hkeeps).1

/-- What is parsed under limits keeps them. -/
theorem keeps_of_parse {limits : Limits} {text : String} {root : Element}
    (h : Document.parse limits text = .ok root) : Keeps limits text root := by
  by_contra hbeyond
  obtain ⟨exceeded, hfailed⟩ := parse_narrows.beyond root h hbeyond
  cases h.symm.trans hfailed

/-- The limits of parsing are exact and only ever reject.  A text that is parsed under some limits
is parsed as the same tree under any others that it keeps together with its tree, and exceeds a
limit under the ones that it does not keep.  As it keeps the limits that it was parsed under, a
schema with these never finds the tree too deep when it reads it on. -/
theorem parse_under {text : String} {root : Element} (h : Document.parse wide text = .ok root) :
    (Keeps narrow text root → Document.parse narrow text = .ok root) ∧
      (¬ Keeps narrow text root → ExceedsLimit (Document.parse narrow text)) ∧
      ∀ schema : Schema, schema.limits = wide →
        schema.deserialize text = schema.decodeElement root ∧
          schema.limits.checkDepth root.depth = .ok () := by
  refine ⟨parse_narrows.within root h, parse_narrows.beyond root h, ?_⟩
  rintro schema rfl
  exact ⟨bind_of_eq_ok h, Limits.checkDepth_eq_ok.2 (keeps_of_parse h).depth⟩

/-- A memo with one attribute in a namespace, a child and a text. -/
def memoText : String := "<m:memo xmlns:m=\"urn:memo\" m:to=\"all\"> <mark/>done</m:memo>"

/-- The memo is parsed under a limit of two levels and one attribute; no narrower limit lets it
through. -/
theorem parse_memo_under :
    Document.parse { depth := 2, attributes := 1 } memoText = .ok memo ∧
      ExceedsLimit (Document.parse { depth := 1 } memoText) ∧
      ExceedsLimit (Document.parse { attributes := 0 } memoText) ∧
      ExceedsLimit (Document.parse { size := 10 } memoText) := by
  have hparse : Document.parse {} memoText = .ok memo := parse_memo
  have hdepth : memo.depth = 2 := depth_eq_height memo
  refine ⟨(parse_under hparse).1 ⟨by decide +kernel, hdepth.le, ?_⟩, ?_, ?_, ?_⟩
  · exact .intro (by decide) (List.forall_mem_singleton.2 (.intro (by decide) nofun))
  · refine (parse_under hparse).2.1 fun hkeeps => ?_
    have hkept := hkeeps.depth
    rw [hdepth] at hkept
    exact absurd hkept (by decide)
  · exact (parse_under hparse).2.1 fun hkeeps => absurd hkeeps.attributes.root (by decide)
  · exact (parse_under hparse).2.1 fun hkeeps => absurd hkeeps.size (by decide +kernel)

end TypedXml.Xml
