import TypedXml.Proofs.Xml.Reparsing
import TypedXml.Proofs.Xml.Written

/-!
# What parsing keeps

Every element that is written in a document is an element of the tree that it is parsed as, in the
same place.  Its attributes are kept as long as their names in the tree are distinct, and its
character data as one text.  Data is dropped in two places: outside of the root, and in front of
children, where an element has nothing but blanks for its text.
-/

set_option autoImplicit false

namespace TypedXml.Xml

open Document Document.Building

/-! ## Attributes -/

/-- The attributes of a tag but the namespace declarations. -/
def Tag.plain (items : List Tag.Item) : List WrittenAttribute :=
  (Tag.wellFormed items).filter fun written => (declaredPrefix? written.key).isNone

/-- Whether an attribute that is written in a scope has a name and a value. -/
def Scope.Reads (scope : Scope) (written : WrittenAttribute) (entry : Name × String) : Prop :=
  scope.resolve none written.key = .ok entry.1 ∧
    ∃ value, unescape written.value = .ok value ∧ entry.2 = String.ofList value

/-- An attribute has one name and one value in a scope. -/
theorem Scope.Reads.unique {scope : Scope} {written : WrittenAttribute}
    {entry other : Name × String} (h : scope.Reads written entry)
    (hother : scope.Reads written other) : other = entry := by
  obtain ⟨hname, value, hvalue, hentry⟩ := h
  obtain ⟨hnameOther, valueOther, hvalueOther, hentryOther⟩ := hother
  rw [hname, Except.ok.injEq] at hnameOther
  rw [hvalue, Except.ok.injEq] at hvalueOther
  refine Prod.ext hnameOther.symm ?_
  rw [hentry, hentryOther, hvalueOther]

/-- Whether no two attributes have one name in a scope and different values. -/
def Scope.Separates (scope : Scope) (items : List Tag.Item) : Prop :=
  ∀ written ∈ Tag.plain items, ∀ other ∈ Tag.plain items, ∀ entry otherEntry,
    scope.Reads written entry → scope.Reads other otherEntry →
      otherEntry.1 = entry.1 → otherEntry.2 = entry.2

/-- An attribute alone has a name to itself. -/
theorem Scope.separates_of_singleton {scope : Scope} {items : List Tag.Item}
    {own : WrittenAttribute} (h : Tag.plain items = [own]) : scope.Separates items := by
  rw [Scope.Separates, h, List.forall_mem_singleton, List.forall_mem_singleton]
  intro entry other hreads hreadsOther _
  rw [hreads.unique hreadsOther]

/-- Attributes are read one after the other, the last one of a name counts. -/
theorem exists_entries_of_readAttributes {scope : Scope} {seen : List WrittenAttribute}
    {read attributes : Attributes} {items : List Tag.Item}
    (h : readAttributes scope seen read items = .ok attributes) :
    ∃ entries, List.Forall₂ scope.Reads (Tag.plain items) entries ∧
      attributes.entries = entries.foldl (fun entries entry =>
        Entries.insert entry.1 entry.2 entries) read.entries := by
  induction items generalizing seen read with
  | nil =>
    cases h
    exact ⟨[], .nil, rfl⟩
  | cons item rest ih =>
    obtain ⟨written, hcheck, hread⟩ := bind_eq_ok.1 h
    obtain rfl := Tag.check_eq_ok hcheck
    split at hread
    · next hdeclares =>
      obtain ⟨entries, hentries, hattributes⟩ := ih hread
      refine ⟨entries, ?_, hattributes⟩
      rw [Tag.plain, Tag.wellFormed, List.filter_cons_of_neg (by
        simpa [Option.isSome_iff_ne_none] using hdeclares)]
      exact hentries
    · next hplain =>
      obtain ⟨name, hname, hread⟩ := bind_eq_ok.1 hread
      obtain ⟨value, hvalue, hread⟩ := bind_eq_ok.1 hread
      obtain ⟨entries, hentries, hattributes⟩ := ih hread
      refine ⟨(name, String.ofList value) :: entries, ?_, hattributes⟩
      rw [Tag.plain, Tag.wellFormed, List.filter_cons_of_pos (by simpa using hplain)]
      exact .cons ⟨hname, value, mapError_eq_ok.1 hvalue, rfl⟩ hentries

/-! ## Trees for what is written -/

namespace Written

/-- Whether elements are those of what is written in a scope, one by one and all the way down, each
with a condition on the scope inside of it, its tag, what is written inside and the element. -/
inductive Matches (P : Scope → List Char → Written → Element → Prop) :
    Scope → Written → List Element → Prop
  | nil {scope : Scope} : Matches P scope .nil []
  | piece {scope : Scope} {token : Token} {untagged : token.isTag = false} {rest : Written}
      {elements : List Element} (behind : Matches P scope rest elements) :
      Matches P scope (.piece token untagged rest) elements
  | empty {scope inner : Scope} {tag : List Char} {rest : Written} {element : Element}
      {elements : List Element} (entered : scope.enter (Tag.wellFormed (Tag.items tag)) = .ok inner)
      (here : P inner tag .nil element) (within : Matches P inner .nil element.children)
      (behind : Matches P scope rest elements) :
      Matches P scope (.empty tag rest) (element :: elements)
  | element {scope inner : Scope} {tag closing : List Char} {inside rest : Written}
      {element : Element} {elements : List Element}
      (entered : scope.enter (Tag.wellFormed (Tag.items tag)) = .ok inner)
      (here : P inner tag inside element) (within : Matches P inner inside element.children)
      (behind : Matches P scope rest elements) :
      Matches P scope (.element tag inside closing rest) (element :: elements)

variable {P Q R : Scope → List Char → Written → Element → Prop} {scope : Scope} {written : Written}
  {elements : List Element}

/-- Two conditions on what is written go over into a third one that they imply together. -/
theorem Matches.imp (h : Matches P scope written elements)
    (hother : Matches Q scope written elements)
    (himp : ∀ inner tag inside element, P inner tag inside element → Q inner tag inside element →
      R inner tag inside element) : Matches R scope written elements := by
  induction h with
  | nil => exact .nil
  | piece _ ih =>
    cases hother with
    | piece behind => exact .piece (ih behind)
  | empty entered here _ _ ihWithin ihBehind =>
    cases hother with
    | empty enteredOther hereOther within behind =>
      rw [entered] at enteredOther
      cases enteredOther
      exact .empty entered (himp _ _ _ _ here hereOther) (ihWithin within) (ihBehind behind)
  | element entered here _ _ ihWithin ihBehind =>
    cases hother with
    | element enteredOther hereOther within behind =>
      rw [entered] at enteredOther
      cases enteredOther
      exact .element entered (himp _ _ _ _ here hereOther) (ihWithin within) (ihBehind behind)

/-- Where one condition holds, two others that it makes equivalent hold together. -/
theorem Matches.congr (h : Matches P scope written elements)
    (hiff : ∀ inner tag inside element, P inner tag inside element →
      (Q inner tag inside element ↔ R inner tag inside element)) :
    Matches Q scope written elements ↔ Matches R scope written elements :=
  ⟨fun hq => h.imp hq fun inner tag inside element hp => (hiff inner tag inside element hp).1,
    fun hr => h.imp hr fun inner tag inside element hp => (hiff inner tag inside element hp).2⟩

/-- How an element comes from what is written. -/
structure IsRead (inner : Scope) (tag : List Char) (inside : Written) (element : Element) :
    Prop where
  attributes : readAttributes inner [] .empty (Tag.items tag) = .ok element.attributes
  /-- Blanks in front of children are dropped. -/
  text : element.text =
    if !element.children.isEmpty &&
      ((addPieces none inside.data).getD "").toList.all Text.isBlank then none
    else addPieces none inside.data

variable {limits : Limits} {building after : Building}

/-- The tag of an empty element is read as an element with nothing inside. -/
theorem isRead_of_empty {outer inner : Scope} {tag : List Char} {element : Element}
    (h : readTag outer tag = .ok (element, inner)) : IsRead inner tag .nil element := by
  obtain ⟨_, hattributes, htext, hchildren⟩ := parts_of_readTag h
  refine ⟨hattributes, ?_⟩
  rw [htext, hchildren]
  rfl

/-- What stands between the tags of an element is its data and its children when it is completed. -/
theorem isRead_complete {outer inner : Scope} {tag : List Char} {element : Element}
    (h : readTag outer tag = .ok (element, inner)) (inside : Written) (children : List Element) :
    (complete (Frame.grown ⟨Tag.name tag, inner, element⟩ children inside.data).element).children =
        children ∧
      IsRead inner tag inside
        (complete (Frame.grown ⟨Tag.name tag, inner, element⟩ children inside.data).element) := by
  obtain ⟨_, hattributes, htext, hchildren⟩ := parts_of_readTag h
  refine ⟨?_, hattributes, ?_⟩
  · simp [complete, Frame.grown, hchildren]
  · simp [complete, Frame.grown, hchildren, htext, Element.textOrEmpty]

/-- What is written is read one by one, and put where it stands. -/
theorem grows_of_tokens (h : written.tokens.foldlM (step limits) building = .ok after) :
    ∃ elements, Matches IsRead building.scope written elements ∧
      Grows elements written.data building after := by
  induction written generalizing building after with
  | nil =>
    cases h
    exact ⟨[], .nil, .refl _⟩
  | piece token untagged rest ih =>
    obtain ⟨between, hstep, hrest⟩ := bind_eq_ok.1 h
    have hfirst := grows_of_piece untagged hstep
    obtain ⟨elements, hmatches, hgrows⟩ := ih hrest
    rw [hfirst.scope_eq] at hmatches
    exact ⟨elements, .piece hmatches, hfirst.trans hgrows⟩
  | empty tag rest ih =>
    obtain ⟨between, hstep, hrest⟩ := bind_eq_ok.1 h
    obtain ⟨element, inner, hread, hfirst⟩ := grows_of_empty hstep
    obtain ⟨elements, hmatches, hgrows⟩ := ih hrest
    rw [hfirst.scope_eq] at hmatches
    obtain ⟨henter, _, _, hchildren⟩ := parts_of_readTag hread
    refine ⟨element :: elements, .empty henter (isRead_of_empty hread) ?_ hmatches,
      hfirst.trans hgrows⟩
    rw [hchildren]
    exact .nil
  | element tag inside closing rest ihInside ihRest =>
    obtain ⟨opened, hopening, hbehind⟩ := bind_eq_ok.1 h
    obtain ⟨element, inner, hread, rfl⟩ := opens_of_opening hopening
    rw [List.foldlM_append] at hbehind
    obtain ⟨filled, hinside, hbehind⟩ := bind_eq_ok.1 hbehind
    obtain ⟨between, hclosing, hrest⟩ := bind_eq_ok.1 hbehind
    obtain ⟨children, hwithin, hfilled⟩ := ihInside hinside
    -- what is inside goes to the element itself, which is still the innermost one at its end tag
    cases hfilled
    obtain ⟨frame, outer, hframes, hfirst⟩ := grows_of_closing hclosing
    cases hframes
    obtain ⟨elements, hmatches, hgrows⟩ := ihRest hrest
    rw [hfirst.scope_eq] at hmatches
    obtain ⟨hchildren, hisRead⟩ := isRead_complete hread inside children
    refine ⟨_, .element (parts_of_readTag hread).1 hisRead ?_ hmatches, hfirst.trans hgrows⟩
    rw [hchildren]
    exact hwithin

end Written

/-! ## Data that is kept -/

/-- Whether pieces of data are kept in a text, in order, but for white space. -/
inductive KeptPieces : List (List Char) → List Char → Prop
  | nil : KeptPieces [] []
  | kept (piece : List Char) {rest : List (List Char)} {text : List Char}
      (behind : KeptPieces rest text) : KeptPieces (piece :: rest) (piece ++ text)
  | dropped {piece : List Char} {rest : List (List Char)} {text : List Char}
      (blank : piece.all Text.isMarkupSpace = true) (behind : KeptPieces rest text) :
      KeptPieces (piece :: rest) text

/-- Pieces are kept in what they are together. -/
theorem keptPieces_flatten (pieces : List (List Char)) : KeptPieces pieces pieces.flatten := by
  induction pieces with
  | nil => exact .nil
  | cons piece rest ih => exact .kept piece ih

/-- Nothing is left of pieces if and only if they are white space. -/
theorem keptPieces_nil_iff {pieces : List (List Char)} :
    KeptPieces pieces [] ↔ ∀ piece ∈ pieces, piece.all Text.isMarkupSpace = true := by
  induction pieces with
  | nil => exact ⟨fun _ => nofun, fun _ => .nil⟩
  | cons piece rest ih =>
    rw [List.forall_mem_cons, ← ih]
    constructor
    · intro h
      generalize htext : ([] : List Char) = text at h
      cases h with
      | kept _ behind =>
        obtain ⟨rfl, rfl⟩ := List.append_eq_nil_iff.1 htext.symm
        exact ⟨rfl, behind⟩
      | dropped blank behind =>
        subst htext
        exact ⟨blank, behind⟩
    · exact fun h => .dropped h.1 h.2

/-- Pieces are added behind a text, in order. -/
theorem getD_addPieces (text : Option String) (pieces : List (List Char)) :
    ((addPieces text pieces).getD "").toList = (text.getD "").toList ++ pieces.flatten := by
  induction pieces generalizing text with
  | nil => exact (List.append_nil _).symm
  | cons piece rest ih =>
    have hfirst : addPieces text (piece :: rest) =
        addPieces (some (text.getD "" ++ String.ofList piece)) rest := rfl
    rw [hfirst, ih]
    simp

namespace Written

/-- Whether an element keeps the attributes and the character data that it is written with. -/
structure Kept (inner : Scope) (tag : List Char) (inside : Written) (element : Element) : Prop where
  attributes : ∀ written ∈ Tag.plain (Tag.items tag),
    ∃ entry ∈ element.attributes.entries, inner.Reads written entry
  data : KeptPieces inside.data element.textOrEmpty.toList

/-- Whether an element is written such that it keeps everything: no two attributes have one name and
different values, and in front of children there are no blanks but white space alone. -/
structure Harmless (inner : Scope) (tag : List Char) (inside : Written) (element : Element) :
    Prop where
  attributes : inner.Separates (Tag.items tag)
  data : element.children ≠ [] → (∀ piece ∈ inside.data, piece.all Text.isBlank = true) →
    ∀ piece ∈ inside.data, piece.all Text.isMarkupSpace = true

variable {inner : Scope} {tag : List Char} {inside : Written} {element : Element}

/-- An element keeps its attributes if and only if no two of them have one name and different
values. -/
theorem IsRead.keeps_attributes_iff (h : IsRead inner tag inside element) :
    (∀ written ∈ Tag.plain (Tag.items tag),
        ∃ entry ∈ element.attributes.entries, inner.Reads written entry) ↔
      inner.Separates (Tag.items tag) := by
  obtain ⟨entries, hentries, hattributes⟩ := exists_entries_of_readAttributes h.attributes
  have hall : element.attributes.entries = Entries.ofPairs entries := hattributes
  have hread : ∀ written ∈ Tag.plain (Tag.items tag),
      ∃ entry ∈ entries, inner.Reads written entry :=
    fun written hmem => exists_of_mem_results hentries.flip hmem
  have hwritten : ∀ entry ∈ entries, ∃ written ∈ Tag.plain (Tag.items tag),
      inner.Reads written entry :=
    fun entry hentry => exists_of_mem_results hentries hentry
  have hdistinct : (∀ entry ∈ entries, entry ∈ Entries.ofPairs entries) ↔
      ∀ entry ∈ entries, ∀ other ∈ entries, other.1 = entry.1 → other.2 = entry.2 :=
    Entries.forall_mem_ofPairs_iff
  rw [hall]
  constructor
  · intro hkept written hmem other hmemOther entry otherEntry hreads hreadsOther
    have hpairs : ∀ entry ∈ entries, entry ∈ Entries.ofPairs entries := by
      intro entry hentry
      obtain ⟨written, hmem, hreads⟩ := hwritten entry hentry
      obtain ⟨found, hfound, hreadsFound⟩ := hkept written hmem
      rwa [hreads.unique hreadsFound] at hfound
    obtain ⟨found, hfound, hreadsFound⟩ := hread written hmem
    obtain ⟨foundOther, hfoundOther, hreadsFoundOther⟩ := hread other hmemOther
    rw [hreadsFound.unique hreads, hreadsFoundOther.unique hreadsOther]
    exact hdistinct.1 hpairs found hfound foundOther hfoundOther
  · intro hsame written hmem
    obtain ⟨entry, hentry, hreads⟩ := hread written hmem
    refine ⟨entry, hdistinct.2 ?_ entry hentry, hreads⟩
    intro entry hentry other hother
    obtain ⟨written, hmem, hreads⟩ := hwritten entry hentry
    obtain ⟨writtenOther, hmemOther, hreadsOther⟩ := hwritten other hother
    exact hsame written hmem writtenOther hmemOther entry other hreads hreadsOther

/-- An element keeps its data if and only if what is dropped in front of children is white space. -/
theorem IsRead.keeps_data_iff (h : IsRead inner tag inside element) :
    KeptPieces inside.data element.textOrEmpty.toList ↔
      (element.children ≠ [] → (∀ piece ∈ inside.data, piece.all Text.isBlank = true) →
        ∀ piece ∈ inside.data, piece.all Text.isMarkupSpace = true) := by
  have htext : ((addPieces none inside.data).getD "").toList = inside.data.flatten :=
    getD_addPieces none inside.data
  have hblank : inside.data.flatten.all Text.isBlank = true ↔
      ∀ piece ∈ inside.data, piece.all Text.isBlank = true := by
    rw [List.all_flatten, List.all_eq_true]
  rw [Element.textOrEmpty, h.text, htext]
  split
  · next hdropped =>
    rw [Bool.and_eq_true, Bool.not_eq_true', List.isEmpty_eq_false_iff, hblank] at hdropped
    refine keptPieces_nil_iff.trans ⟨fun hspace _ _ => hspace, fun hspace => ?_⟩
    exact hspace hdropped.1 hdropped.2
  · next hkept =>
    rw [htext]
    refine iff_of_true (keptPieces_flatten _) fun hchildren hblanks => absurd ?_ hkept
    rw [Bool.and_eq_true, Bool.not_eq_true', List.isEmpty_eq_false_iff, hblank]
    exact ⟨hchildren, hblanks⟩

/-- An element keeps everything if and only if it is written such that nothing gets lost. -/
theorem IsRead.kept_iff (h : IsRead inner tag inside element) :
    Kept inner tag inside element ↔ Harmless inner tag inside element :=
  ⟨fun ⟨hattributes, hdata⟩ => ⟨h.keeps_attributes_iff.1 hattributes, h.keeps_data_iff.1 hdata⟩,
    fun ⟨hattributes, hdata⟩ => ⟨h.keeps_attributes_iff.2 hattributes, h.keeps_data_iff.2 hdata⟩⟩

end Written

/-! ## Documents -/

/-- Whether what is written in a document is kept in its tree: all character data but white space,
and all attributes but namespace declarations. -/
structure Document.KeepsContent (document : Written) (root : Element) : Prop where
  outside : ∀ piece ∈ document.data, piece.all Text.isMarkupSpace = true
  inside : document.Matches Written.Kept .outermost [root]

/-- What a text is, taken apart. -/
def Written.IsOf (document : Written) (text : String) : Prop :=
  document.tokens = (Xml.tokens (withoutMark text.toList)).list

/-- A text that is parsed is taken apart in one way, and its elements are those of its tree. -/
theorem matches_of_parse {limits : Limits} {text : String} {root : Element} {document : Written}
    (h : Document.parse limits text = .ok root) (hdocument : document.IsOf text) :
    document.Matches Written.IsRead .outermost [root] := by
  have hrun := run_of_parse h
  rw [← hdocument] at hrun
  obtain ⟨elements, hmatches, hgrows⟩ := Written.grows_of_tokens hrun
  have hroot : Grows elements document.data ⟨[], none⟩ ⟨[], some root⟩ := hgrows
  cases hroot with
  | outside h =>
    obtain rfl : [root] = elements := h
    exact hmatches

/-- A text that is parsed is taken apart in one way only, into elements that are those of its tree.
The tree keeps its character data but white space, and its attributes but namespace declarations, if
and only if there is nothing but white space outside of the root, no element has blanks other than
white space as its only text in front of children, and no element has two attributes with one name
and different values. -/
theorem keepsContent_iff_harmless {limits : Limits} {text : String} {root : Element}
    (h : Document.parse limits text = .ok root) :
    (∃! document : Written, document.IsOf text) ∧
      ∀ document : Written, document.IsOf text →
        (KeepsContent document root ↔
          (∀ piece ∈ document.data, piece.all Text.isMarkupSpace = true) ∧
            document.Matches Written.Harmless .outermost [root]) := by
  refine ⟨?_, fun document hdocument => ?_⟩
  · obtain ⟨document, more, hjoined, hmore⟩ := exists_joined (run_of_parse h) rfl
    obtain rfl : more = [] := List.eq_nil_of_length_eq_zero hmore
    exact ⟨document, hjoined.symm, fun other hother =>
      Written.tokens_injective (hother.trans hjoined)⟩
  · have hmatches := matches_of_parse h hdocument
    have hiff := hmatches.congr fun _ _ _ _ hread => hread.kept_iff
    exact ⟨fun ⟨houtside, hinside⟩ => ⟨houtside, hiff.1 hinside⟩,
      fun ⟨houtside, hinside⟩ => ⟨houtside, hiff.2 hinside⟩⟩

/-- The tokens of the memo, taken apart. -/
def writtenMemo : Written :=
  .element "m:memo xmlns:m=\"urn:memo\" m:to=\"all\"".toList
    (.piece (.text [' ']) rfl (.empty "mark".toList (.piece (.text "done".toList) rfl .nil)))
    "m:memo".toList .nil

/-- The tokens of the memo are those of its text. -/
theorem isOf_writtenMemo :
    writtenMemo.IsOf "<m:memo xmlns:m=\"urn:memo\" m:to=\"all\"> <mark/>done</m:memo>" := by
  have hopening :
      Token.next "<m:memo xmlns:m=\"urn:memo\" m:to=\"all\"> <mark/>done</m:memo>".toList =
        .ok (some (.opening "m:memo xmlns:m=\"urn:memo\" m:to=\"all\"".toList,
          " <mark/>done</m:memo>".toList)) := by decide +kernel
  have hspace : Token.next " <mark/>done</m:memo>".toList =
      .ok (some (.text [' '], "<mark/>done</m:memo>".toList)) := by decide +kernel
  have hempty : Token.next "<mark/>done</m:memo>".toList =
      .ok (some (.empty "mark".toList, "done</m:memo>".toList)) := by decide +kernel
  have htext : Token.next "done</m:memo>".toList =
      .ok (some (.text "done".toList, "</m:memo>".toList)) := by decide +kernel
  have hclosing : Token.next "</m:memo>".toList = .ok (some (.closing "m:memo".toList, [])) := by
    decide +kernel
  have hmark : withoutMark
      "<m:memo xmlns:m=\"urn:memo\" m:to=\"all\"> <mark/>done</m:memo>".toList =
        "<m:memo xmlns:m=\"urn:memo\" m:to=\"all\"> <mark/>done</m:memo>".toList := rfl
  rw [Written.IsOf, hmark, tokens_of_next hopening, tokens_of_next hspace, tokens_of_next hempty,
    tokens_of_next htext, tokens_of_next hclosing, tokens_nil]
  rfl

/-- The memo keeps everything that it is written with. -/
theorem keepsContent_memo : KeepsContent writtenMemo Element.memo := by
  have henter : Scope.outermost.enter
      (Tag.wellFormed (Tag.items "m:memo xmlns:m=\"urn:memo\" m:to=\"all\"".toList)) =
        .ok ⟨("m".toList, "urn:memo".toList) :: Scope.outermost.bindings⟩ := by decide +kernel
  refine ((keepsContent_iff_harmless Element.parse_memo).2 writtenMemo isOf_writtenMemo).2
    ⟨nofun, .element henter ⟨?_, ?_⟩ (.piece (.empty rfl ⟨nofun, nofun⟩ .nil (.piece .nil))) .nil⟩
  · have hplain : Tag.plain (Tag.items "m:memo xmlns:m=\"urn:memo\" m:to=\"all\"".toList) =
        [⟨"m:to".toList, 26, "all".toList⟩] := by decide +kernel
    exact Scope.separates_of_singleton hplain
  · intro _ hblank
    exact absurd (hblank "done".toList (by decide)) (by decide)

/-- The law that parsing a text keeps its content. -/
def KeepsAll (text : String) : Prop :=
  ∀ root, parse text = .ok root → ∀ document : Written, document.IsOf text →
    KeepsContent document root

/-- A text that is parsed, but not with everything that it is written with, goes against the law. -/
theorem not_keepsAll {text : String} {root : Element} (document : Written)
    (hsize : text.utf8ByteSize ≤ ({} : Limits).size) (hmark : withoutMark text.toList = text.toList)
    (htokens : Xml.tokens text.toList = ⟨document.tokens, none⟩)
    (hrun : document.tokens.foldlM (step {}) Building.start = .ok ⟨[], some root⟩)
    (hlost : ¬ KeepsContent document root) : ¬ KeepsAll text := by
  intro hkeeps
  refine hlost (hkeeps root (parse_of_tokens document.tokens hsize htokens hmark hrun) document ?_)
  rw [Written.IsOf, hmark, htokens]

/-- A space that is not white space in markup is dropped in front of a child. -/
theorem not_keepsAll_blank : ¬ KeepsAll "<memo>\u00a0<mark/></memo>" := by
  have hopening : Token.next "<memo>\u00a0<mark/></memo>".toList =
      .ok (some (.opening "memo".toList, "\u00a0<mark/></memo>".toList)) := by decide +kernel
  have htext : Token.next "\u00a0<mark/></memo>".toList =
      .ok (some (.text ['\u00a0'], "<mark/></memo>".toList)) := by decide +kernel
  have hempty : Token.next "<mark/></memo>".toList =
      .ok (some (.empty "mark".toList, "</memo>".toList)) := by decide +kernel
  have hclosing : Token.next "</memo>".toList = .ok (some (.closing "memo".toList, [])) := by
    decide +kernel
  have hlost : ¬ KeepsContent (.element "memo".toList (.piece (.text ['\u00a0']) rfl
      (.empty "mark".toList .nil)) "memo".toList .nil)
        { name := .unqualified "memo", children := [{ name := .unqualified "mark" }] } := by
    intro hkeeps
    cases hkeeps.inside with
    | element _ here _ _ =>
      have hspace := keptPieces_nil_iff.1 here.data ['\u00a0'] (by decide)
      revert hspace
      decide
  refine not_keepsAll _ (by decide +kernel) rfl ?_ rfl hlost
  rw [tokens_of_next hopening, tokens_of_next htext, tokens_of_next hempty,
    tokens_of_next hclosing, tokens_nil]
  rfl

/-- Text in front of the root is dropped. -/
theorem not_keepsAll_outside : ¬ KeepsAll "draft<memo/>" := by
  have htext : Token.next "draft<memo/>".toList =
      .ok (some (.text "draft".toList, "<memo/>".toList)) := by decide +kernel
  have hempty : Token.next "<memo/>".toList = .ok (some (.empty "memo".toList, [])) := by
    decide +kernel
  have hlost : ¬ KeepsContent (.piece (.text "draft".toList) rfl (.empty "memo".toList .nil))
      { name := .unqualified "memo" } := by
    intro hkeeps
    have hspace := hkeeps.outside "draft".toList (by decide)
    revert hspace
    decide
  refine not_keepsAll _ (by decide +kernel) rfl ?_ rfl hlost
  rw [tokens_of_next htext, tokens_of_next hempty, tokens_nil]
  rfl

/-- Of two attributes with one name the last one counts. -/
theorem not_keepsAll_attribute :
    ¬ KeepsAll "<memo xmlns:p=\"u\" xmlns:q=\"u\" p:no=\"1\" q:no=\"2\"/>" := by
  have hempty : Token.next "<memo xmlns:p=\"u\" xmlns:q=\"u\" p:no=\"1\" q:no=\"2\"/>".toList =
      .ok (some
        (.empty "memo xmlns:p=\"u\" xmlns:q=\"u\" p:no=\"1\" q:no=\"2\"".toList, [])) := by
    decide +kernel
  have hlost : ¬ KeepsContent
      (.empty "memo xmlns:p=\"u\" xmlns:q=\"u\" p:no=\"1\" q:no=\"2\"".toList .nil)
      { name := .unqualified "memo", attributes := .ofPairs [(⟨some "u", "no"⟩, "2")] } := by
    intro hkeeps
    cases hkeeps.inside with
    | empty entered here _ _ =>
      obtain ⟨entry, hentry, hreads⟩ := here.attributes ⟨"p:no".toList, 29, ['1']⟩ (by decide)
      obtain rfl := List.mem_singleton.1 hentry
      obtain ⟨_, value, hvalue, hother⟩ := hreads
      have hown : unescape ['1'] = .ok ['1'] := by decide +kernel
      rw [hown, Except.ok.injEq] at hvalue
      have hchars : "2".toList = value := by
        rw [← String.toList_ofList (l := value), ← hother]
      rw [← hvalue] at hchars
      cases hchars
  refine not_keepsAll _ (by decide +kernel) rfl ?_ rfl hlost
  rw [tokens_of_next hempty, tokens_nil]
  rfl

/-- A blank that is not white space in markup, a text outside of the root and an attribute whose
name comes twice are each lost without an error. -/
theorem not_keepsAll_memos :
    ¬ KeepsAll "<memo>\u00a0<mark/></memo>" ∧ ¬ KeepsAll "draft<memo/>" ∧
      ¬ KeepsAll "<memo xmlns:p=\"u\" xmlns:q=\"u\" p:no=\"1\" q:no=\"2\"/>" :=
  ⟨not_keepsAll_blank, not_keepsAll_outside, not_keepsAll_attribute⟩

end TypedXml.Xml
