import TypedXml.Proofs.Xml.ParsedTrees

/-!
# What is written in a document

A sequence of tokens in which every start tag has its end tag is taken apart in one way only: into
elements, each with its tag and what is inside of it, and pieces that are not tags.  Whatever text
is parsed, its tokens are such a sequence, so that there is an enclosing element for each piece of
it or none at all.
-/

set_option autoImplicit false

namespace TypedXml.Xml

open Document

/-- Whether a token is a tag. -/
def Token.isTag : Token → Bool
  | .opening _ | .empty _ | .closing _ => true
  | _ => false

/-- The character data that a token stands for, if it does: text with its references replaced, if
that can be done, and sections as they are. -/
def Token.data? : Token → Option (List Char)
  | .text run => some ((unescape run).toOption.getD run)
  | .cdata run => some run
  | _ => none

/-- What is written between two tags, or in a whole document. -/
inductive Written where
  | nil
  | piece (token : Token) (untagged : token.isTag = false) (rest : Written)
  | empty (tag : List Char) (rest : Written)
  | element (tag : List Char) (inside : Written) (closing : List Char) (rest : Written)

namespace Written

/-- The tokens of what is written, in order. -/
def tokens : Written → List Token
  | .nil => []
  | .piece token _ rest => token :: rest.tokens
  | .empty tag rest => .empty tag :: rest.tokens
  | .element tag inside closing rest =>
    .opening tag :: (inside.tokens ++ .closing closing :: rest.tokens)

/-- The pieces of character data, without those inside of further elements. -/
def data : Written → List (List Char)
  | .nil => []
  | .piece token _ rest => token.data?.toList ++ rest.data
  | .empty _ rest => rest.data
  | .element _ _ _ rest => rest.data

/-! ## Taking tokens apart -/

/-- Whether tokens can stand behind what is written inside of an element. -/
def Stops (tokens : List Token) : Prop :=
  ∀ token ∈ tokens.head?, ∃ tag, token = .closing tag

variable {written other : Written} {rest others : List Token}

/-- Nothing can stand behind what is written in a whole document. -/
theorem stops_nil : Stops [] := nofun

/-- An end tag can stand behind what is written inside of an element. -/
theorem stops_closing (tag : List Char) : Stops (.closing tag :: rest) := by
  rintro _ ⟨⟩
  exact ⟨tag, rfl⟩

/-- Where the end of an element is reached, nothing more is written inside of it. -/
theorem eq_nil_of_stops (hothers : Stops others) (h : written.tokens ++ rest = others) :
    written = .nil := by
  subst h
  cases written with
  | nil => rfl
  | piece token untagged more =>
    obtain ⟨tag, rfl⟩ := hothers token rfl
    cases untagged
  | empty tag more =>
    obtain ⟨_, heq⟩ := hothers (.empty tag) rfl
    cases heq
  | element tag inside closing more =>
    obtain ⟨_, heq⟩ := hothers (.opening tag) rfl
    cases heq

/-- Tokens are taken apart in one way only. -/
theorem tokens_append_inj (hrest : Stops rest) (hothers : Stops others)
    (h : written.tokens ++ rest = other.tokens ++ others) : written = other ∧ rest = others := by
  -- the first token tells what the other one begins with, as `rest` and `others` begin with an end
  -- tag or not at all
  induction written generalizing other rest others with
  | nil =>
    obtain rfl : other = .nil := eq_nil_of_stops hrest h.symm
    exact ⟨rfl, h⟩
  | piece token untagged more ih =>
    cases other with
    | nil => cases eq_nil_of_stops hothers h
    | piece token' untagged' more' =>
      injection h with htoken hmore
      obtain ⟨rfl, rfl⟩ := ih hrest hothers hmore
      cases htoken
      exact ⟨rfl, rfl⟩
    | empty | element =>
      injection h with htoken
      subst htoken
      cases untagged
  | empty tag more ih =>
    cases other with
    | nil => cases eq_nil_of_stops hothers h
    | piece token' untagged' more' =>
      injection h with htoken
      subst htoken
      cases untagged'
    | empty tag' more' =>
      injection h with htoken hmore
      obtain ⟨rfl, rfl⟩ := ih hrest hothers hmore
      cases htoken
      exact ⟨rfl, rfl⟩
    | element => cases h
  | element tag inside closing more ihInside ihMore =>
    cases other with
    | nil => cases eq_nil_of_stops hothers h
    | piece token' untagged' more' =>
      injection h with htoken
      subst htoken
      cases untagged'
    | empty => cases h
    | element tag' inside' closing' more' =>
      simp only [tokens, List.cons_append, List.append_assoc] at h
      injection h with htoken hbehind
      obtain ⟨rfl, hmore⟩ :=
        ihInside (stops_closing closing) (stops_closing closing') hbehind
      injection hmore with hclosing hmore
      obtain ⟨rfl, rfl⟩ := ihMore hrest hothers hmore
      cases htoken
      cases hclosing
      exact ⟨rfl, rfl⟩

/-- What is written is known from its tokens. -/
theorem tokens_injective (h : written.tokens = other.tokens) : written = other := by
  refine (tokens_append_inj stops_nil stops_nil ?_).1
  rw [List.append_nil, List.append_nil, h]

/-- The tokens of what is written inside of open elements, innermost first, each with its end tag
but the outermost. -/
def joined : Written → List (List Char × Written) → List Token
  | written, [] => written.tokens
  | written, (closing, next) :: more => written.tokens ++ .closing closing :: joined next more

/-- A piece in the innermost element comes first. -/
theorem joined_piece {token : Token} (untagged : token.isTag = false)
    (more : List (List Char × Written)) :
    joined (.piece token untagged written) more = token :: joined written more := by
  cases more <;> rfl

/-- An empty element in the innermost element comes first. -/
theorem joined_empty {tag : List Char} (more : List (List Char × Written)) :
    joined (.empty tag written) more = .empty tag :: joined written more := by
  cases more <;> rfl

/-- An element is opened in front of what is inside of it, and closed behind. -/
theorem joined_element {tag closing : List Char} (more : List (List Char × Written)) :
    joined (.element tag written closing other) more =
      .opening tag :: joined written ((closing, other) :: more) := by
  cases more <;> simp [joined, tokens]

end Written

/-! ## Growing states -/

/-- The text of an element with pieces added to it. -/
def addPieces (text : Option String) (pieces : List (List Char)) : Option String :=
  pieces.foldl (fun text piece => some (text.getD "" ++ String.ofList piece)) text

/-- An open element with more elements and pieces of data in it. -/
def Document.Frame.grown (frame : Frame) (elements : List Element) (pieces : List (List Char)) :
    Frame :=
  { frame with element :=
      { frame.element with
        text := addPieces frame.element.text pieces
        children := elements.reverse ++ frame.element.children } }

/-- Whether a state comes from another one by complete elements and pieces of data.  Outside of all
elements the pieces do not count. -/
inductive Document.Building.Grows (elements : List Element) (pieces : List (List Char)) :
    Building → Building → Prop
  | outside {root grown : Option Element} (h : grown.toList = root.toList ++ elements) :
      Grows elements pieces ⟨[], root⟩ ⟨[], grown⟩
  | inside (frame : Frame) (outer : List Frame) (root : Option Element) :
      Grows elements pieces ⟨frame :: outer, root⟩ ⟨frame.grown elements pieces :: outer, root⟩

namespace Document.Building.Grows

variable {elements more : List Element} {pieces added : List (List Char)}
  {building between after : Building}

/-- A state grows into itself by nothing. -/
theorem refl (building : Building) : Grows [] [] building building := by
  obtain ⟨frames, root⟩ := building
  cases frames with
  | nil => exact .outside (List.append_nil _).symm
  | cons frame outer =>
    obtain ⟨written, scope, ⟨name, preferred, attributes, text, children⟩⟩ := frame
    exact .inside _ outer root

/-- A state that grows twice grows by both, in order. -/
theorem trans (h : Grows elements pieces building between)
    (hnext : Grows more added between after) :
    Grows (elements ++ more) (pieces ++ added) building after := by
  cases h with
  | @outside root grown h =>
    cases hnext with
    | @outside _ last hnext =>
      refine .outside ?_
      rw [hnext, h, List.append_assoc]
  | inside frame outer root =>
    cases hnext with
    | inside =>
      have hgrown : (frame.grown elements pieces).grown more added =
          frame.grown (elements ++ more) (pieces ++ added) := by
        simp [Frame.grown, addPieces, List.foldl_append, List.reverse_append]
      rw [hgrown]
      exact .inside frame outer root

/-- A state that grows stays in its scope. -/
theorem scope_eq (h : Grows elements pieces building after) : after.scope = building.scope := by
  cases h <;> rfl

/-- A state that grows keeps the number of its open elements. -/
theorem length_frames (h : Grows elements pieces building after) :
    after.frames.length = building.frames.length := by
  cases h <;> rfl

end Document.Building.Grows

open Document.Building

variable {limits : Limits} {building after : Building} {token : Token} {tag : List Char}

/-- A tree that is attached is one element more. -/
theorem grows_of_attach {element : Element} (h : attach element building = .ok after) :
    Grows [element] [] building after := by
  obtain ⟨frames, root⟩ := building
  cases frames with
  | nil =>
    cases root with
    | none =>
      cases h
      exact .outside rfl
    | some root => cases h
  | cons frame outer =>
    cases h
    exact .inside frame outer root

/-! ## Steps -/

/-- A piece adds its data where it stands. -/
theorem grows_of_piece (huntagged : token.isTag = false)
    (h : step limits building token = .ok after) :
    Grows [] token.data?.toList building after := by
  obtain ⟨frames, root⟩ := building
  cases token with
  | opening | empty | closing => cases huntagged
  | text run =>
    cases frames with
    | nil =>
      cases h
      exact .outside (List.append_nil _).symm
    | cons frame outer =>
      obtain ⟨text, htext, h⟩ := bind_eq_ok.1 h
      rw [mapError_eq_ok, mapError_eq_ok] at htext
      cases h
      rw [Token.data?, htext]
      exact .inside frame outer root
  | cdata run =>
    cases frames with
    | nil =>
      cases h
      exact .outside (List.append_nil _).symm
    | cons frame outer =>
      cases h
      exact .inside frame outer root
  | comment | instruction | doctype =>
    cases h
    exact .refl _

/-- A start tag is read in the scope where it stands and opens its element. -/
theorem opens_of_opening (h : step limits building (.opening tag) = .ok after) :
    ∃ element inner, readTag building.scope tag = .ok (element, inner) ∧
      after = ⟨⟨Tag.name tag, inner, element⟩ :: building.frames, building.root⟩ := by
  obtain ⟨element, inner, hread, _, _, hafter⟩ := readTag_of_bind h
  cases hafter
  exact ⟨element, inner, hread, rfl⟩

/-- The tag of an empty element is read in the scope where it stands and is one element more. -/
theorem grows_of_empty (h : step limits building (.empty tag) = .ok after) :
    ∃ element inner, readTag building.scope tag = .ok (element, inner) ∧
      Grows [element] [] building after := by
  obtain ⟨element, inner, hread, _, _, hafter⟩ := readTag_of_bind h
  exact ⟨element, inner, hread, grows_of_attach (mapError_eq_ok.1 hafter)⟩

/-- An end tag completes the innermost open element, which is one element more outside of it. -/
theorem grows_of_closing (h : step limits building (.closing tag) = .ok after) :
    ∃ frame outer, building.frames = frame :: outer ∧
      Grows [complete frame.element] [] ⟨outer, building.root⟩ after := by
  obtain ⟨frames, root⟩ := building
  cases frames with
  | nil => cases h
  | cons frame outer =>
    unfold step at h
    dsimp only at h
    split at h
    · exact ⟨frame, outer, rfl, grows_of_attach (mapError_eq_ok.1 h)⟩
    · cases h

/-- Tokens that lead to the end of all open elements end each of them once. -/
theorem exists_joined {toks : List Token} (h : toks.foldlM (step limits) building = .ok after)
    (hclosed : after.frames = []) :
    ∃ first more, toks = Written.joined first more ∧ more.length = building.frames.length := by
  induction toks generalizing building with
  | nil =>
    cases h
    exact ⟨.nil, [], rfl, by rw [hclosed]; rfl⟩
  | cons token rest ih =>
    obtain ⟨between, hstep, hrest⟩ := bind_eq_ok.1 h
    obtain ⟨first, more, rfl, hlength⟩ := ih hrest
    cases htag : token.isTag with
    | false =>
      refine ⟨.piece token htag first, more, (Written.joined_piece htag more).symm, ?_⟩
      rw [hlength, (grows_of_piece htag hstep).length_frames]
    | true =>
      cases token with
      | opening tag =>
        obtain ⟨element, inner, _, rfl⟩ := opens_of_opening hstep
        cases more with
        | nil => cases hlength
        | cons next more =>
          obtain ⟨closing, behind⟩ := next
          exact ⟨.element tag first closing behind, more, (Written.joined_element more).symm,
            Nat.succ.inj hlength⟩
      | empty tag =>
        obtain ⟨element, inner, _, hgrows⟩ := grows_of_empty hstep
        refine ⟨.empty tag first, more, (Written.joined_empty more).symm, ?_⟩
        rw [hlength, hgrows.length_frames]
      | closing tag =>
        obtain ⟨frame, outer, hframes, hgrows⟩ := grows_of_closing hstep
        refine ⟨.nil, (tag, first) :: more, rfl, ?_⟩
        rw [List.length_cons, hlength, hgrows.length_frames, hframes, List.length_cons]
      | text | cdata | comment | instruction | doctype => cases htag

end TypedXml.Xml
