import Mathlib.Data.List.TakeDrop
import Mathlib.Data.List.TakeWhile
import TypedXml.Name
import TypedXml.Text.Blank

/-!
# Characters of names

None of the characters that delimit markup can stand in an NCName, so that it can be told from
what surrounds it.  Reading is not as strict: it takes for a name whatever stands before white
space, and for the key of an attribute whatever stands before `=`.
-/

set_option autoImplicit false

namespace TypedXml

/-- A character that a name may begin with may also stand later in it. -/
theorem isNameChar_of_isNameStart {c : Char} (h : isNameStart c = true) :
    isNameChar c = true := by
  unfold isNameChar
  rw [h]
  rfl

/-- All characters of an NCName are name characters. -/
theorem isNameChar_of_mem {cs : List Char} (h : isNCNameChars cs = true) :
    ∀ c ∈ cs, isNameChar c = true := by
  cases cs with
  | nil => simp
  | cons first rest =>
    unfold isNCNameChars at h
    rw [Bool.and_eq_true, List.all_eq_true] at h
    exact List.forall_mem_cons.2 ⟨isNameChar_of_isNameStart h.1, h.2⟩

/-- No other character stands in an NCName. -/
theorem not_mem_of_isNCNameChars {cs : List Char} (h : isNCNameChars cs = true) {c : Char}
    (hc : isNameChar c = false) : c ∉ cs := by
  intro hmem
  rw [isNameChar_of_mem h c hmem] at hc
  cases hc

/-! ## Names that reading lets through -/

/-- Characters without white space, so that a name goes on to their end. -/
def IsWord (cs : List Char) : Prop :=
  ∀ c ∈ cs, Text.isMarkupSpace c = false

/-- Characters that are read as the key of an attribute: `=` ends a key, but does not begin one. -/
structure IsKey (cs : List Char) : Prop where
  word : IsWord cs
  nonempty : cs ≠ []
  equals : '=' ∉ cs.tail

/-- Whether a tag can begin with given characters: none of those that begin other markup comes
first. -/
def IsTagStart (cs : List Char) : Prop :=
  ∀ c ∈ cs.head?, c ∉ ['!', '/', '?']

/-- Characters that neither begin nor end a quoted value, nor end a tag. -/
def IsUnquoted (cs : List Char) : Prop :=
  ∀ c ∈ cs, c ∉ ['"', '\'', '>']

/-- Characters that can stand in front of the colon in the name of an element and in a key. -/
structure IsPrefixText (cs : List Char) : Prop where
  nonempty : cs ≠ []
  start : IsTagStart cs
  word : IsWord cs
  equals : '=' ∉ cs
  colon : ':' ∉ cs

/-- Two parts are a word together if and only if each of them is one. -/
theorem isWord_append {cs others : List Char} :
    IsWord (cs ++ others) ↔ IsWord cs ∧ IsWord others :=
  List.forall_mem_append

/-- Two parts are free of quotes together if and only if each of them is. -/
theorem isUnquoted_append {cs others : List Char} :
    IsUnquoted (cs ++ others) ↔ IsUnquoted cs ∧ IsUnquoted others :=
  List.forall_mem_append

/-- What begins a tag still does when characters follow. -/
theorem isTagStart_append {cs others : List Char} (h : IsTagStart cs) (hne : cs ≠ []) :
    IsTagStart (cs ++ others) := by
  cases cs with
  | nil => exact absurd rfl hne
  | cons first rest => exact h

/-- The front of what begins a tag begins one. -/
theorem isTagStart_of_front {cs others : List Char} (hfront : cs <+: others)
    (h : IsTagStart others) : IsTagStart cs := by
  cases cs with
  | nil => rintro c ⟨⟩
  | cons first rest =>
    obtain ⟨behind, rfl⟩ := hfront
    exact h

/-- An NCName has no white space. -/
theorem isWord_of_isNCNameChars {cs : List Char} (h : isNCNameChars cs = true) : IsWord cs := by
  intro c hc
  rw [← Bool.not_eq_true]
  intro hspace
  unfold Text.isMarkupSpace at hspace
  simp only [Bool.or_eq_true, beq_iff_eq] at hspace
  rcases hspace with ((rfl | rfl) | rfl) | rfl
  all_goals exact not_mem_of_isNCNameChars h (by decide) hc

/-- An NCName has neither quotes nor the end of a tag. -/
theorem isUnquoted_of_isNCNameChars {cs : List Char} (h : isNCNameChars cs = true) :
    IsUnquoted cs := by
  intro c hc hquote
  simp only [List.mem_cons, List.not_mem_nil, or_false] at hquote
  rcases hquote with rfl | rfl | rfl
  all_goals exact not_mem_of_isNCNameChars h (by decide) hc

/-- A tag can begin with an NCName. -/
theorem isTagStart_of_isNCNameChars {cs : List Char} (h : isNCNameChars cs = true) :
    IsTagStart cs := by
  intro c hc hbegins
  have hmem := List.mem_of_mem_head? hc
  simp only [List.mem_cons, List.not_mem_nil, or_false] at hbegins
  rcases hbegins with rfl | rfl | rfl
  all_goals exact not_mem_of_isNCNameChars h (by decide) hmem

/-- An NCName is not empty. -/
theorem ne_nil_of_isNCNameChars {cs : List Char} (h : isNCNameChars cs = true) : cs ≠ [] := by
  rintro rfl
  cases h

/-- An NCName can stand in front of a colon. -/
theorem isPrefixText_of_isNCNameChars {cs : List Char} (h : isNCNameChars cs = true) :
    IsPrefixText cs where
  nonempty := ne_nil_of_isNCNameChars h
  start := isTagStart_of_isNCNameChars h
  word := isWord_of_isNCNameChars h
  equals := not_mem_of_isNCNameChars h (by decide)
  colon := not_mem_of_isNCNameChars h (by decide)

/-- An NCName can be the key of an attribute. -/
theorem isKey_of_isNCNameChars {cs : List Char} (h : isNCNameChars cs = true) : IsKey cs where
  word := isWord_of_isNCNameChars h
  nonempty := ne_nil_of_isNCNameChars h
  equals hmem := not_mem_of_isNCNameChars h (by decide) (List.mem_of_mem_tail hmem)

/-- Any one character but white space is read as a key, and so is a lone `=`. -/
theorem isKey_singleton {c : Char} (h : Text.isMarkupSpace c = false) : IsKey [c] where
  word := List.forall_mem_singleton.2 h
  nonempty := List.cons_ne_nil _ _
  equals := List.not_mem_nil

/-- A key goes on with a character that is neither white space nor an equals sign. -/
theorem IsKey.append_singleton {cs : List Char} (h : IsKey cs) {c : Char}
    (hword : Text.isMarkupSpace c = false) (hequals : c ≠ '=') : IsKey (cs ++ [c]) where
  word := isWord_append.2 ⟨h.word, List.forall_mem_singleton.2 hword⟩
  nonempty := by simp
  equals := by
    rw [List.tail_append_of_ne_nil h.nonempty, List.mem_append, List.mem_singleton]
    rintro (hmem | heq)
    · exact h.equals hmem
    · exact hequals heq.symm

/-- A name behind a prefix can be a key if it has no `=`. -/
theorem isKey_append {label localName : List Char} (hlabel : IsPrefixText label)
    (hword : IsWord localName) (hequals : '=' ∉ localName) :
    IsKey (label ++ ':' :: localName) where
  word := isWord_append.2 ⟨hlabel.word, List.forall_mem_cons.2 ⟨by decide, hword⟩⟩
  nonempty := by simp
  equals := by
    intro hmem
    have hin : '=' ∈ label ++ ':' :: localName := List.mem_of_mem_tail hmem
    simp [hlabel.equals, hequals] at hin

/-! ## Colons -/

/-- A name without a colon is not split. -/
theorem splitAtColon_eq_none {cs : List Char} (h : ':' ∉ cs) : splitAtColon cs = none := by
  have hrest : cs.dropWhile (· != ':') = [] := by
    rw [List.dropWhile_eq_nil_iff]
    intro c hc
    rw [bne_iff_ne]
    rintro rfl
    exact h hc
  unfold splitAtColon
  rw [List.span_eq_takeWhile_dropWhile, hrest]

/-- A name is split at a colon that no other one stands before. -/
theorem splitAtColon_append {before after : List Char} (h : ':' ∉ before) :
    splitAtColon (before ++ ':' :: after) = some (before, after) := by
  have hbefore : ∀ c ∈ before, (c != ':') = true := by
    intro c hc
    rw [bne_iff_ne]
    rintro rfl
    exact h hc
  unfold splitAtColon
  rw [List.span_eq_takeWhile_dropWhile, List.takeWhile_append_of_pos hbefore,
    List.dropWhile_append_of_pos hbefore, List.takeWhile_cons_of_neg (by simp),
    List.dropWhile_cons_of_neg (by simp), List.append_nil]
  rfl

/-- A split name is what stands before and behind its first colon. -/
theorem splitAtColon_eq_some {cs before after : List Char}
    (h : splitAtColon cs = some (before, after)) : cs = before ++ ':' :: after ∧ ':' ∉ before := by
  unfold splitAtColon at h
  rw [List.span_eq_takeWhile_dropWhile] at h
  split at h
  · next heq =>
    cases h
    rw [Prod.mk.injEq] at heq
    refine ⟨?_, ?_⟩
    · rw [← heq.1, ← heq.2, List.takeWhile_append_dropWhile]
    · rw [← heq.1]
      intro hmem
      have hother := List.mem_takeWhile_imp hmem
      rw [bne_self_eq_false] at hother
      cases hother
  · cases h

/-- A name that is not split has no colon. -/
theorem colon_not_mem_of_splitAtColon {cs : List Char} (h : splitAtColon cs = none) :
    ':' ∉ cs := by
  intro hmem
  obtain ⟨before, after, rfl, hfirst⟩ := List.eq_append_cons_of_mem hmem
  rw [splitAtColon_append hfirst] at h
  cases h

end TypedXml
