import TypedXml.Proofs.Outcome
import TypedXml.Xml.Reference

/-!
# Resolving what was escaped

Escaping leaves none of the characters that delimit markup, and resolving the references gives the
characters back.  A text without special characters is written as it stands.
-/

set_option autoImplicit false

namespace TypedXml.Xml

/-- Whether a character is written as a reference. -/
def isSpecial (c : Char) : Bool :=
  c == '<' || c == '>' || c == '&' || c == '\'' || c == '"'

/-- A character that is not special is written as it is. -/
theorem escapeChar_of_not_special {c : Char} (h : isSpecial c = false) : escapeChar c = [c] := by
  unfold isSpecial at h
  simp only [Bool.or_eq_false_iff] at h
  obtain ⟨⟨⟨⟨hlt, hgt⟩, hamp⟩, hapos⟩, hquot⟩ := h
  unfold escapeChar
  simp [hlt, hgt, hamp, hapos, hquot]

/-- The special characters are the five with predefined references. -/
theorem eq_of_isSpecial {c : Char} (h : isSpecial c = true) :
    c = '<' ∨ c = '>' ∨ c = '&' ∨ c = '\'' ∨ c = '"' := by
  unfold isSpecial at h
  simp only [Bool.or_eq_true, beq_iff_eq] at h
  rcases h with (((hlt | hgt) | hamp) | hapos) | hquot
  · exact Or.inl hlt
  · exact Or.inr (Or.inl hgt)
  · exact Or.inr (Or.inr (Or.inl hamp))
  · exact Or.inr (Or.inr (Or.inr (Or.inl hapos)))
  · exact Or.inr (Or.inr (Or.inr (Or.inr hquot)))

namespace Reference

/-- The reference that stands for a character is resolved to it. -/
theorem unescapeFrom_escapeChar (total pos : Nat) (c : Char) (rest : List Char) :
    ∃ pos', unescapeFrom total pos none (escapeChar c ++ rest) =
      (unescapeFrom total pos' none rest).map (c :: ·) := by
  by_cases hspecial : isSpecial c = true
  · rcases eq_of_isSpecial hspecial with rfl | rfl | rfl | rfl | rfl
    · exact ⟨_, rfl⟩
    · exact ⟨_, rfl⟩
    · exact ⟨_, rfl⟩
    · exact ⟨_, rfl⟩
    · exact ⟨_, rfl⟩
  · rw [Bool.not_eq_true] at hspecial
    have hamp : (c == '&') = false := by
      rw [beq_eq_false_iff_ne]
      rintro rfl
      cases hspecial
    refine ⟨pos + c.utf8Size, ?_⟩
    rw [escapeChar_of_not_special hspecial, List.singleton_append, unescapeFrom, hamp]
    rfl

/-- Resolving undoes escaping from any position on. -/
theorem unescapeFrom_escape (total pos : Nat) (cs : List Char) :
    unescapeFrom total pos none (escape cs) = .ok cs := by
  unfold escape
  induction cs generalizing pos with
  | nil => rfl
  | cons c rest ih =>
    rw [List.flatMap_cons]
    obtain ⟨pos', hfirst⟩ := unescapeFrom_escapeChar total pos c (rest.flatMap escapeChar)
    rw [hfirst, ih pos']
    rfl

end Reference

/-- Resolving undoes escaping. -/
theorem unescape_escape (cs : List Char) : unescape (escape cs) = .ok cs :=
  Reference.unescapeFrom_escape _ _ cs

/-- Texts are told apart by their escaped forms. -/
theorem escape_injective {cs ds : List Char} (h : escape cs = escape ds) : cs = ds := by
  have hread := unescape_escape cs
  rw [h, unescape_escape ds] at hread
  exact (Except.ok.inj hread).symm

/-- No character that delimits markup is left by escaping. -/
theorem not_mem_escape {cs : List Char} {c : Char} (hspecial : isSpecial c = true)
    (hamp : c ≠ '&') : c ∉ escape cs := by
  unfold escape
  rw [List.mem_flatMap]
  rintro ⟨d, _, hmem⟩
  by_cases hd : isSpecial d = true
  · rcases eq_of_isSpecial hspecial with rfl | rfl | rfl | rfl | rfl
    all_goals rcases eq_of_isSpecial hd with rfl | rfl | rfl | rfl | rfl
    all_goals revert hmem hamp
    all_goals decide
  · rw [Bool.not_eq_true] at hd
    rw [escapeChar_of_not_special hd, List.mem_singleton] at hmem
    subst hmem
    rw [hd] at hspecial
    cases hspecial

/-- Every special character makes a text longer. -/
theorem length_escape (cs : List Char) :
    cs.length + cs.countP isSpecial ≤ (escape cs).length := by
  unfold escape
  induction cs with
  | nil => exact Nat.le_refl _
  | cons c rest ih =>
    rw [List.flatMap_cons, List.length_append, List.length_cons, List.countP_cons]
    by_cases hspecial : isSpecial c = true
    · have hlong : 2 ≤ (escapeChar c).length := by
        rcases eq_of_isSpecial hspecial with rfl | rfl | rfl | rfl | rfl
        all_goals decide
      rw [if_pos hspecial]
      omega
    · rw [if_neg hspecial, escapeChar_of_not_special (by simpa using hspecial)]
      simp only [List.length_singleton]
      omega

/-- Escaping changes a text if and only if there is a special character in it. -/
theorem escape_eq_self {cs : List Char} :
    escape cs = cs ↔ ∀ c ∈ cs, isSpecial c = false := by
  constructor
  · intro h
    have hlength := length_escape cs
    rw [h] at hlength
    have hcount : cs.countP isSpecial = 0 := by omega
    intro c hc
    rw [← Bool.not_eq_true]
    exact List.countP_eq_zero.1 hcount c hc
  · intro h
    unfold escape
    induction cs with
    | nil => rfl
    | cons c rest ih =>
      rw [List.forall_mem_cons] at h
      rw [List.flatMap_cons, escapeChar_of_not_special h.1, ih h.2]
      rfl

/-- Only the empty text is written as nothing. -/
theorem escape_ne_nil {s : String} (h : s ≠ "") : escape s.toList ≠ [] := by
  intro hnil
  apply h
  rw [← String.toList_eq_nil_iff]
  apply escape_injective
  rw [hnil]
  rfl

end TypedXml.Xml
