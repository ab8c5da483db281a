import Mathlib.Data.List.Forall2
import TypedXml.Limits

/-!
# Outcomes

When a computation that can fail gives a result: each of its steps gave one.  The statements here
take a computation apart step by step, for one bind, one change of the error, and for a list of
elements that are worked on one after the other.
-/

set_option autoImplicit false

namespace TypedXml

variable {ε δ α β : Type}

/-- After a step that gave a result the computation goes on with it. -/
theorem bind_of_eq_ok {x : Except ε α} {f : α → Except ε β} {a : α} (h : x = .ok a) :
    x >>= f = f a := by
  rw [h]
  rfl

/-- Two steps give a result when the first gives one from which the second does. -/
theorem bind_eq_ok {x : Except ε α} {f : α → Except ε β} {b : β} :
    x >>= f = .ok b ↔ ∃ a, x = .ok a ∧ f a = .ok b := by
  cases x with
  | error e => simp [bind, Except.bind]
  | ok a => simp [bind, Except.bind]

/-- Two steps fail when the first fails, or the second on what the first gave. -/
theorem bind_eq_error {x : Except ε α} {f : α → Except ε β} {cause : ε} :
    x >>= f = .error cause ↔ x = .error cause ∨ ∃ a, x = .ok a ∧ f a = .error cause := by
  cases x with
  | error e => simp [bind, Except.bind]
  | ok a => simp [bind, Except.bind]

/-- A computation behind a check gives a result when the check is passed and the computation gives
it. -/
theorem check_bind_eq_ok {x : Except ε Unit} {f : Unit → Except ε β} {b : β} :
    x >>= f = .ok b ↔ x = .ok () ∧ f () = .ok b := by
  rw [bind_eq_ok]
  constructor
  · rintro ⟨⟨⟩, hx, hf⟩
    exact ⟨hx, hf⟩
  · rintro ⟨hx, hf⟩
    exact ⟨(), hx, hf⟩

/-- Results do not depend on the form of the errors. -/
theorem mapError_eq_ok {x : Except ε α} {f : ε → δ} {a : α} :
    x.mapError f = .ok a ↔ x = .ok a := by
  cases x with
  | error e => simp [Except.mapError]
  | ok b => simp [Except.mapError]

/-- An error in its new form comes from an error in the old one. -/
theorem mapError_eq_error {x : Except ε α} {f : ε → δ} {cause : δ} :
    x.mapError f = .error cause ↔ ∃ e, x = .error e ∧ f e = cause := by
  cases x with
  | error e => simp [Except.mapError]
  | ok b => simp [Except.mapError]

/-- A result in its new form comes from a result in the old one. -/
theorem map_eq_ok {x : Except ε α} {f : α → β} {b : β} :
    x.map f = .ok b ↔ ∃ a, x = .ok a ∧ f a = b := by
  cases x with
  | error e => simp [Except.map]
  | ok a => simp [Except.map]

/-- Changing the form of a result twice is changing it once by both changes. -/
theorem map_bind_pure {γ : Type} (x : Except ε α) (f : α → β) (g : β → γ) :
    (x >>= fun a => pure (f a)).map g = x >>= fun a => pure (g (f a)) := by
  cases x <;> rfl

/-- A list gives the results that its elements give one by one. -/
theorem mapM_eq_ok {f : α → Except ε β} {l : List α} {results : List β} :
    l.mapM f = .ok results ↔ List.Forall₂ (fun a b => f a = .ok b) l results := by
  induction l generalizing results with
  | nil =>
    rw [List.mapM_nil, List.forall₂_nil_left_iff]
    simp [pure, Except.pure, eq_comm]
  | cons a rest ih =>
    rw [List.mapM_cons, bind_eq_ok, List.forall₂_cons_left_iff]
    constructor
    · rintro ⟨b, hb, hrest⟩
      obtain ⟨bs, hbs, hcons⟩ := bind_eq_ok.1 hrest
      exact ⟨b, bs, hb, ih.1 hbs, (Except.ok.inj hcons).symm⟩
    · rintro ⟨b, bs, hb, hbs, rfl⟩
      exact ⟨b, hb, bind_eq_ok.2 ⟨bs, ih.2 hbs, rfl⟩⟩

/-- Two lists whose elements give the same one by one give the same. -/
theorem mapM_eq_of_forall₂ {γ : Type} {f : α → Except ε γ} {g : β → Except ε γ} {l : List α}
    {others : List β} (h : List.Forall₂ (fun a b => g b = f a) l others) :
    others.mapM g = l.mapM f := by
  induction h with
  | nil => rfl
  | cons hfirst _ ih => rw [List.mapM_cons, List.mapM_cons, hfirst, ih]

/-- Every result is that of some element. -/
theorem exists_of_mem_results {rel : α → β → Prop} {l : List α} {results : List β} {b : β}
    (h : List.Forall₂ rel l results) (hb : b ∈ results) : ∃ a ∈ l, rel a b := by
  induction h with
  | nil => cases hb
  | cons hfirst _ ih =>
    rcases List.mem_cons.1 hb with rfl | hrest
    · exact ⟨_, List.mem_cons_self, hfirst⟩
    · obtain ⟨a, ha, hrel⟩ := ih hrest
      exact ⟨a, List.mem_cons_of_mem _ ha, hrel⟩

/-- If each element of a list has a partner, the list has a list of partners. -/
theorem exists_forall₂ {rel : α → β → Prop} {l : List α} (h : ∀ a ∈ l, ∃ b, rel a b) :
    ∃ results, List.Forall₂ rel l results := by
  induction l with
  | nil => exact ⟨[], .nil⟩
  | cons a rest ih =>
    rw [List.forall_mem_cons] at h
    obtain ⟨b, hfirst⟩ := h.1
    obtain ⟨others, hothers⟩ := ih h.2
    exact ⟨b :: others, .cons hfirst hothers⟩

/-- An element has a partner in the results that also leads back to it. -/
theorem exists_of_forall₂ {rel : α → β → Prop} {back : β → α → Prop} {l : List α}
    {results : List β} (h : List.Forall₂ rel l results) (hback : List.Forall₂ back results l)
    {a : α} (ha : a ∈ l) : ∃ b, rel a b ∧ back b a := by
  induction h with
  | nil => cases ha
  | cons hfirst _ ih =>
    obtain ⟨hfirstBack, hrest⟩ := List.forall₂_cons.1 hback
    rcases List.mem_cons.1 ha with rfl | ha
    · exact ⟨_, hfirst, hfirstBack⟩
    · exact ih hrest ha

/-- A list gives results if and only if each of its elements gives one. -/
theorem exists_mapM_eq_ok {f : α → Except ε β} {l : List α} :
    (∃ results, l.mapM f = .ok results) ↔ ∀ a ∈ l, ∃ b, f a = .ok b := by
  simp only [mapM_eq_ok]
  constructor
  · rintro ⟨results, hresults⟩
    induction hresults with
    | nil => simp
    | cons hfirst _ ih => exact List.forall_mem_cons.2 ⟨⟨_, hfirst⟩, ih⟩
  · exact exists_forall₂

/-- A list is passed when each of its elements is. -/
theorem forM_eq_ok {f : α → Except ε Unit} {l : List α} :
    l.forM f = .ok () ↔ ∀ a ∈ l, f a = .ok () := by
  induction l with
  | nil => simp [pure, Except.pure]
  | cons a rest ih =>
    show (f a >>= fun _ => rest.forM f) = .ok () ↔ _
    rw [check_bind_eq_ok, List.forall_mem_cons, ih]

/-- A loop over one element is one step. -/
theorem foldlM_singleton {f : β → α → Except ε β} {b : β} {a : α} :
    [a].foldlM f b = f b a :=
  bind_pure (f b a)

/-- When a list is passed, each of its elements is. -/
theorem exists_of_foldlM_eq_ok {f : β → α → Except ε β} {l : List α} {b c : β}
    (h : l.foldlM f b = .ok c) : ∀ a ∈ l, ∃ before after, f before a = .ok after := by
  induction l generalizing b with
  | nil => simp
  | cons a rest ih =>
    rw [List.foldlM_cons, bind_eq_ok] at h
    obtain ⟨after, hfirst, hrest⟩ := h
    exact List.forall_mem_cons.2 ⟨⟨b, after, hfirst⟩, ih hrest⟩

/-! ## How computations fail -/

/-- Whether a computation fails, if it does, only with errors of one sort. -/
def FailsOnly (sort : ε → Prop) (x : Except ε α) : Prop :=
  ∀ error, x = .error error → sort error

section

variable {sort : ε → Prop}

/-- A result is no failure of the wrong sort. -/
theorem failsOnly_ok {a : α} : FailsOnly sort (.ok a : Except ε α) := nofun

/-- An error of the sort is allowed. -/
theorem failsOnly_error {error : ε} (h : sort error) :
    FailsOnly sort (.error error : Except ε α) := by
  rintro _ ⟨⟩
  exact h

/-- Two steps fail only with errors of one sort if each of them does. -/
theorem FailsOnly.bind {x : Except ε α} {f : α → Except ε β} (hx : FailsOnly sort x)
    (hf : ∀ a, x = .ok a → FailsOnly sort (f a)) : FailsOnly sort (x >>= f) := by
  cases x with
  | error cause =>
    rintro _ ⟨⟩
    exact hx cause rfl
  | ok a => exact hf a rfl

/-- Errors that are put into the form of one sort are of this sort. -/
theorem failsOnly_mapError {x : Except δ α} {f : δ → ε} (h : ∀ cause, sort (f cause)) :
    FailsOnly sort (x.mapError f) := by
  cases x with
  | error cause => exact failsOnly_error (h cause)
  | ok a => exact failsOnly_ok

/-- A list fails only with errors of one sort if each of its elements does. -/
theorem failsOnly_mapM {f : α → Except ε β} {l : List α} (h : ∀ a ∈ l, FailsOnly sort (f a)) :
    FailsOnly sort (l.mapM f) := by
  induction l with
  | nil => exact failsOnly_ok
  | cons a rest ih =>
    rw [List.forall_mem_cons] at h
    rw [List.mapM_cons]
    exact h.1.bind fun b _ => (ih h.2).bind fun bs _ => failsOnly_ok

end

/-! ## Limits -/

variable {limits : Limits}

/-- The check of a depth is passed up to the limit, this one included. -/
theorem Limits.checkDepth_eq_ok {depth : Nat} :
    limits.checkDepth depth = .ok () ↔ depth ≤ limits.depth := by
  unfold Limits.checkDepth
  split
  · simp; omega
  · simp; omega

/-- The check of a size is passed up to the limit, this one included. -/
theorem Limits.checkSize_eq_ok {size : Nat} :
    limits.checkSize size = .ok () ↔ size ≤ limits.size := by
  unfold Limits.checkSize
  split
  · simp; omega
  · simp; omega

/-- The check of a number of attributes is passed up to the limit, this one included. -/
theorem Limits.checkAttributes_eq_ok {count : Nat} :
    limits.checkAttributes count = .ok () ↔ count ≤ limits.attributes := by
  unfold Limits.checkAttributes
  split
  · simp; omega
  · simp; omega

/-- The check before writing is passed up to the greatest depth, this one included. -/
theorem RenderOptions.checkDepth_eq_ok {options : RenderOptions} {depth : Nat} :
    options.checkDepth depth = .ok () ↔ depth ≤ options.maxDepth := by
  unfold RenderOptions.checkDepth
  split
  · simp; omega
  · simp; omega

end TypedXml
