import TypedXml.Error
import TypedXml.Proofs.Outcome

/-!
# Two runs of one computation

Two runs of one computation are compared in two ways.

A limit shows in a computation only where it is checked, and what it does there is to end the
computation.  So of two runs that differ in a limit alone, one that gives a result tells how the
other one goes: it gives the same result if that result fits its limit, and ends with an exceeded
limit if not.  This is carried along the steps of a computation, as long as a result that fits comes
from intermediate results that fit.

Two runs with inputs that mean the same give the same, but their errors may name other numbers; what
they agree in is the category of the error.  This, too, goes along with every step.  Inputs that
only resemble each other give results that do so in some respect, and then each step has to carry on
what the step before it left related.
-/

set_option autoImplicit false

namespace TypedXml

variable {α β : Type}

/-! ## Runs with related results -/

section

variable {ε δ γ η : Type} {faults : ε → δ → Prop} {related : α → β → Prop} {x : Except ε α}
  {y : Except δ β}

/-- Whether two computations give related results or fail with related errors. -/
inductive Agree (faults : ε → δ → Prop) (related : α → β → Prop) :
    Except ε α → Except δ β → Prop
  | ok {a : α} {b : β} (results : related a b) : Agree faults related (.ok a) (.ok b)
  | error {cause : ε} {other : δ} (errors : faults cause other) :
      Agree faults related (.error cause) (.error other)

namespace Agree

/-- A computation agrees with itself. -/
theorem refl {faults : ε → ε → Prop} {related : α → α → Prop}
    (hfaults : ∀ cause, faults cause cause)
    (hrelated : ∀ a, related a a) (x : Except ε α) : Agree faults related x x := by
  cases x with
  | ok a => exact .ok (hrelated a)
  | error cause => exact .error (hfaults cause)

/-- Results that are related are so in every weaker respect. -/
theorem imp {better : α → β → Prop} (h : Agree faults related x y)
    (himp : ∀ a b, related a b → better a b) : Agree faults better x y := by
  cases h with
  | ok results => exact .ok (himp _ _ results)
  | error errors => exact .error errors

/-- Two computations agree if they agree in their first steps, and in their second ones on whatever
these left related. -/
theorem bind {next : α → Except ε γ} {nextOther : β → Except δ η} {relatedNext : γ → η → Prop}
    (h : Agree faults related x y)
    (hnext : ∀ a b, related a b → Agree faults relatedNext (next a) (nextOther b)) :
    Agree faults relatedNext (x >>= next) (y >>= nextOther) := by
  cases h with
  | ok results => exact hnext _ _ results
  | error errors => exact .error errors

/-- Two lists whose elements agree one by one agree. -/
theorem mapM {f : α → Except ε γ} {g : β → Except δ η} {relatedNext : γ → η → Prop} {l : List α}
    {others : List β}
    (h : List.Forall₂ (fun a b => Agree faults relatedNext (f a) (g b)) l others) :
    Agree faults (List.Forall₂ relatedNext) (l.mapM f) (others.mapM g) := by
  induction h with
  | nil => exact .ok .nil
  | cons hfirst _ ih =>
    rw [List.mapM_cons, List.mapM_cons]
    apply hfirst.bind
    intro a b hresult
    apply ih.bind
    intro rest others hrest
    exact .ok (.cons hresult hrest)

/-- What agrees still does after errors are put into another form. -/
theorem mapError {faultsNext : γ → η → Prop} {f : ε → γ} {g : δ → η}
    (h : Agree faults related x y) (hfaults : ∀ cause other, faults cause other →
      faultsNext (f cause) (g other)) :
    Agree faultsNext related (x.mapError f) (y.mapError g) := by
  cases h with
  | ok results => exact .ok results
  | error errors => exact .error (hfaults _ _ errors)

/-- What agrees still does after results are put into forms that are related. -/
theorem map {f : α → γ} {g : β → η} {relatedNext : γ → η → Prop} (h : Agree faults related x y)
    (hnext : ∀ a b, related a b → relatedNext (f a) (g b)) :
    Agree faults relatedNext (x.map f) (y.map g) := by
  cases h with
  | ok results => exact .ok (hnext _ _ results)
  | error errors => exact .error errors

end Agree

end

/-! ## Runs under two limits -/

/-- Whether a computation ends with an exceeded limit. -/
def ExceedsLimit (x : Except Error α) : Prop :=
  ∃ exceeded, x = .error (.limit exceeded)

/-- Whether a run, wherever a wide one gives a result, gives the same result if that fits, and ends
with an exceeded limit if not. -/
structure Narrows (fits : α → Prop) (wide narrow : Except Error α) : Prop where
  within : ∀ a, wide = .ok a → fits a → narrow = .ok a
  beyond : ∀ a, wide = .ok a → ¬ fits a → ExceedsLimit narrow

namespace Narrows

variable {fits : α → Prop} {fitsNext : β → Prop} {wide narrow : Except Error α}

/-- A step without a check goes the same way in both runs. -/
theorem of_ok (h : ∀ a, wide = .ok a → fits a ∧ narrow = .ok a) : Narrows fits wide narrow :=
  ⟨fun a hwide _ => (h a hwide).2, fun a hwide hfits => absurd (h a hwide).1 hfits⟩

/-- Of a wide run that fails, nothing is to be shown. -/
theorem of_error {cause : Error} : Narrows fits (.error cause) narrow := by
  constructor <;> rintro _ ⟨⟩

/-- A result that fits is the same in both runs. -/
theorem ok {a : α} (h : fits a) : Narrows fits (.ok a) (.ok a) := by
  refine of_ok ?_
  rintro _ ⟨⟩
  exact ⟨h, rfl⟩

/-- Two steps, where a result that fits comes from an intermediate result that fits. -/
theorem bind {next nextNarrow : α → Except Error β} (h : Narrows fits wide narrow)
    (hnext : ∀ a, wide = .ok a → fits a → Narrows fitsNext (next a) (nextNarrow a))
    (hback : ∀ a b, wide = .ok a → next a = .ok b → fitsNext b → fits a) :
    Narrows fitsNext (wide >>= next) (narrow >>= nextNarrow) := by
  constructor
  · intro b hb hfits
    obtain ⟨a, ha, hb⟩ := bind_eq_ok.1 hb
    have hfirst := hback a b ha hb hfits
    rw [h.within a ha hfirst]
    exact (hnext a ha hfirst).within b hb hfits
  · intro b hb hfits
    obtain ⟨a, ha, hb⟩ := bind_eq_ok.1 hb
    by_cases hfirst : fits a
    · rw [h.within a ha hfirst]
      exact (hnext a ha hfirst).beyond b hb hfits
    · obtain ⟨exceeded, hnarrow⟩ := h.beyond a ha hfirst
      exact ⟨exceeded, by rw [hnarrow]; rfl⟩

/-- What follows a step that both runs have in common. -/
theorem bind_same {x : Except Error β} {next nextNarrow : β → Except Error α}
    (h : ∀ b, x = .ok b → Narrows fits (next b) (nextNarrow b)) :
    Narrows fits (x >>= next) (x >>= nextNarrow) := by
  cases x with
  | ok b => exact h b rfl
  | error cause => exact of_error

/-- A result that is only put into another form fits where it did before. -/
theorem map {next : α → β} (h : Narrows fits wide narrow)
    (hnext : ∀ a, wide = .ok a → (fitsNext (next a) ↔ fits a)) :
    Narrows fitsNext (wide >>= fun a => pure (next a)) (narrow >>= fun a => pure (next a)) := by
  refine h.bind (fun a ha hfits => ok ((hnext a ha).2 hfits)) ?_
  · rintro a _ ha ⟨⟩ hfits
    exact (hnext a ha).1 hfits

/-- The results of a list fit where each of them does, and one that does not ends the narrow run. -/
theorem mapM {f fNarrow : β → Except Error α} {l : List β}
    (h : ∀ b ∈ l, Narrows fits (f b) (fNarrow b)) :
    Narrows (fun results => ∀ a ∈ results, fits a) (l.mapM f) (l.mapM fNarrow) := by
  induction l with
  | nil => exact ok nofun
  | cons b rest ih =>
    rw [List.forall_mem_cons] at h
    rw [List.mapM_cons, List.mapM_cons]
    refine h.1.bind (fun first _ hfirst => ?_) ?_
    · refine (ih h.2).map fun others _ => ?_
      rw [List.forall_mem_cons]
      exact and_iff_right hfirst
    · intro first results _ hresults hfits
      obtain ⟨others, _, hcons⟩ := bind_eq_ok.1 hresults
      cases hcons
      exact hfits first List.mem_cons_self

/-- A loop, where no step leads from a state that does not fit to one that does. -/
theorem foldlM {f fNarrow : α → β → Except Error α} {l : List β} {a : α}
    (hstep : ∀ a b, fits a → Narrows fits (f a b) (fNarrow a b))
    (hback : ∀ a b next, f a b = .ok next → fits next → fits a) (h : fits a) :
    Narrows fits (l.foldlM f a) (l.foldlM fNarrow a) := by
  have hbackAll : ∀ (l : List β) (a last : α), l.foldlM f a = .ok last → fits last → fits a := by
    intro l
    induction l with
    | nil =>
      rintro a _ ⟨⟩ hlast
      exact hlast
    | cons b rest ih =>
      intro a last hrun hlast
      obtain ⟨next, hfirst, hrest⟩ := bind_eq_ok.1 hrun
      exact hback a b next hfirst (ih next last hrest hlast)
  induction l generalizing a with
  | nil => exact ok h
  | cons b rest ih =>
    rw [List.foldlM_cons, List.foldlM_cons]
    exact (hstep a b h).bind (fun _ _ hnext => ih hnext) fun next last _ => hbackAll rest next last

end Narrows

/-- A check of a limit goes well where its limit is kept, and is an exceeded limit elsewhere. -/
theorem narrows_check {check : Except LimitExceeded Unit} {keeps : Prop}
    (h : check = .ok () ↔ keeps) (wide : Except Error Unit) :
    Narrows (fun _ => keeps) wide (check.mapError .limit) := by
  constructor
  · intro _ _ hkeeps
    rw [h.2 hkeeps]
    rfl
  · intro _ _ hkeeps
    cases hcheck : check with
    | ok _ => exact absurd (h.1 hcheck) hkeeps
    | error exceeded => exact ⟨exceeded, rfl⟩

/-! ## Runs that fail alike -/

/-- Whether two computations give the same result, or fail with errors of one category. -/
def SameKind (x y : Except Error α) : Prop :=
  x.mapError Error.category = y.mapError Error.category

namespace SameKind

/-- A computation fails as itself. -/
theorem refl (x : Except Error α) : SameKind x x := rfl

/-- Computations that are equal fail alike. -/
theorem of_eq {x y : Except Error α} (h : x = y) : SameKind x y :=
  congrArg _ h

/-- Two computations fail alike if their first steps do, and their second ones on what these
gave. -/
theorem bind {x y : Except Error α} {f g : α → Except Error β} (h : SameKind x y)
    (hnext : ∀ a, x = .ok a → SameKind (f a) (g a)) : SameKind (x >>= f) (y >>= g) := by
  cases x with
  | ok a =>
    obtain rfl : y = .ok a := mapError_eq_ok.1 h.symm
    exact hnext a rfl
  | error cause =>
    cases y with
    | ok a => cases h
    | error other => exact congrArg Except.error (Except.error.inj h)

/-- Two lists whose elements fail alike one by one do so, too. -/
theorem mapM {f : α → Except Error β} {l others : List α}
    (h : List.Forall₂ (fun a b => SameKind (f a) (f b)) l others) :
    SameKind (l.mapM f) (others.mapM f) := by
  induction h with
  | nil => exact refl _
  | cons hfirst _ ih =>
    rw [List.mapM_cons, List.mapM_cons]
    exact hfirst.bind fun _ _ => ih.bind fun _ _ => refl _

end SameKind

/-- Whether two errors are of one category. -/
def SameCategory (cause other : Error) : Prop :=
  other.category = cause.category

/-- An error is of its own category. -/
theorem sameCategory_refl (cause : Error) : SameCategory cause cause := rfl

/-- Runs that agree in their results fail alike. -/
theorem sameKind_of_agree {x y : Except Error α} (h : Agree SameCategory Eq x y) :
    SameKind x y := by
  cases h with
  | ok results => exact .of_eq (congrArg Except.ok results)
  | error errors => exact congrArg Except.error errors.symm

/-- Runs that come from one result under the same limit fail alike. -/
theorem Narrows.sameKind {fits : α → Prop} {wide otherWide narrow otherNarrow : Except Error α}
    (h : Narrows fits wide narrow) (hother : Narrows fits otherWide otherNarrow) {a : α}
    (hwide : wide = .ok a) (hotherWide : otherWide = .ok a) : SameKind narrow otherNarrow := by
  by_cases hfits : fits a
  · rw [h.within a hwide hfits, hother.within a hotherWide hfits]
    exact SameKind.refl _
  · obtain ⟨exceeded, hnarrow⟩ := h.beyond a hwide hfits
    obtain ⟨otherExceeded, hotherNarrow⟩ := hother.beyond a hotherWide hfits
    rw [hnarrow, hotherNarrow]
    rfl

end TypedXml
