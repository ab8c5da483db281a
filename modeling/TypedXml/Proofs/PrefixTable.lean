import Mathlib.Data.List.Nodup
import Mathlib.Data.List.Perm.Subperm
import TypedXml.PrefixTable
import TypedXml.Proofs.Name

/-!
# Prefix tables

A table gives no prefix twice: a preferred prefix is taken only while it is free, and a made-up one
is free since the table cannot hold all the candidates that are tried.  All of its prefixes are
words of one sort, such as NCNames, that do not begin like the reserved ones, and a namespace keeps
the prefix it has.
-/

set_option autoImplicit false

namespace TypedXml

namespace PrefixTable

/-! ## Made-up prefixes -/

/-- Made-up prefixes of different numbers are different. -/
theorem generated_injective {n m : Nat} (h : generated n = generated m) : n = m := by
  unfold generated at h
  have hchars := String.ofList_inj.1 h
  rw [List.cons.injEq, List.cons.injEq] at hchars
  have hvalue := congrArg (fun digits => Nat.ofDigitChars 10 digits 0) hchars.2.2
  simpa only [Nat.ofDigitChars_ten_toDigits] using hvalue

/-- A prefix is bound when it is that of some binding. -/
theorem isBound_iff {table : PrefixTable} {label : String} :
    table.isBound label = true ↔ label ∈ table.bindings.map Prod.snd := by
  unfold isBound
  rw [List.any_eq_true, List.mem_map]
  constructor
  · rintro ⟨binding, hmem, heq⟩
    exact ⟨binding, hmem, eq_of_beq heq⟩
  · rintro ⟨binding, hmem, rfl⟩
    exact ⟨binding, hmem, beq_self_eq_true _⟩

/-- If the prefix that is found is bound, then so are all the candidates. -/
theorem isBound_candidates {table : PrefixTable} {n tries : Nat}
    (h : table.isBound (table.freshFrom n tries) = true) :
    ∀ k ≤ tries, table.isBound (generated (n + k)) = true := by
  induction tries generalizing n with
  | zero =>
    intro k hk
    obtain rfl : k = 0 := by omega
    exact h
  | succ tries ih =>
    unfold freshFrom at h
    by_cases hbound : table.isBound (generated n) = true
    · rw [if_pos hbound] at h
      intro k hk
      cases k with
      | zero => exact hbound
      | succ k =>
        have hrest := ih h k (by omega)
        rwa [Nat.add_assoc, Nat.add_comm 1 k] at hrest
    · rw [if_neg hbound] at h
      exact absurd h hbound

/-- A made-up prefix is free. -/
theorem isBound_fresh (table : PrefixTable) : table.isBound table.fresh = false := by
  rw [← Bool.not_eq_true]
  intro hbound
  -- one candidate more than there are bindings cannot all be bound
  have hcandidates := isBound_candidates hbound
  have hnodup : ((List.range (table.size + 1)).map fun k => generated (table.size + k)).Nodup := by
    refine List.Nodup.map ?_ List.nodup_range
    intro j k hjk
    have heq := generated_injective hjk
    omega
  have hsubset : ((List.range (table.size + 1)).map fun k => generated (table.size + k)) ⊆
      table.bindings.map Prod.snd := by
    intro label hlabel
    obtain ⟨k, hk, rfl⟩ := List.mem_map.1 hlabel
    rw [List.mem_range] at hk
    exact isBound_iff.1 (hcandidates k (by omega))
  have hlength := (List.subperm_of_subset hnodup hsubset).length_le
  rw [List.length_map, List.length_range, List.length_map] at hlength
  unfold size at hlength
  omega

/-! ## Labels -/

/-- What a chosen prefix looks like: a word of some sort that does not begin like a reserved
one. -/
structure IsLabel (word : String → Prop) (label : String) : Prop where
  name : word label
  free : "xml".toList.isPrefixOf label.toList = false

/-- Whether a label is an NCName. -/
def IsStrictLabel (label : String) : Prop :=
  isNCName label = true

/-- Whether a label can be the prefix of a name in a tag. -/
def IsLooseLabel (label : String) : Prop :=
  IsPrefixText label.toList

/-- An NCName can be the prefix of a name in a tag. -/
theorem IsStrictLabel.loose {label : String} (h : IsStrictLabel label) : IsLooseLabel label :=
  isPrefixText_of_isNCNameChars h

/-- Digits may stand in a name. -/
theorem isNameChar_of_isDigit {c : Char} (h : c.isDigit = true) : isNameChar c = true := by
  unfold Char.isDigit at h
  rw [Bool.and_eq_true, decide_eq_true_eq, decide_eq_true_eq] at h
  have hrange : ('0' ≤ c && c ≤ '9') = true := by
    rw [Bool.and_eq_true, decide_eq_true_eq, decide_eq_true_eq]
    exact h
  unfold isNameChar
  rw [hrange]
  simp

/-- A made-up prefix is an NCName that does not begin like a reserved one. -/
theorem isLabel_generated (n : Nat) : IsLabel IsStrictLabel (generated n) := by
  constructor
  · have hdigits : (Nat.toDigits 10 n).all isNameChar = true := by
      rw [List.all_eq_true]
      intro c hc
      exact isNameChar_of_isDigit (Nat.isDigit_of_mem_toDigits (by decide) (by decide) hc)
    unfold IsStrictLabel isNCName generated
    rw [String.toList_ofList]
    show (isNameStart 'n' && ('s' :: Nat.toDigits 10 n).all isNameChar) = true
    rw [List.all_cons, hdigits]
    decide
  · have hchars : (generated n).toList = 'n' :: 's' :: Nat.toDigits 10 n := by
      unfold generated
      rw [String.toList_ofList]
    rw [hchars]
    rfl

/-- The search ends with a made-up prefix, whatever the table is. -/
theorem exists_freshFrom (table : PrefixTable) (n tries : Nat) :
    ∃ k, table.freshFrom n tries = generated k := by
  induction tries generalizing n with
  | zero => exact ⟨n, rfl⟩
  | succ tries ih =>
    unfold freshFrom
    split
    · exact ih (n + 1)
    · exact ⟨n, rfl⟩

/-- The prefix that the search finds is an NCName that does not begin like a reserved one. -/
theorem isLabel_fresh (table : PrefixTable) : IsLabel IsStrictLabel table.fresh := by
  obtain ⟨k, hk⟩ := exists_freshFrom table table.size table.size
  unfold fresh
  rw [hk]
  exact isLabel_generated k

/-- Whether a preferred prefix, if there is one, is empty or an NCName. -/
def IsHint (preferred : Option String) : Prop :=
  ∀ label ∈ preferred, label = "" ∨ isNCName label = true

/-- The prefix that is chosen is a word if the preferred one is, and it is free. -/
theorem choose_spec {word : String → Prop} (hword : ∀ label, IsStrictLabel label → word label)
    (table : PrefixTable) {preferred : Option String}
    (h : ∀ label ∈ preferred, label = "" ∨ word label) :
    IsLabel word (table.choose preferred) ∧ table.isBound (table.choose preferred) = false := by
  have hfresh : IsLabel word table.fresh ∧ table.isBound table.fresh = false :=
    ⟨⟨hword _ (isLabel_fresh table).name, (isLabel_fresh table).free⟩, isBound_fresh table⟩
  unfold choose
  split
  · next label =>
    split
    · next husable =>
      unfold isUsable at husable
      simp only [Bool.and_eq_true, Bool.not_eq_true'] at husable
      obtain ⟨⟨hne, hfree⟩, hreserved⟩ := husable
      rcases h label rfl with rfl | hname
      · cases hne
      · exact ⟨⟨hname, hreserved⟩, hfree⟩
    · exact hfresh
  · exact hfresh

/-! ## Declarations -/

/-- A table as declarations make it: prefixes that look like prefixes, none of them twice, for
namespaces of one sort. -/
structure Sound (word good : String → Prop) (table : PrefixTable) : Prop where
  distinct : (table.bindings.map Prod.snd).Nodup
  labels : ∀ binding ∈ table.bindings, IsLabel word binding.2
  spaces : ∀ binding ∈ table.bindings, good binding.1

/-- Every namespace of one table has the same prefix in the other one. -/
def Extends (table extended : PrefixTable) : Prop :=
  ∀ uri label, table.prefixOf? uri = some label → extended.prefixOf? uri = some label

variable {word good : String → Prop} {table : PrefixTable} {uri : String}
  {preferred : Option String}

/-- The table without bindings is as declarations make it. -/
theorem sound_empty : Sound word good empty :=
  ⟨List.nodup_nil, by simp [empty], by simp [empty]⟩

/-- Prefixes that are kept twice are kept. -/
theorem Extends.trans {first second third : PrefixTable} (h : Extends first second)
    (hthird : Extends second third) : Extends first third :=
  fun uri label hlabel => hthird uri label (h uri label hlabel)

/-- A declaration leaves a table as declarations make it, if its namespace is of the right sort and
its preferred prefix is a word. -/
theorem sound_declare (hword : ∀ label, IsStrictLabel label → word label)
    (h : Sound word good table) (huri : good uri)
    (hhint : ∀ label ∈ preferred, label = "" ∨ word label) :
    Sound word good (table.declare uri preferred) := by
  unfold declare
  split
  · exact h
  · obtain ⟨hlabel, hfree⟩ := choose_spec hword table hhint
    rw [← Bool.not_eq_true, isBound_iff] at hfree
    refine ⟨?_, ?_, ?_⟩
    · simp only [List.map_append, List.map_cons, List.map_nil]
      rw [List.nodup_append]
      refine ⟨h.distinct, List.nodup_singleton _, ?_⟩
      intro other hother label hlabel heq
      rw [List.mem_singleton] at hlabel
      rw [heq, hlabel] at hother
      exact hfree hother
    · intro binding hbinding
      rcases List.mem_append.1 hbinding with hold | hnew
      · exact h.labels binding hold
      · rw [List.mem_singleton.1 hnew]
        exact hlabel
    · intro binding hbinding
      rcases List.mem_append.1 hbinding with hold | hnew
      · exact h.spaces binding hold
      · rw [List.mem_singleton.1 hnew]
        exact huri

/-- A declaration keeps all prefixes. -/
theorem extends_declare : Extends table (table.declare uri preferred) := by
  intro other label hlabel
  unfold declare
  split
  · exact hlabel
  · unfold prefixOf? at hlabel ⊢
    rw [List.lookup_append, hlabel]
    rfl

/-- A declared namespace has a prefix. -/
theorem isSome_declare : ((table.declare uri preferred).prefixOf? uri).isSome = true := by
  unfold declare
  split
  · next label hlabel =>
    rw [hlabel]
    rfl
  · next hnone =>
    unfold prefixOf? at hnone ⊢
    rw [List.lookup_append, hnone, List.lookup_cons_self]
    rfl

end PrefixTable

end TypedXml
