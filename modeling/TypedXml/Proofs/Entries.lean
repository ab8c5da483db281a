import Mathlib.Data.List.Forall2
import Mathlib.Data.List.Nodup
import Mathlib.Data.List.Perm.Subperm
import TypedXml.Entries

/-!
# Distinct keys

Particles, attributes and fields are found by their keys.  Where no key stands twice, looking up a
key finds the entry that was meant, and an entry in front of the others does not hide any of them.
-/

set_option autoImplicit false

namespace TypedXml

variable {α β : Type}

/-- Where keys are distinct, no later key is that of the first element. -/
theorem ne_of_nodup_cons {f : α → β} {a b : α} {rest : List α}
    (h : ((a :: rest).map f).Nodup) (hb : b ∈ rest) : f b ≠ f a := by
  rw [List.map_cons, List.nodup_cons] at h
  intro heq
  apply h.1
  rw [← heq]
  exact List.mem_map_of_mem hb

/-- Keys stay distinct at the end when the last one is new. -/
theorem nodup_map_append_singleton {f : α → β} {l : List α} {a : α} :
    ((l ++ [a]).map f).Nodup ↔ (l.map f).Nodup ∧ f a ∉ l.map f := by
  rw [List.map_append, List.map_singleton, List.nodup_append_comm, List.singleton_append,
    List.nodup_cons]
  exact and_comm

/-- Where keys are distinct, the key of an element finds this element. -/
theorem find?_key_of_mem [BEq β] [LawfulBEq β] {key : α → β} {l : List α} {a : α}
    (hdistinct : (l.map key).Nodup) (hmem : a ∈ l) :
    l.find? (fun other => key other == key a) = some a := by
  induction l with
  | nil => cases hmem
  | cons first rest ih =>
    rcases List.mem_cons.1 hmem with rfl | hrest
    · rw [List.find?_cons_of_pos (by simp)]
    · have hne := ne_of_nodup_cons hdistinct hrest
      rw [List.map_cons, List.nodup_cons] at hdistinct
      rw [List.find?_cons_of_neg (by simpa using Ne.symm hne), ih hdistinct.2 hrest]

/-- What is found in two lists is related where the lists are. -/
theorem find?_forall₂ {r : α → β → Prop} {p : α → Bool} {q : β → Bool} {l : List α}
    {others : List β} (h : List.Forall₂ r l others) (hsame : ∀ a b, r a b → q b = p a) :
    Option.Rel r (l.find? p) (others.find? q) := by
  induction h with
  | nil => exact .none
  | @cons a b l others hfirst _ ih =>
    rw [List.find?_cons, List.find?_cons, hsame a b hfirst]
    split
    · exact .some hfirst
    · exact ih

/-- What is selected from two lists is related where the selections agree on related elements. -/
theorem filterMap_forall₂ {γ δ : Type} {r : α → β → Prop} {s : γ → δ → Prop} {f : α → Option γ}
    {g : β → Option δ} {l : List α} {others : List β} (h : List.Forall₂ r l others)
    (hsame : ∀ a b, r a b → Option.Rel s (f a) (g b)) :
    List.Forall₂ s (l.filterMap f) (others.filterMap g) := by
  induction h with
  | nil => exact .nil
  | @cons a b l others hfirst _ ih =>
    have hrel := hsame a b hfirst
    rw [List.filterMap_cons, List.filterMap_cons]
    generalize f a = left, g b = right at hrel
    cases hrel with
    | some hvalue => exact .cons hvalue ih
    | none => exact ih

/-- Lists that are related element by element have the same image if related elements do. -/
theorem map_eq_of_forall₂ {γ : Type} {r : α → β → Prop} {f : α → γ} {g : β → γ} {l : List α}
    {others : List β} (h : List.Forall₂ r l others) (hsame : ∀ a b, r a b → g b = f a) :
    others.map g = l.map f := by
  induction h with
  | nil => rfl
  | cons hfirst _ ih => rw [List.map_cons, List.map_cons, hsame _ _ hfirst, ih]

/-- Entries are related where they have the same keys and related values. -/
theorem forall₂_entries {γ : Type} {r : β → γ → Prop} {entries : List (α × β)}
    {others : List (α × γ)} (hkeys : others.map Prod.fst = entries.map Prod.fst)
    (hvalues : List.Forall₂ r (entries.map Prod.snd) (others.map Prod.snd)) :
    List.Forall₂ (fun entry other => other.1 = entry.1 ∧ r entry.2 other.2) entries others := by
  induction entries generalizing others with
  | nil =>
    rw [List.map_nil, List.map_eq_nil_iff] at hkeys
    rw [hkeys]
    exact .nil
  | cons entry rest ih =>
    cases others with
    | nil => cases hkeys
    | cons other others =>
      rw [List.map_cons, List.map_cons, List.cons.injEq] at hkeys
      obtain ⟨hvalue, hrest⟩ := List.forall₂_cons.1 hvalues
      exact .cons ⟨hkeys.1, hvalue⟩ (ih hkeys.2 hrest)

/-- Keys that are paired with items are some of the keys, in their order. -/
theorem keys_zip_sublist (keys : List α) (items : List β) :
    ((keys.zip items).map Prod.fst).Sublist keys := by
  induction keys generalizing items with
  | nil => exact .slnil
  | cons key rest ih =>
    cases items with
    | nil => exact List.nil_sublist _
    | cons item items => exact (ih items).cons_cons key

/-- Looking up a key in entries that are related gives related values, or none in both. -/
theorem lookup_forall₂ [BEq α] {γ : Type} {r : β → γ → Prop} {entries : List (α × β)}
    {others : List (α × γ)}
    (h : List.Forall₂ (fun entry other => other.1 = entry.1 ∧ r entry.2 other.2) entries others)
    (key : α) : Option.Rel r (entries.lookup key) (others.lookup key) := by
  induction h with
  | nil => exact .none
  | @cons entry other entries others hfirst _ ih =>
    obtain ⟨k, v⟩ := entry
    obtain ⟨otherKey, w⟩ := other
    obtain ⟨hkey, hvalue⟩ := hfirst
    obtain rfl : k = otherKey := hkey.symm
    rw [List.lookup_cons, List.lookup_cons]
    cases key == k with
    | true => exact .some hvalue
    | false => exact ih

section

variable [BEq α] [LawfulBEq α]

/-- An entry in front does not hide those of other keys. -/
theorem lookup_cons_of_ne {entries : List (α × β)} {key other : α} {value : β}
    (h : other ≠ key) : ((key, value) :: entries).lookup other = entries.lookup other := by
  rw [List.lookup_cons, beq_eq_false_iff_ne.2 h]

/-- A key that no entry has is not found. -/
theorem lookup_eq_none_of_not_mem {entries : List (α × β)} {key : α}
    (h : key ∉ entries.map Prod.fst) : entries.lookup key = none := by
  induction entries with
  | nil => rfl
  | cons entry rest ih =>
    rw [List.map_cons, List.mem_cons, not_or] at h
    rw [← ih h.2]
    exact lookup_cons_of_ne h.1

/-- Where keys are distinct, every entry is found by its key. -/
theorem lookup_of_mem {entries : List (α × β)} {key : α} {value : β}
    (hdistinct : (entries.map Prod.fst).Nodup) (hmem : (key, value) ∈ entries) :
    entries.lookup key = some value := by
  induction entries with
  | nil => cases hmem
  | cons entry rest ih =>
    rcases List.mem_cons.1 hmem with rfl | hrest
    · exact List.lookup_cons_self
    · have hne := ne_of_nodup_cons hdistinct hrest
      rw [List.map_cons, List.nodup_cons] at hdistinct
      rw [← ih hdistinct.2 hrest]
      exact lookup_cons_of_ne hne

/-- A look-up among the entries whose keys pass a test. -/
theorem lookup_filter_key (p : α → Bool) (entries : List (α × β)) (key : α) :
    (entries.filter fun entry => p entry.1).lookup key =
      if p key then entries.lookup key else none := by
  induction entries with
  | nil => simp
  | cons entry rest ih =>
    obtain ⟨k, v⟩ := entry
    rw [List.filter_cons]
    by_cases hkey : key = k
    · subst hkey
      cases hp : p key with
      | true => simp
      | false => simpa [hp] using ih
    · rw [lookup_cons_of_ne hkey, ← ih]
      split
      · exact lookup_cons_of_ne hkey
      · rfl

/-- Looking up a key commutes with a change of the values. -/
theorem lookup_map_snd {γ : Type} (f : β → γ) (entries : List (α × β)) (key : α) :
    (entries.map fun entry => (entry.1, f entry.2)).lookup key = (entries.lookup key).map f := by
  induction entries with
  | nil => rfl
  | cons entry rest ih =>
    obtain ⟨other, value⟩ := entry
    by_cases hkey : key = other
    · rw [hkey, List.map_cons, List.lookup_cons_self, List.lookup_cons_self]
      rfl
    · rw [List.map_cons, lookup_cons_of_ne hkey, lookup_cons_of_ne hkey]
      exact ih

/-- What is found by a key is an entry. -/
theorem mem_of_lookup {entries : List (α × β)} {key : α} {value : β}
    (h : entries.lookup key = some value) : (key, value) ∈ entries := by
  induction entries with
  | nil => cases h
  | cons entry rest ih =>
    obtain ⟨k, v⟩ := entry
    rw [List.lookup_cons] at h
    split at h
    · next hk =>
      cases h
      rw [eq_of_beq hk]
      exact List.mem_cons_self
    · exact List.mem_cons_of_mem _ (ih h)

/-- The keys of the entries are those that are found. -/
theorem mem_keys_iff_lookup {entries : List (α × β)} {key : α} :
    key ∈ entries.map Prod.fst ↔ (entries.lookup key).isSome = true := by
  cases hlookup : entries.lookup key with
  | none =>
    simp only [Option.isSome_none, Bool.false_eq_true, iff_false]
    intro hkey
    obtain ⟨entry, hentry, rfl⟩ := List.mem_map.1 hkey
    rw [List.lookup_eq_none_iff] at hlookup
    simpa using hlookup entry hentry
  | some value =>
    simp only [Option.isSome_some, iff_true]
    exact List.mem_map_of_mem (mem_of_lookup hlookup)

/-- Where keys are distinct, a look-up does not depend on the order of the entries. -/
theorem lookup_eq_of_perm {entries others : List (α × β)} (h : entries.Perm others)
    (hdistinct : (entries.map Prod.fst).Nodup) (key : α) :
    others.lookup key = entries.lookup key := by
  have hothers : (others.map Prod.fst).Nodup := (h.map Prod.fst).nodup_iff.1 hdistinct
  cases hlookup : entries.lookup key with
  | some value => exact lookup_of_mem hothers (h.subset (mem_of_lookup hlookup))
  | none =>
    apply lookup_eq_none_of_not_mem
    rw [← (h.map Prod.fst).mem_iff, mem_keys_iff_lookup, hlookup]
    exact Bool.false_ne_true

end

/-- A change that leaves every value as it is leaves the entries as they are. -/
theorem map_snd_eq_self {f : β → β} {entries : List (α × β)}
    (h : ∀ entry ∈ entries, f entry.2 = entry.2) :
    entries.map (fun entry => (entry.1, f entry.2)) = entries := by
  have hsame : entries.map (fun entry => (entry.1, f entry.2)) = entries.map id :=
    List.map_congr_left fun entry hentry => Prod.ext rfl (h entry hentry)
  rw [hsame, List.map_id]

/-- A mapping with distinct keys agrees with itself. -/
theorem Entries.agree_self [DecidableEq α] {same : β → β → Bool} {entries : List (α × β)}
    (hdistinct : (Entries.keys entries).Nodup) (hsame : ∀ value, same value value = true) :
    Entries.agree same entries entries = true := by
  unfold Entries.agree
  rw [Bool.and_eq_true]
  refine ⟨beq_self_eq_true _, ?_⟩
  rw [List.all_eq_true]
  intro entry hentry
  have hvalue : Entries.get? entries entry.1 = some entry.2 := lookup_of_mem hdistinct hentry
  rw [hvalue]
  exact hsame entry.2

/-- An entry of one mapping is found in another one that agrees with it. -/
theorem Entries.lookup_of_agree [DecidableEq α] [DecidableEq β] {left right : List (α × β)}
    (h : Entries.agree (· == ·) left right = true) {key : α} {value : β}
    (hmem : (key, value) ∈ left) : right.lookup key = some value := by
  unfold Entries.agree at h
  rw [Bool.and_eq_true, List.all_eq_true] at h
  have hvalue := h.2 (key, value) hmem
  split at hvalue
  · next found hfound =>
    obtain rfl : value = found := eq_of_beq hvalue
    exact hfound
  · cases hvalue

/-- Mappings with the same entries agree, whatever the order. -/
theorem Entries.agree_of_perm [DecidableEq α] [DecidableEq β] {left right : List (α × β)}
    (h : left.Perm right) (hdistinct : (right.map Prod.fst).Nodup) :
    Entries.agree (· == ·) left right = true := by
  unfold Entries.agree
  rw [Bool.and_eq_true, beq_iff_eq, List.all_eq_true]
  refine ⟨h.length_eq, ?_⟩
  intro entry hentry
  have hvalue : Entries.get? right entry.1 = some entry.2 :=
    lookup_of_mem hdistinct (h.subset hentry)
  rw [hvalue]
  exact beq_self_eq_true entry.2

/-- Mappings of one length have the same keys if those of the first are distinct and in the
second. -/
theorem Entries.mem_keys_of_subset {left : List (α × β)} {γ : Type} {right : List (α × γ)}
    (hdistinct : (left.map Prod.fst).Nodup) (hlength : left.length = right.length)
    (hsubset : left.map Prod.fst ⊆ right.map Prod.fst) {key : α}
    (hkey : key ∈ right.map Prod.fst) : key ∈ left.map Prod.fst := by
  have hsubperm := List.subperm_of_subset hdistinct hsubset
  have hperm := hsubperm.perm_of_length_le (by simp [hlength])
  exact hperm.mem_iff.2 hkey

/-- Mappings that agree have the same keys, if those of the first are distinct. -/
theorem Entries.mem_keys_of_agree [DecidableEq α] [DecidableEq β] {left right : List (α × β)}
    (h : Entries.agree (· == ·) left right = true) (hdistinct : (left.map Prod.fst).Nodup) {key : α}
    (hkey : key ∈ right.map Prod.fst) : key ∈ left.map Prod.fst := by
  have hlength : left.length = right.length := by
    unfold Entries.agree at h
    rw [Bool.and_eq_true, beq_iff_eq] at h
    exact h.1
  refine Entries.mem_keys_of_subset hdistinct hlength ?_ hkey
  intro other hother
  obtain ⟨entry, hentry, rfl⟩ := List.mem_map.1 hother
  exact List.mem_map.2 ⟨_, mem_of_lookup (Entries.lookup_of_agree h hentry), rfl⟩

/-- Mappings that agree have the same value for every key, and lack the same keys. -/
theorem Entries.lookup_eq_of_agree [DecidableEq α] [DecidableEq β] {left right : List (α × β)}
    (h : Entries.agree (· == ·) left right = true) (hdistinct : (left.map Prod.fst).Nodup)
    (key : α) : right.lookup key = left.lookup key := by
  cases hleft : left.lookup key with
  | some value => exact Entries.lookup_of_agree h (mem_of_lookup hleft)
  | none =>
    refine lookup_eq_none_of_not_mem fun hkey => ?_
    obtain ⟨entry, hentry, rfl⟩ := List.mem_map.1 (Entries.mem_keys_of_agree h hdistinct hkey)
    rw [lookup_of_mem hdistinct hentry] at hleft
    cases hleft

/-- Agreement goes both ways between mappings with distinct keys. -/
theorem Entries.agree_symm [DecidableEq α] [DecidableEq β] {left right : List (α × β)}
    (hdistinct : (left.map Prod.fst).Nodup) (hothers : (right.map Prod.fst).Nodup)
    (h : Entries.agree (· == ·) left right = true) :
    Entries.agree (· == ·) right left = true := by
  have hlookup := Entries.lookup_eq_of_agree h hdistinct
  unfold Entries.agree at h ⊢
  rw [Bool.and_eq_true, beq_iff_eq] at h ⊢
  refine ⟨h.1.symm, List.all_eq_true.2 ?_⟩
  intro entry hentry
  have hvalue : Entries.get? left entry.1 = some entry.2 := by
    rw [← lookup_of_mem hothers hentry]
    exact (hlookup entry.1).symm
  rw [hvalue]
  exact beq_self_eq_true entry.2

/-- A new key is written at the end. -/
theorem Entries.insert_of_not_mem [DecidableEq α] {key : α} {value : β} {entries : List (α × β)}
    (h : key ∉ Entries.keys entries) :
    Entries.insert key value entries = entries ++ [(key, value)] := by
  induction entries with
  | nil => rfl
  | cons entry rest ih =>
    obtain ⟨k, v⟩ := entry
    rw [Entries.keys, List.map_cons, List.mem_cons, not_or] at h
    rw [Entries.insert, if_neg (Ne.symm h.1), ih h.2, List.cons_append]

/-- Pairs with distinct keys are written one behind the other. -/
theorem Entries.ofPairs_eq_self [DecidableEq α] {pairs : List (α × β)}
    (h : (Entries.keys pairs).Nodup) : Entries.ofPairs pairs = pairs := by
  -- said of every mapping that is written to, so that the induction goes through
  suffices hfold : ∀ before : List (α × β), (Entries.keys (before ++ pairs)).Nodup →
      pairs.foldl (fun entries pair => Entries.insert pair.1 pair.2 entries) before =
        before ++ pairs from hfold [] h
  clear h
  induction pairs with
  | nil => simp
  | cons pair rest ih =>
    intro before hnodup
    have hkey : pair.1 ∉ Entries.keys before := by
      rw [Entries.keys, List.map_append, List.nodup_append] at hnodup
      intro hmem
      exact hnodup.2.2 _ hmem _ (by simp) rfl
    have hmoved : before ++ pair :: rest = (before ++ [pair]) ++ rest := by simp
    rw [List.foldl_cons, Entries.insert_of_not_mem hkey, hmoved]
    exact ih _ (by rwa [← hmoved])

/-- After a write every entry is the written one or was there before. -/
theorem Entries.mem_insert [DecidableEq α] {key : α} {value : β} {entries : List (α × β)}
    {entry : α × β} (h : entry ∈ Entries.insert key value entries) :
    entry = (key, value) ∨ entry ∈ entries := by
  induction entries with
  | nil => exact Or.inl (List.mem_singleton.1 h)
  | cons first rest ih =>
    obtain ⟨k, v⟩ := first
    unfold Entries.insert at h
    split at h
    · rcases List.mem_cons.1 h with rfl | hrest
      · exact Or.inl rfl
      · exact Or.inr (List.mem_cons_of_mem _ hrest)
    · rcases List.mem_cons.1 h with rfl | hrest
      · exact Or.inr List.mem_cons_self
      · exact (ih hrest).imp id (List.mem_cons_of_mem _)

/-- Every entry was written. -/
theorem Entries.mem_of_mem_ofPairs [DecidableEq α] {pairs : List (α × β)} {entry : α × β}
    (h : entry ∈ Entries.ofPairs pairs) : entry ∈ pairs := by
  suffices hfold : ∀ start : List (α × β),
      entry ∈ pairs.foldl (fun entries pair => Entries.insert pair.1 pair.2 entries) start →
        entry ∈ pairs ∨ entry ∈ start from (hfold [] h).resolve_right nofun
  clear h
  induction pairs with
  | nil => exact fun _ hentry => Or.inr hentry
  | cons first rest ih =>
    intro start hentry
    rcases ih _ hentry with hrest | hstart
    · exact Or.inl (List.mem_cons_of_mem _ hrest)
    · rcases Entries.mem_insert hstart with rfl | hstart
      · exact Or.inl List.mem_cons_self
      · exact Or.inr hstart

/-- After pairs are written one behind the other, each key has its last value. -/
theorem Entries.lookup_ofPairs [DecidableEq α] (pairs : List (α × β)) (key : α) :
    (Entries.ofPairs pairs).lookup key = pairs.reverse.lookup key := by
  suffices hfold : ∀ start : List (α × β),
      (pairs.foldl (fun entries pair => Entries.insert pair.1 pair.2 entries) start).lookup key =
        (pairs.reverse.lookup key).or (start.lookup key) by
    rw [Entries.ofPairs, hfold, List.lookup_nil, Option.or_none]
  induction pairs with
  | nil => exact fun _ => rfl
  | cons pair rest ih =>
    intro start
    obtain ⟨k, v⟩ := pair
    have hinsert : (Entries.insert k v start).lookup key =
        if key = k then some v else start.lookup key := Entries.get?_insert k key v start
    rw [List.foldl_cons, ih, hinsert, List.reverse_cons, List.lookup_append, Option.or_assoc]
    by_cases hkey : key = k
    · rw [if_pos hkey, hkey, List.lookup_cons_self, Option.some_or]
    · rw [if_neg hkey, lookup_cons_of_ne hkey, List.lookup_nil, Option.none_or]

/-- No key that was written is lost. -/
theorem Entries.mem_keys_ofPairs [DecidableEq α] {pairs : List (α × β)} {key : α}
    (h : key ∈ pairs.map Prod.fst) : key ∈ Entries.keys (Entries.ofPairs pairs) := by
  suffices hfold : ∀ start : List (α × β), key ∈ pairs.map Prod.fst ∨ key ∈ Entries.keys start →
      key ∈ Entries.keys
        (pairs.foldl (fun entries pair => Entries.insert pair.1 pair.2 entries) start) from
    hfold [] (Or.inl h)
  clear h
  induction pairs with
  | nil => exact fun _ hkey => hkey.resolve_left nofun
  | cons first rest ih =>
    intro start hkey
    refine ih _ ?_
    rw [Entries.mem_keys_insert]
    rcases hkey with hkey | hkey
    · rcases List.mem_cons.1 hkey with rfl | hrest
      · exact Or.inr (Or.inl rfl)
      · exact Or.inl hrest
    · exact Or.inr (Or.inr hkey)

/-- Pairs that are written one after the other are all kept if and only if no key comes with two
values. -/
theorem Entries.forall_mem_ofPairs_iff [DecidableEq α] {pairs : List (α × β)} :
    (∀ pair ∈ pairs, pair ∈ Entries.ofPairs pairs) ↔
      ∀ pair ∈ pairs, ∀ other ∈ pairs, other.1 = pair.1 → other.2 = pair.2 := by
  constructor
  · intro h pair hpair other hother hkey
    have hsame := List.inj_on_of_nodup_map (Entries.nodup_keys_ofPairs pairs) (h other hother)
      (h pair hpair) hkey
    rw [hsame]
  · intro h pair hpair
    obtain ⟨entry, hentry, hkey⟩ :=
      List.mem_map.1 (Entries.mem_keys_ofPairs (List.mem_map_of_mem hpair))
    have hvalue := h pair hpair entry (Entries.mem_of_mem_ofPairs hentry) hkey
    rwa [Prod.ext hkey hvalue] at hentry

end TypedXml
