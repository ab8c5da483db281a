/-!
# Keyed entries in insertion order

A mapping whose order can be observed is a list of key and value pairs.  A key is looked up at its
first place; writing a key that is present replaces the value at that place, and a new key goes to
the end.  `insert` keeps keys distinct, and two mappings agree when every key has the same value in
both, whatever the order.
-/

set_option autoImplicit false

namespace TypedXml.Entries

variable {α β : Type} [DecidableEq α]

/-- The keys, in order. -/
def keys (entries : List (α × β)) : List α :=
  entries.map Prod.fst

/-- The value of a key at its first place. -/
def get? (entries : List (α × β)) (key : α) : Option β :=
  entries.lookup key

/-- Write one key: in place when it is present, at the end when it is new. -/
def insert (key : α) (value : β) : List (α × β) → List (α × β)
  | [] => [(key, value)]
  | (k, v) :: rest => if k = key then (key, value) :: rest else (k, v) :: insert key value rest

/-- Pairs written one after the other into an empty mapping. -/
def ofPairs (pairs : List (α × β)) : List (α × β) :=
  pairs.foldl (fun entries pair => insert pair.1 pair.2 entries) []

/-- Whether two mappings have as many entries and each entry of the first is one of the second. -/
def agree (same : β → β → Bool) (left right : List (α × β)) : Bool :=
  left.length == right.length &&
    left.all fun entry => match get? right entry.1 with
      | some value => same entry.2 value
      | none => false

/-- A write adds its key and keeps every other one. -/
theorem mem_keys_insert {key k : α} {value : β} {entries : List (α × β)} :
    k ∈ keys (insert key value entries) ↔ k = key ∨ k ∈ keys entries := by
  induction entries with
  | nil => simp [insert, keys]
  | cons entry rest ih =>
    obtain ⟨k', v'⟩ := entry
    by_cases h : k' = key
    · subst h; simp [insert, keys]
    · simp only [insert, h, if_false]
      simp only [keys, List.map_cons, List.mem_cons] at ih ⊢
      rw [ih]
      constructor
      · rintro (h | h | h) <;> simp [h]
      · rintro (h | h | h) <;> simp [h]

/-- A write keeps keys distinct. -/
theorem nodup_keys_insert {key : α} {value : β} {entries : List (α × β)}
    (h : (keys entries).Nodup) : (keys (insert key value entries)).Nodup := by
  induction entries with
  | nil => simp [insert, keys]
  | cons entry rest ih =>
    obtain ⟨k, v⟩ := entry
    simp only [keys, List.map_cons, List.nodup_cons] at h
    by_cases hk : k = key
    · subst hk
      simpa [insert, keys] using h
    · simp only [insert, hk, if_false]
      refine List.nodup_cons.2 ⟨?_, ih h.2⟩
      intro hmem
      rcases mem_keys_insert.1 hmem with h' | h'
      · exact hk h'
      · exact h.1 h'

/-- Writing pairs one after the other leaves every key once. -/
theorem nodup_keys_ofPairs (pairs : List (α × β)) : (keys (ofPairs pairs)).Nodup := by
  suffices h : ∀ (start : List (α × β)), (keys start).Nodup →
      (keys (pairs.foldl (fun entries pair => insert pair.1 pair.2 entries) start)).Nodup from
    h [] (by simp [keys])
  induction pairs with
  | nil => exact fun _ h => h
  | cons pair rest ih => exact fun _ h => ih _ (nodup_keys_insert h)

/-- After a write the written key has the written value and every other key keeps its own. -/
theorem get?_insert (key k : α) (value : β) (entries : List (α × β)) :
    get? (insert key value entries) k = if k = key then some value else get? entries k := by
  induction entries with
  | nil =>
    by_cases h : k = key
    · simp [insert, get?, h]
    · have : (k == key) = false := by simpa using h
      simp [insert, get?, List.lookup_cons, h, this]
  | cons entry rest ih =>
    obtain ⟨k', v'⟩ := entry
    simp only [get?] at ih
    by_cases hk : k' = key
    · subst hk
      by_cases h : k = k'
      · simp [insert, get?, h]
      · have : (k == k') = false := by simpa using h
        simp [insert, get?, List.lookup_cons, h, this]
    · simp only [insert, hk, if_false, get?, List.lookup_cons]
      by_cases h : k = k'
      · subst h; simp [hk]
      · have : (k == k') = false := by simpa using h
        simp [this, ih]

end TypedXml.Entries
