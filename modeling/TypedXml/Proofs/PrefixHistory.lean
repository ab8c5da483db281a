import Mathlib.Data.List.Induction
import TypedXml.Proofs.Entries
import TypedXml.Proofs.PrefixTable

/-!
# Histories of prefix tables

A table comes from an empty one by declarations and by nothing else.  Whatever these ask for, and
in whatever order, the namespaces of the table are the declared ones, each with a prefix of its own
that it keeps from its first declaration on.  A preferred prefix may look like a made-up one, so
the search for a free prefix can meet candidates that are bound; it ends all the same, because one
candidate more than there are bindings cannot all be bound.
-/

set_option autoImplicit false

namespace TypedXml

namespace PrefixTable

/-! ## The search for a made-up prefix -/

/-- How a search from a number on goes if nothing but a free candidate ends it: it looks at `tried`
candidates, all of them bound but the last one, and that one is `label`. -/
inductive Searches (table : PrefixTable) : (n tried : Nat) → (label : String) → Prop
  | free {n : Nat} (unbound : table.isBound (generated n) = false) :
      Searches table n 1 (generated n)
  | bound {n tried : Nat} {label : String} (taken : table.isBound (generated n) = true)
      (rest : Searches table (n + 1) tried label) : Searches table n (tried + 1) label

/-- A search that is given enough tries to find a free candidate ends of its own accord. -/
theorem exists_searches_freshFrom {table : PrefixTable} {n tries : Nat}
    (h : table.isBound (table.freshFrom n tries) = false) :
    ∃ tried ≤ tries + 1, table.Searches n tried (table.freshFrom n tries) := by
  induction tries generalizing n with
  | zero => exact ⟨1, Nat.le_refl 1, .free h⟩
  | succ tries ih =>
    unfold freshFrom at h ⊢
    by_cases hbound : table.isBound (generated n) = true
    · rw [if_pos hbound] at h ⊢
      obtain ⟨tried, hle, hsearch⟩ := ih h
      exact ⟨tried + 1, Nat.succ_le_succ hle, .bound hbound hsearch⟩
    · rw [if_neg hbound]
      exact ⟨1, Nat.le_add_left 1 _, .free (Bool.not_eq_true _ ▸ hbound)⟩

/-- The search for a made-up prefix looks at one candidate more than there are bindings at most. -/
theorem exists_searches (table : PrefixTable) :
    ∃ tried ≤ table.size + 1, table.Searches table.size tried table.fresh :=
  exists_searches_freshFrom (isBound_fresh table)

/-! ## One declaration -/

variable {table : PrefixTable} {uri : String} {preferred : Option String}

/-- A declaration adds its namespace behind the others unless it is one of them. -/
theorem spaces_declare :
    (table.declare uri preferred).bindings.map Prod.fst =
      table.bindings.map Prod.fst ++ [uri].removeAll (table.bindings.map Prod.fst) := by
  unfold declare prefixOf?
  cases hlookup : table.bindings.lookup uri with
  | some label =>
    have hmem : uri ∈ table.bindings.map Prod.fst := by
      rw [mem_keys_iff_lookup, hlookup]
      rfl
    simp [List.removeAll, hmem]
  | none =>
    have hnew : uri ∉ table.bindings.map Prod.fst := by
      rw [mem_keys_iff_lookup, hlookup]
      exact Bool.false_ne_true
    simp [List.removeAll, hnew]

/-! ## Any number of declarations -/

/-- A declaration that is asked for: a namespace with the prefix that is preferred for it. -/
abbrev Call := String × Option String

/-- The table after calls, one behind the other, on an empty one. -/
def after (calls : List Call) : PrefixTable :=
  calls.foldl (fun table call => table.declare call.1 call.2) empty

/-- What a call gives back after others: the prefix that its namespace has in the table then. -/
def returned (before : List Call) (call : Call) : Option String :=
  (after (before ++ [call])).prefixOf? call.1

variable {calls : List Call}

/-- One call more is one declaration more. -/
theorem after_concat (calls : List Call) (call : Call) :
    after (calls ++ [call]) = (after calls).declare call.1 call.2 :=
  List.foldl_concat _ _ _ _

/-- The prefixes of a table are not empty and none of them stands twice. -/
theorem sound_after (calls : List Call) : Sound (· ≠ "") (fun _ => True) (after calls) := by
  induction calls using List.reverseRecOn with
  | nil => exact sound_empty
  | append_singleton calls call ih =>
    rw [after_concat]
    refine sound_declare ?_ ih trivial fun label _ => Decidable.em (label = "")
    rintro label hlabel rfl
    cases hlabel

/-- The namespaces of a table are those of the calls, in the order in which they first came. -/
theorem spaces_after (calls : List Call) :
    (after calls).bindings.map Prod.fst = (calls.map Prod.fst).eraseDups := by
  induction calls using List.reverseRecOn with
  | nil => rfl
  | append_singleton calls call ih =>
    have hremove : [call.1].removeAll (calls.map Prod.fst).eraseDups =
        ([call.1].removeAll (calls.map Prod.fst)).eraseDups := by
      by_cases hmem : call.1 ∈ calls.map Prod.fst
      · simp [List.removeAll, hmem]
      · simp [List.removeAll, hmem, List.eraseDups_cons]
    rw [after_concat, spaces_declare, ih, hremove, List.map_append, List.map_singleton,
      List.eraseDups_append]

/-- Later calls leave the prefixes that there are. -/
theorem extends_after (calls later : List Call) :
    Extends (after calls) (after (calls ++ later)) := by
  induction later using List.reverseRecOn with
  | nil =>
    rw [List.append_nil]
    exact fun _ _ h => h
  | append_singleton later call ih =>
    rw [← List.append_assoc, after_concat]
    exact ih.trans extends_declare

/-- The namespaces with a prefix are those of the calls. -/
theorem exists_prefixOf?_iff :
    (∃ label, (after calls).prefixOf? uri = some label) ↔ uri ∈ calls.map Prod.fst := by
  rw [← Option.isSome_iff_exists, prefixOf?, ← mem_keys_iff_lookup, spaces_after,
    List.mem_eraseDups]

/-- Two namespaces with one prefix are the same. -/
theorem eq_of_prefixOf? {other label : String} (h : (after calls).prefixOf? uri = some label)
    (hother : (after calls).prefixOf? other = some label) : other = uri :=
  congrArg Prod.fst (List.inj_on_of_nodup_map (sound_after calls).distinct (mem_of_lookup hother)
    (mem_of_lookup h) rfl)

/-- A call gives back a prefix, and its namespace has this prefix after all later calls, too. -/
theorem exists_returned (before : List Call) (call : Call) :
    ∃ label, returned before call = some label ∧
      ∀ later, (after (before ++ call :: later)).prefixOf? call.1 = some label := by
  have hsome : ((after (before ++ [call])).prefixOf? call.1).isSome = true := by
    rw [after_concat]
    exact isSome_declare
  obtain ⟨label, hlabel⟩ := Option.isSome_iff_exists.1 hsome
  refine ⟨label, hlabel, fun later => ?_⟩
  rw [← List.singleton_append, ← List.append_assoc]
  exact extends_after _ later _ _ hlabel

/-- What a table keeps to, whatever the calls that it comes from. -/
structure IsFaithful (calls : List Call) : Prop where
  /-- The namespaces that have a prefix are the declared ones. -/
  declared : ∀ uri, (∃ label, (after calls).prefixOf? uri = some label) ↔ uri ∈ calls.map Prod.fst
  /-- No two namespaces have the same prefix. -/
  apart : ∀ uri other label, (after calls).prefixOf? uri = some label →
    (after calls).prefixOf? other = some label → other = uri
  /-- Each call gives back the prefix that its namespace has then, after every call that is still
  to come and in the end. -/
  kept : ∀ before call later, calls = before ++ call :: later →
    ∃ label, returned before call = some label ∧
      ∀ next, next <+: later → (after (before ++ call :: next)).prefixOf? call.1 = some label
  /-- No prefix is empty or begins like a reserved one. -/
  usable : ∀ binding ∈ (after calls).bindings,
    binding.2 ≠ "" ∧ "xml".toList.isPrefixOf binding.2.toList = false
  /-- The bindings are in the order in which their namespaces were first declared. -/
  ordered : (after calls).bindings.map Prod.fst = (calls.map Prod.fst).eraseDups
  /-- A search for a made-up prefix, before any of the calls, looks at one candidate more than
  there are bindings at most. -/
  searched : ∀ before, before <+: calls → ∃ tried ≤ (after before).size + 1,
    (after before).Searches (after before).size tried (after before).fresh

/-- Prefixes are told apart and stay what they are over any history of declarations. -/
theorem isFaithful_after (calls : List Call) : IsFaithful calls where
  declared _ := exists_prefixOf?_iff
  apart _ _ _ := eq_of_prefixOf?
  kept before call later _ := by
    obtain ⟨label, hreturned, hkept⟩ := exists_returned before call
    exact ⟨label, hreturned, fun next _ => hkept next⟩
  usable binding hbinding := by
    have hlabel := (sound_after calls).labels binding hbinding
    exact ⟨hlabel.name, hlabel.free⟩
  ordered := spaces_after calls
  searched before _ := exists_searches (after before)

/-- A preferred prefix that looks made up stands in the way of the first candidate. -/
example : (after [("urn:a", some "ns1"), ("urn:b", none)]).bindings =
    [("urn:a", "ns1"), ("urn:b", "ns2")] := by
  decide

end PrefixTable

end TypedXml
