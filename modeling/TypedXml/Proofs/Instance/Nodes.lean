import TypedXml.Instance.Depth
import TypedXml.Proofs.Entries
import TypedXml.Proofs.Outcome

/-!
# Nodes of equal instances

Two instances are equal if each field and each attribute of the one is found in the other and there
are as many of them.  Where no key stands twice this goes both ways, so that equal instances have
the same attributes at the nodes that stand in the same places.
-/

set_option autoImplicit false

namespace TypedXml.Instance

/-- A condition holds of all nodes of an instance, elements of wildcards left out. -/
inductive Everywhere (p : Instance → Prop) : Instance → Prop
  | intro {node : Instance} (root : p node)
      (inside : ∀ item ∈ node.nodesBelow, Everywhere p item) : Everywhere p node

namespace Everywhere

variable {p q : Instance → Prop} {node : Instance}

/-- A condition that holds everywhere holds of the root. -/
theorem root (h : Everywhere p node) : p node := by
  cases h with
  | intro root inside => exact root

/-- A condition that holds everywhere holds everywhere in the nodes below. -/
theorem inside (h : Everywhere p node) : ∀ item ∈ node.nodesBelow, Everywhere p item := by
  cases h with
  | intro root inside => exact inside

/-- Two conditions that hold everywhere hold together everywhere. -/
theorem both (hp : Everywhere p node) (hq : Everywhere q node) :
    Everywhere (fun node => p node ∧ q node) node := by
  induction hp with
  | intro root _ ih =>
    refine .intro ⟨root, hq.root⟩ ?_
    intro item hitem
    exact ih item hitem (hq.inside item hitem)

/-- A condition that holds everywhere implies every weaker one everywhere. -/
theorem imp (h : Everywhere p node) (himp : ∀ node, p node → q node) : Everywhere q node := by
  induction h with
  | intro root _ ih => exact .intro (himp _ root) ih

end Everywhere

/-- The attributes of a node with their scalars, none if it has no place for them. -/
def scalars (node : Instance) : List (String × Scalar) :=
  node.attributes?.getD []

/-- Whether no key stands twice in a node. -/
structure KeysDistinct (node : Instance) : Prop where
  fields : (node.fields.map Prod.fst).Nodup
  scalars : (node.scalars.map Prod.fst).Nodup

/-- Whether a node has no attribute of a name. -/
def Lacks (name : String) (node : Instance) : Prop :=
  name ∉ node.scalars.map Prod.fst

/-! ## Equal nodes -/

section

variable {name : String} {space : Namespace} {value : Scalar} {node : Instance}
  {attributes : List (String × Scalar)} {entries : List (String × Field)}

/-- A node is equal to one with a scalar alone if it is the same node. -/
theorem same_scalar_iff :
    same ⟨name, space, .scalar value⟩ node = true ↔ node = ⟨name, space, .scalar value⟩ := by
  obtain ⟨otherName, otherSpace, content⟩ := node
  cases content with
  | scalar other =>
    simp only [same, sameContent, Bool.and_eq_true, beq_iff_eq, mk.injEq, Content.scalar.injEq]
    constructor
    · rintro ⟨⟨rfl, rfl⟩, rfl⟩
      exact ⟨rfl, rfl, rfl⟩
    · rintro ⟨rfl, rfl, rfl⟩
      exact ⟨⟨rfl, rfl⟩, rfl⟩
  | text | fields => simp [same, sameContent]

/-- A node is equal to one with a scalar and attributes if it has the same scalar and attributes
that agree. -/
theorem same_text_iff :
    same ⟨name, space, .text value attributes⟩ node = true ↔
      ∃ others, node = ⟨name, space, .text value others⟩ ∧
        Entries.agree (· == ·) attributes others = true := by
  obtain ⟨otherName, otherSpace, content⟩ := node
  cases content with
  | text other others =>
    simp only [same, sameContent, Bool.and_eq_true, beq_iff_eq, mk.injEq, Content.text.injEq]
    constructor
    · rintro ⟨⟨rfl, rfl⟩, rfl, hagree⟩
      exact ⟨others, ⟨rfl, rfl, rfl, rfl⟩, hagree⟩
    · rintro ⟨_, ⟨rfl, rfl, rfl, rfl⟩, hagree⟩
      exact ⟨⟨rfl, rfl⟩, rfl, hagree⟩
  | scalar | fields => simp [same, sameContent]

/-- A node is equal to one with fields if it has as many, each of the fields is found in it, and the
attributes agree. -/
theorem same_fields_iff :
    same ⟨name, space, .fields entries attributes⟩ node = true ↔
      ∃ others scalars, node = ⟨name, space, .fields others scalars⟩ ∧
        entries.length = others.length ∧ sameFields entries others = true ∧
        Entries.agree (· == ·) attributes scalars = true := by
  obtain ⟨otherName, otherSpace, content⟩ := node
  cases content with
  | fields others scalars =>
    simp only [same, sameContent, Bool.and_eq_true, beq_iff_eq, mk.injEq, Content.fields.injEq]
    constructor
    · rintro ⟨⟨rfl, rfl⟩, ⟨hlength, hfields⟩, hagree⟩
      exact ⟨others, scalars, ⟨rfl, rfl, rfl, rfl⟩, hlength, hfields, hagree⟩
    · rintro ⟨_, _, ⟨rfl, rfl, rfl, rfl⟩, hlength, hfields, hagree⟩
      exact ⟨⟨rfl, rfl⟩, ⟨hlength, hfields⟩, hagree⟩
  | scalar | text => simp [same, sameContent]

end

/-- Lists of nodes are equal if their nodes are one by one. -/
theorem sameAll_iff {items others : List Instance} :
    sameAll items others = true ↔
      List.Forall₂ (fun item other => item.same other = true) items others := by
  induction items generalizing others with
  | nil =>
    cases others with
    | nil => simp [sameAll]
    | cons first rest => simp [sameAll]
  | cons item rest ih =>
    cases others with
    | nil => simp [sameAll]
    | cons first others => rw [sameAll, Bool.and_eq_true, ih, List.forall₂_cons]

/-- Fields are found in others if each key leads to an equal field there. -/
theorem sameFields_of_forall {entries others : List (String × Field)}
    (h : ∀ key field, (key, field) ∈ entries →
      ∃ other, others.lookup key = some other ∧ sameField field other = true) :
    sameFields entries others = true := by
  induction entries with
  | nil => rw [sameFields]
  | cons entry rest ih =>
    obtain ⟨key, field⟩ := entry
    obtain ⟨other, hother, hsame⟩ := h key field List.mem_cons_self
    rw [sameFields, hother, Bool.and_eq_true]
    exact ⟨hsame, ih fun key field hmem => h key field (List.mem_cons_of_mem _ hmem)⟩

/-- A field that is found in others is equal to the one of its key there. -/
theorem exists_of_sameFields {fields others : List (String × Field)}
    (h : sameFields fields others = true) {key : String} {field : Field}
    (hmem : (key, field) ∈ fields) :
    ∃ other, others.lookup key = some other ∧ sameField field other = true := by
  induction fields with
  | nil => cases hmem
  | cons entry rest ih =>
    obtain ⟨k, f⟩ := entry
    unfold sameFields at h
    rw [Bool.and_eq_true] at h
    rcases List.mem_cons.1 hmem with heq | hrest
    · cases heq
      have hfirst := h.1
      split at hfirst
      · next other hother => exact ⟨other, hother, hfirst⟩
      · cases hfirst
    · exact ih h.2 hrest

/-- Every typed occurrence in a field is equal to one in an equal field. -/
theorem exists_of_sameField {field other : Field} (h : sameField field other = true)
    {item : Instance} (hitem : item ∈ other.instances) :
    ∃ found ∈ field.instances, found.same item = true := by
  cases other with
  | one single =>
    cases field with
    | one found =>
      unfold sameField at h
      rw [Field.instances, List.mem_singleton] at hitem
      subst hitem
      exact ⟨found, List.mem_singleton_self _, h⟩
    | many items => simp [sameField] at h
    | any elements => simp [sameField] at h
  | many others =>
    cases field with
    | one found => simp [sameField] at h
    | many items =>
      rw [sameField, sameAll_iff] at h
      obtain ⟨found, hfound, hsame⟩ := exists_of_mem_results h hitem
      exact ⟨found, hfound, hsame⟩
    | any elements => simp [sameField] at h
  | any elements => cases hitem

/-- What makes two nodes equal: as many fields and attributes, and each of those of the first one
is in the second one. -/
theorem parts_of_same {left right : Instance} (h : left.same right = true) :
    (left.fields.length = right.fields.length ∧ sameFields left.fields right.fields = true) ∧
      Entries.agree (· == ·) left.scalars right.scalars = true := by
  obtain ⟨name, space, content⟩ := left
  have hnone : sameFields [] [] = true := by rw [sameFields]
  cases content with
  | scalar value =>
    obtain rfl := same_scalar_iff.1 h
    exact ⟨⟨rfl, hnone⟩, rfl⟩
  | text value attributes =>
    obtain ⟨others, rfl, hagree⟩ := same_text_iff.1 h
    exact ⟨⟨rfl, hnone⟩, hagree⟩
  | fields entries attributes =>
    obtain ⟨others, scalars, rfl, hlength, hfields, hagree⟩ := same_fields_iff.1 h
    exact ⟨⟨hlength, hfields⟩, hagree⟩

/-- An attribute of a node is an attribute of each equal node. -/
theorem mem_scalars_of_same {left right : Instance} (hleft : KeysDistinct left)
    (h : left.same right = true) {name : String} (hname : name ∈ right.scalars.map Prod.fst) :
    name ∈ left.scalars.map Prod.fst :=
  Entries.mem_keys_of_agree (parts_of_same h).2 hleft.scalars hname

/-- Every node below a node is equal to one below an equal node. -/
theorem exists_below_of_same {left right : Instance} (hleft : KeysDistinct left)
    (hright : KeysDistinct right) (h : left.same right = true) {item : Instance}
    (hitem : item ∈ right.nodesBelow) : ∃ found ∈ left.nodesBelow, found.same item = true := by
  obtain ⟨⟨hlength, hfields⟩, _⟩ := parts_of_same h
  obtain ⟨⟨key, field⟩, hentry, hin⟩ := List.mem_flatMap.1 hitem
  -- equality looks from left to right; as many fields with distinct keys let it be turned round
  have hsubset : left.fields.map Prod.fst ⊆ right.fields.map Prod.fst := by
    intro k hk
    obtain ⟨entry, hmem, rfl⟩ := List.mem_map.1 hk
    obtain ⟨other, hother, _⟩ := exists_of_sameFields hfields hmem
    exact List.mem_map.2 ⟨_, mem_of_lookup hother, rfl⟩
  have hkey := Entries.mem_keys_of_subset hleft.fields hlength hsubset
    (List.mem_map.2 ⟨_, hentry, rfl⟩)
  obtain ⟨⟨k, own⟩, hown, rfl⟩ := List.mem_map.1 hkey
  obtain ⟨other, hother, hsame⟩ := exists_of_sameFields hfields hown
  rw [lookup_of_mem hright.fields hentry] at hother
  cases hother
  obtain ⟨found, hfound, hequal⟩ := exists_of_sameField hsame hin
  exact ⟨found, List.mem_flatMap.2 ⟨_, hown, hfound⟩, hequal⟩

/-- An attribute that an instance lacks everywhere is lacking everywhere in an equal one. -/
theorem lacks_of_same {name : String} {left right : Instance}
    (hright : Everywhere KeysDistinct right) (hleft : Everywhere KeysDistinct left)
    (hlacks : Everywhere (Lacks name) left) (h : left.same right = true) :
    Everywhere (Lacks name) right := by
  induction hright generalizing left with
  | intro root _ ih =>
    refine .intro ?_ ?_
    · intro hname
      exact hlacks.root (mem_scalars_of_same hleft.root h hname)
    · intro item hitem
      obtain ⟨found, hfound, hsame⟩ := exists_below_of_same hleft.root root h hitem
      exact ih item hitem (hleft.inside found hfound) (hlacks.inside found hfound) hsame

end TypedXml.Instance
