import Mathlib.Algebra.Ring.Nat
import Mathlib.Logic.Relation
import TypedXml.Proofs.Instance.Writing
import TypedXml.Proofs.Xml.Documents

/-!
# One depth for trees and instances

The depth of a tree is found by a loop over pending nodes.  What such a loop finds does not depend
on the order in which it takes them: a visit keeps the bounds that hold for all that is found or
still pending, so a run that leaves nothing pending has found the height.  Every visit makes less
of what is left to visit, so every order comes to an end.

Instances and their element trees are measured by two such loops, one with element trees inside
the other.  Both find the same number, which alone decides whether a document is written.
-/

set_option autoImplicit false

namespace TypedXml

/-! ## Visiting pending nodes in any order -/

/-- Trees of one kind, with what a search for their depth goes by. -/
structure Branching (α : Type) where
  below : α → List α
  /-- How far a node reaches below its own depth without the nodes below it. -/
  reach : α → Nat
  /-- How far a tree reaches below the depth of its root. -/
  drop : α → Nat
  count : α → Nat
  drop_le_iff : ∀ node bound, drop node ≤ bound ↔
    reach node ≤ bound ∧ ∀ item ∈ below node, drop item + 1 ≤ bound
  count_eq : ∀ node, count node = ((below node).map count).sum + 1

/-- What a search holds: the greatest depth found, and the nodes still to be visited, each with its
own depth. -/
structure DepthSearch (α : Type) where
  deepest : Nat
  pending : List (α × Nat)

namespace Branching

variable {α : Type}

/-- A search with one root to be visited, which stands at depth one. -/
def start (root : α) : DepthSearch α :=
  ⟨0, [(root, 1)]⟩

/-- One of the pending nodes is visited, whichever it is.  It counts down to where it reaches by
itself, and the nodes below it become pending, at any places. -/
inductive Visit (tree : Branching α) : DepthSearch α → DepthSearch α → Prop
  | visit {deepest depth : Nat} {node : α} {pending rest next : List (α × Nat)}
      (taken : pending.Perm ((node, depth) :: rest))
      (added : next.Perm ((tree.below node).map (·, depth + 1) ++ rest)) :
      Visit tree ⟨deepest, pending⟩ ⟨max deepest (depth + tree.reach node), next⟩

/-- Any number of visits, one after the other. -/
def Visits (tree : Branching α) : DepthSearch α → DepthSearch α → Prop :=
  Relation.ReflTransGen tree.Visit

/-- Some order of visits leaves nothing pending and has found a depth. -/
def Finds (tree : Branching α) (search : DepthSearch α) (found : Nat) : Prop :=
  tree.Visits search ⟨found, []⟩

/-- Nothing that is found or pending lies deeper than a bound. -/
def Within (tree : Branching α) (search : DepthSearch α) (bound : Nat) : Prop :=
  search.deepest ≤ bound ∧ ∀ entry ∈ search.pending, entry.2 + tree.drop entry.1 ≤ bound

/-- The number of visits that are left. -/
def left (tree : Branching α) (search : DepthSearch α) : Nat :=
  (search.pending.map fun entry => tree.count entry.1).sum

variable {tree : Branching α} {search next : DepthSearch α} {root : α} {found : Nat}

/-- A visit keeps the bounds of what is found and pending. -/
theorem Visit.within_iff (h : tree.Visit search next) (bound : Nat) :
    tree.Within search bound ↔ tree.Within next bound := by
  cases h with
  | @visit deepest depth node pending rest next taken added =>
    have hnode := tree.drop_le_iff node (bound - depth)
    simp only [Within, taken.mem_iff, added.mem_iff, List.forall_mem_cons, List.mem_append,
      or_imp, forall_and, List.forall_mem_map, Nat.max_le]
    constructor
    · rintro ⟨hdeepest, htree, hrest⟩
      obtain ⟨hreach, hbelow⟩ := hnode.1 (by omega)
      refine ⟨⟨hdeepest, by omega⟩, ?_, hrest⟩
      intro item hitem
      have hdrop := hbelow item hitem
      omega
    · rintro ⟨⟨hdeepest, hreach⟩, hbelow, hrest⟩
      have htree : tree.drop node ≤ bound - depth := by
        refine hnode.2 ⟨by omega, ?_⟩
        intro item hitem
        have hdrop := hbelow item hitem
        omega
      exact ⟨hdeepest, by omega, hrest⟩

/-- What is found bounds all that was pending, and nothing smaller does. -/
theorem Finds.within_iff (h : tree.Finds search found) (bound : Nat) :
    tree.Within search bound ↔ found ≤ bound := by
  induction h using Relation.ReflTransGen.head_induction_on with
  | refl => simp [Within]
  | head visit _ ih => rw [visit.within_iff, ih]

/-- Every order of visits finds the height. -/
theorem Finds.eq_height (h : tree.Finds (start root) found) : found = tree.drop root + 1 := by
  have hbounds : ∀ bound, 1 + tree.drop root ≤ bound ↔ found ≤ bound := by
    intro bound
    rw [← h.within_iff]
    simp [Within, start]
  have hfound := (hbounds found).2 (Nat.le_refl _)
  have hheight := (hbounds (1 + tree.drop root)).1 (Nat.le_refl _)
  omega

/-- A visit makes less of what is left to visit: one node counts no more, and those below it were
counted with it. -/
theorem Visit.left_lt (h : tree.Visit search next) : tree.left next < tree.left search := by
  cases h with
  | @visit deepest depth node pending rest next taken added =>
    have htaken := (taken.map fun entry => tree.count entry.1).sum_nat
    have hadded := (added.map fun entry => tree.count entry.1).sum_nat
    have hbelow : (fun entry : α × Nat => tree.count entry.1) ∘ (·, depth + 1) = tree.count := rfl
    rw [List.map_append, List.sum_append, List.map_map, hbelow] at hadded
    rw [List.map_cons, List.sum_cons] at htaken
    rw [left, left, htaken, hadded, tree.count_eq node]
    omega

/-- As long as a node is pending there is one to visit, and no order goes on for ever, so every
search can be finished. -/
theorem exists_finds (search : DepthSearch α) : ∃ found, tree.Finds search found := by
  induction hleft : tree.left search using Nat.strongRecOn generalizing search with
  | _ count ih =>
    obtain ⟨deepest, pending⟩ := search
    cases pending with
    | nil => exact ⟨deepest, .refl⟩
    | cons entry rest =>
      have hvisit : tree.Visit ⟨deepest, entry :: rest⟩ _ := .visit (.refl _) (.refl _)
      obtain ⟨found, hfound⟩ := ih _ (hleft ▸ hvisit.left_lt) _ rfl
      exact ⟨found, .head hvisit hfound⟩

/-- Whatever was visited so far, going on in any order finds the height in the end. -/
theorem finds_of_visits (h : tree.Visits (start root) search) :
    tree.Finds search (tree.drop root + 1) := by
  obtain ⟨found, hfound⟩ := exists_finds search
  have hrun : tree.Finds (start root) found := Relation.ReflTransGen.trans h hfound
  rwa [← hrun.eq_height]

/-- What is found, in whatever order, is the height of the root, and some order finds it. -/
theorem finds_iff : tree.Finds (start root) found ↔ found = tree.drop root + 1 := by
  constructor
  · exact Finds.eq_height
  · rintro rfl
    exact finds_of_visits .refl

end Branching

/-! ## Element trees -/

namespace Xml.Element

/-- The elements of a list of trees are those of each tree together. -/
theorem countAll_eq_sum (elements : List Element) :
    countAll elements = (elements.map count).sum := by
  induction elements with
  | nil => rfl
  | cons element rest ih => rw [countAll, ih, List.map_cons, List.sum_cons]

/-- Elements above their children. -/
def branching : Branching Element where
  below := children
  reach _ := 0
  drop element := heightAll element.children
  count := count
  drop_le_iff element bound := by
    simp only [heightAll_le_iff, height_eq, Nat.zero_le, true_and]
  count_eq element := by
    rw [count_eq, countAll_eq_sum]

/-- What is found of an element is its height. -/
theorem finds_iff {element : Element} {found : Nat} :
    branching.Finds (Branching.start element) found ↔ found = element.height := by
  rw [Branching.finds_iff, height_eq]
  rfl

/-- The loop that always takes the first pending element is one order of visits. -/
theorem finds_deepestFrom (deepest : Nat) (pending : List (Element × Nat)) :
    branching.Finds ⟨deepest, pending⟩ (deepestFrom deepest pending) := by
  fun_induction deepestFrom deepest pending with
  | case1 => exact .refl
  | case2 deepest element depth pending ih => exact .head (.visit (.refl _) (.refl _)) ih

/-- A tree is one high if its root has no children. -/
theorem height_eq_one_iff {element : Element} : element.height = 1 ↔ element.children = [] := by
  rw [height_eq]
  constructor
  · intro h
    cases hchildren : element.children with
    | nil => rfl
    | cons child rest =>
      have hchild := height_eq child
      rw [hchildren, heightAll] at h
      omega
  · intro h
    rw [h, heightAll]

end Xml.Element

/-! ## Instances -/

namespace Instance

/-- The nodes of a list of instances are those of each instance together. -/
theorem countAll_eq_sum (items : List Instance) : countAll items = (items.map count).sum := by
  induction items with
  | nil => rfl
  | cons item rest ih => rw [countAll, ih, List.map_cons, List.sum_cons]

/-- Nodes above the typed nodes below them; the elements of their wildcards are reached from the
node that holds them. -/
def branching : Branching Instance where
  below := nodesBelow
  reach node := Xml.Element.heightAll node.elementsBelow
  drop node := max (heightAll node.nodesBelow) (Xml.Element.heightAll node.elementsBelow)
  count := count
  drop_le_iff node bound := by
    simp only [← height_eq, Nat.max_le, heightAll_le_iff]
    exact and_comm
  count_eq node := by
    rw [count_eq, countAll_eq_sum]

/-- What is found of an instance is its height. -/
theorem finds_iff {node : Instance} {found : Nat} :
    branching.Finds (Branching.start node) found ↔ found = node.height := by
  rw [Branching.finds_iff, height_eq]
  rfl

/-- The loop that always takes the first pending node is one order of visits; the elements of
wildcards are measured by a loop of their own. -/
theorem finds_deepestFrom (deepest : Nat) (pending : List (Instance × Nat)) :
    branching.Finds ⟨deepest, pending⟩ (deepestFrom deepest pending) := by
  fun_induction deepestFrom deepest pending with
  | case1 => exact .refl
  | case2 deepest node depth pending ih =>
    have helements := deepestElement_eq (max deepest depth) depth node.elementsBelow (by omega)
    have hreach : deepestElement (max deepest depth) depth node.elementsBelow =
        max deepest (depth + Xml.Element.heightAll node.elementsBelow) := by omega
    have hvisit : branching.Visit ⟨deepest, (node, depth) :: pending⟩
        ⟨max deepest (depth + Xml.Element.heightAll node.elementsBelow),
          atDepth (depth + 1) node.nodesBelow ++ pending⟩ := .visit (.refl _) (.refl _)
    rw [← hreach] at hvisit
    exact .head hvisit ih

end Instance

/-! ## Which documents are written -/

namespace Xml

variable {options : RenderOptions} {root : Element}

/-- A tree is written if and only if its depth is allowed. -/
theorem exists_render_iff :
    (∃ text, render options root = .ok text) ↔ root.depth ≤ options.maxDepth := by
  constructor
  · rintro ⟨text, h⟩
    exact (render_eq_ok.1 h).1
  · intro h
    exact ⟨_, render_eq_ok.2 ⟨h, rfl⟩⟩

/-- A tree that is too deep is refused with its depth, and no other one is. -/
theorem render_eq_limit_iff :
    render options root = .error (.limit (.depth root.depth options.maxDepth)) ↔
      options.maxDepth < root.depth := by
  constructor
  · intro h
    by_contra hfits
    obtain ⟨text, htext⟩ := exists_render_iff.2 (Nat.le_of_not_lt hfits)
    cases h.symm.trans htext
  · intro h
    rw [render, RenderOptions.checkDepth, if_pos h]

end Xml

/-- An instance is as deep as its element tree, both loops find heights in whatever order they
visit, and a document is written if and only if this depth is allowed. -/
theorem depths_agree (node : Instance) (element : Xml.Element) (options : RenderOptions) :
    node.depth = node.toElement.depth ∧
      element.depth = element.height ∧ (element.depth = 1 ↔ element.children = []) ∧
      (∀ found, Xml.Element.branching.Finds (Branching.start element) found ↔
        found = element.depth) ∧
      (∀ found, Instance.branching.Finds (Branching.start node) found ↔ found = node.depth) ∧
      ((∃ text, node.serialize options = .ok text) ↔ node.depth ≤ options.maxDepth) ∧
      (node.serialize options = .error (.limit (.depth node.depth options.maxDepth)) ↔
        options.maxDepth < node.depth) ∧
      ((∃ text, Xml.render options element = .ok text) ↔ element.depth ≤ options.maxDepth) ∧
      (Xml.render options element = .error (.limit (.depth element.depth options.maxDepth)) ↔
        options.maxDepth < element.depth) := by
  have htree := node.depth_toElement
  have helement : element.depth = element.height :=
    Xml.Element.finds_iff.1 (Xml.Element.finds_deepestFrom 0 [(element, 1)])
  have hnode : node.depth = node.height :=
    Instance.finds_iff.1 (Instance.finds_deepestFrom 0 [(node, 1)])
  refine ⟨htree.symm, helement, helement ▸ Xml.Element.height_eq_one_iff, ?_, ?_, ?_, ?_,
    Xml.exists_render_iff, Xml.render_eq_limit_iff⟩
  · intro found
    rw [Xml.Element.finds_iff, helement]
  · intro found
    rw [Instance.finds_iff, hnode]
  · rw [Instance.serialize_eq_render, Xml.exists_render_iff, htree]
  · rw [Instance.serialize_eq_render, ← htree, Xml.render_eq_limit_iff]

end TypedXml
