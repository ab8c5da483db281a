import TypedXml.Instance.Basic
import TypedXml.Xml.Depth

/-!
# Depth of instances

The depth of an instance counts its typed nodes and, below a wildcard, the elements of the trees
there.  It is found by a loop over the nodes that are still to be visited, and `depth_eq_height`
says that the loop finds the longest path of both together.
-/

set_option autoImplicit false

namespace TypedXml.Instance

mutual

/-- The number of nodes and elements on the longest path from a node to a leaf. -/
def height : Instance → Nat
  | ⟨_, _, .scalar _⟩ => 1
  | ⟨_, _, .text _ _⟩ => 1
  | ⟨_, _, .fields entries _⟩ => heightFields entries + 1

/-- The greatest height in a list of nodes, zero for none. -/
def heightAll : List Instance → Nat
  | [] => 0
  | node :: rest => max (height node) (heightAll rest)

/-- The greatest height in a list of fields, zero for none. -/
def heightFields : List (String × Field) → Nat
  | [] => 0
  | (_, .one item) :: rest => max (height item) (heightFields rest)
  | (_, .many items) :: rest => max (heightAll items) (heightFields rest)
  | (_, .any elements) :: rest => max (Xml.Element.heightAll elements) (heightFields rest)

end

mutual

/-- The number of typed nodes in an instance. -/
def count : Instance → Nat
  | ⟨_, _, .scalar _⟩ => 1
  | ⟨_, _, .text _ _⟩ => 1
  | ⟨_, _, .fields entries _⟩ => countFields entries + 1

/-- The number of typed nodes in a list of instances. -/
def countAll : List Instance → Nat
  | [] => 0
  | node :: rest => count node + countAll rest

/-- The number of typed nodes in a list of fields; elements of wildcards do not count. -/
def countFields : List (String × Field) → Nat
  | [] => 0
  | (_, .one item) :: rest => count item + countFields rest
  | (_, .many items) :: rest => countAll items + countFields rest
  | (_, .any _) :: rest => countFields rest

end

/-- The typed nodes directly below a node. -/
def nodesBelow (node : Instance) : List Instance :=
  node.fields.flatMap fun entry => entry.2.instances

/-- The elements directly below a node, in its wildcards. -/
def elementsBelow (node : Instance) : List Xml.Element :=
  node.fields.flatMap fun entry => entry.2.elements

/-- The nodes of two lists add up. -/
theorem countAll_append (left right : List Instance) :
    countAll (left ++ right) = countAll left + countAll right := by
  induction left with
  | nil => simp [countAll]
  | cons node rest ih => simp only [List.cons_append, countAll, ih]; omega

/-- The nodes of fields are those of their occurrences. -/
theorem countAll_flatMap_instances (entries : List (String × Field)) :
    countAll (entries.flatMap fun entry => entry.2.instances) = countFields entries := by
  induction entries with
  | nil => rfl
  | cons entry rest ih =>
    obtain ⟨key, field⟩ := entry
    rw [List.flatMap_cons, countAll_append, ih]
    cases field <;> simp [Field.instances, countAll, countFields]

/-- An instance has one node more than those below it have together. -/
theorem count_eq (node : Instance) : node.count = countAll node.nodesBelow + 1 := by
  obtain ⟨name, space, content⟩ := node
  cases content with
  | scalar value => rfl
  | text value attributes => rfl
  | fields entries attributes =>
    rw [count, nodesBelow, fields, content, countAll_flatMap_instances]

/-- Nodes to be visited, all of them at one depth. -/
def atDepth (depth : Nat) (nodes : List Instance) : List (Instance × Nat) :=
  nodes.map (·, depth)

/-- The number of nodes in the instances that are still to be visited, the measure of the loop. -/
def pendingCount : List (Instance × Nat) → Nat
  | [] => 0
  | (node, _) :: rest => node.count + pendingCount rest

/-- Nodes that come before what is pending add their own number. -/
theorem pendingCount_atDepth (depth : Nat) (nodes : List Instance)
    (pending : List (Instance × Nat)) :
    pendingCount (atDepth depth nodes ++ pending) = countAll nodes + pendingCount pending := by
  induction nodes with
  | nil => simp [atDepth, countAll]
  | cons node rest ih =>
    simp only [atDepth, List.map_cons, List.cons_append, pendingCount, countAll] at ih ⊢
    omega

/-- The greatest of `deepest` and the depths that element trees reach below a node at a depth. -/
def deepestElement (deepest depth : Nat) (elements : List Xml.Element) : Nat :=
  elements.foldl (fun deepest element => max deepest (depth + element.depth)) deepest

/-- The greatest of `deepest` and the depths that the instances still to be visited reach; every
node comes with its own depth. -/
def deepestFrom (deepest : Nat) : List (Instance × Nat) → Nat
  | [] => deepest
  | (node, depth) :: pending =>
    deepestFrom (deepestElement (max deepest depth) depth node.elementsBelow)
      (atDepth (depth + 1) node.nodesBelow ++ pending)
termination_by pending => pendingCount pending
decreasing_by
  rw [pendingCount_atDepth, pendingCount, count_eq]
  omega

/-- How deep an instance reaches, where its own node stands at depth one. -/
def depth (node : Instance) : Nat :=
  deepestFrom 0 [(node, 1)]

/-- Elements below a node reach as far below it as the highest of them. -/
theorem deepestElement_eq (deepest depth : Nat) (elements : List Xml.Element)
    (h : depth ≤ deepest) :
    deepestElement deepest depth elements =
      max deepest (depth + Xml.Element.heightAll elements) := by
  induction elements generalizing deepest with
  | nil => simp only [deepestElement, List.foldl_nil, Xml.Element.heightAll]; omega
  | cons element rest ih =>
    have ih := ih (max deepest (depth + element.depth)) (by omega)
    simp only [deepestElement] at ih
    simp only [deepestElement, List.foldl_cons, Xml.Element.heightAll]
    rw [ih, Xml.Element.depth_eq_height]
    omega

/-- A list of nodes is within a height when each of them is. -/
theorem heightAll_le_iff {items : List Instance} {bound : Nat} :
    heightAll items ≤ bound ↔ ∀ item ∈ items, item.height ≤ bound := by
  induction items with
  | nil => simp [heightAll]
  | cons item rest ih => rw [heightAll, Nat.max_le, ih, List.forall_mem_cons]

/-- Two lists of nodes are together as high as the higher one. -/
theorem heightAll_append (left right : List Instance) :
    heightAll (left ++ right) = max (heightAll left) (heightAll right) := by
  induction left with
  | nil => simp [heightAll]
  | cons node rest ih => simp only [List.cons_append, heightAll, ih]; omega

/-- Two lists of elements are together as high as the higher one. -/
theorem heightAll_append_elements (left right : List Xml.Element) :
    Xml.Element.heightAll (left ++ right) =
      max (Xml.Element.heightAll left) (Xml.Element.heightAll right) := by
  induction left with
  | nil => simp [Xml.Element.heightAll]
  | cons element rest ih => simp only [List.cons_append, Xml.Element.heightAll, ih]; omega

/-- Fields are as high as their occurrences and the elements of their wildcards. -/
theorem heightFields_eq (entries : List (String × Field)) :
    heightFields entries =
      max (heightAll (entries.flatMap fun entry => entry.2.instances))
        (Xml.Element.heightAll (entries.flatMap fun entry => entry.2.elements)) := by
  induction entries with
  | nil => rfl
  | cons entry rest ih =>
    obtain ⟨key, field⟩ := entry
    rw [List.flatMap_cons, List.flatMap_cons, heightAll_append, heightAll_append_elements]
    cases field <;>
      simp only [Field.instances, Field.elements, heightFields, heightAll,
        Xml.Element.heightAll, ih] <;> omega

/-- A node is one higher than the highest of what is below it. -/
theorem height_eq (node : Instance) :
    node.height =
      max (heightAll node.nodesBelow) (Xml.Element.heightAll node.elementsBelow) + 1 := by
  obtain ⟨name, space, content⟩ := node
  cases content with
  | scalar value => rfl
  | text value attributes => rfl
  | fields entries attributes =>
    rw [height, nodesBelow, elementsBelow, fields, content, heightFields_eq]

/-- Every instance has at least its own node. -/
theorem height_pos (node : Instance) : 0 < node.height := by
  rw [height_eq]
  exact Nat.succ_pos _

/-- What is below a node is lower than the node. -/
theorem height_lt_of_mem {node item : Instance} (h : item ∈ node.nodesBelow) :
    item.height < node.height := by
  have hall := heightAll_le_iff.1 (Nat.le_refl (heightAll node.nodesBelow)) item h
  have hnode := height_eq node
  omega

/-- The depth of the deepest node or element in the instances that are still to be visited. -/
def pendingDepth : List (Instance × Nat) → Nat
  | [] => 0
  | (node, depth) :: rest => max (depth + (node.height - 1)) (pendingDepth rest)

/-- The nodes below a node at some depth reach as far below it as the highest of them. -/
theorem max_pendingDepth_atDepth (depth : Nat) (nodes : List Instance)
    (pending : List (Instance × Nat)) :
    max depth (pendingDepth (atDepth (depth + 1) nodes ++ pending)) =
      max (depth + heightAll nodes) (pendingDepth pending) := by
  induction nodes with
  | nil => simp [atDepth, heightAll]
  | cons node rest ih =>
    have h := height_eq node
    simp only [atDepth, List.map_cons, List.cons_append, pendingDepth, heightAll] at ih ⊢
    omega

/-- The loop finds the deepest of all pending nodes and elements, or what it had found before. -/
theorem deepestFrom_eq (deepest : Nat) (pending : List (Instance × Nat)) :
    deepestFrom deepest pending = max deepest (pendingDepth pending) := by
  fun_induction deepestFrom deepest pending with
  | case1 deepest => simp [pendingDepth]
  | case2 deepest node depth pending ih =>
    have h := max_pendingDepth_atDepth depth node.nodesBelow pending
    have hnode := height_eq node
    have helements := deepestElement_eq (max deepest depth) depth node.elementsBelow (by omega)
    rw [ih, pendingDepth]
    omega

/-- The loop finds the height of the instance. -/
theorem depth_eq_height (node : Instance) : node.depth = node.height := by
  have h := height_eq node
  rw [depth, deepestFrom_eq, pendingDepth, pendingDepth]
  omega

/-- Every instance is at least one deep. -/
theorem depth_pos (node : Instance) : 0 < node.depth := by
  rw [depth_eq_height]
  exact node.height_pos

end TypedXml.Instance
