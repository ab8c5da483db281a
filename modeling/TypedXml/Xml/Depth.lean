import TypedXml.Xml.Element

/-!
# Depth of element trees

The depth of a tree is found by a loop over the elements that are still to be visited, each with
the depth at which it stands, so that a deep tree takes no deep recursion.  `depth_eq_height` says
what the loop finds: the number of elements on the longest path from the root to a leaf.
-/

set_option autoImplicit false

namespace TypedXml.Xml.Element

mutual

/-- The number of elements on the longest path from the root to a leaf. -/
def height : Element → Nat
  | ⟨_, _, _, _, children⟩ => heightAll children + 1

/-- The greatest height in a list of elements, zero for none. -/
def heightAll : List Element → Nat
  | [] => 0
  | element :: rest => max (height element) (heightAll rest)

end

mutual

/-- The number of elements in a tree. -/
def count : Element → Nat
  | ⟨_, _, _, _, children⟩ => countAll children + 1

/-- The number of elements in a list of trees. -/
def countAll : List Element → Nat
  | [] => 0
  | element :: rest => count element + countAll rest

end

/-- An element is one higher than the highest of its children. -/
theorem height_eq (element : Element) : element.height = heightAll element.children + 1 := by
  cases element; rfl

/-- A list of trees is within a height when each of them is. -/
theorem heightAll_le_iff {elements : List Element} {bound : Nat} :
    heightAll elements ≤ bound ↔ ∀ element ∈ elements, element.height ≤ bound := by
  induction elements with
  | nil => simp [heightAll]
  | cons element rest ih => rw [heightAll, Nat.max_le, ih, List.forall_mem_cons]

/-- A tree has one element more than the trees of its children together. -/
theorem count_eq (element : Element) : element.count = countAll element.children + 1 := by
  cases element; rfl

/-- Elements to be visited, all of them at one depth. -/
def atDepth (depth : Nat) (elements : List Element) : List (Element × Nat) :=
  elements.map (·, depth)

/-- The number of elements in the trees that are still to be visited, the measure of the loop. -/
def pendingCount : List (Element × Nat) → Nat
  | [] => 0
  | (element, _) :: rest => element.count + pendingCount rest

/-- Elements that come before what is pending add their own number. -/
theorem pendingCount_atDepth (depth : Nat) (elements : List Element)
    (pending : List (Element × Nat)) :
    pendingCount (atDepth depth elements ++ pending) =
      countAll elements + pendingCount pending := by
  induction elements with
  | nil => simp [atDepth, countAll]
  | cons element rest ih =>
    simp only [atDepth, List.map_cons, List.cons_append, pendingCount, countAll] at ih ⊢
    omega

/-- The greatest of `deepest` and the depths of the elements in the trees that are still to be
visited; every tree comes with the depth of its root. -/
def deepestFrom (deepest : Nat) : List (Element × Nat) → Nat
  | [] => deepest
  | (element, depth) :: pending =>
    deepestFrom (max deepest depth) (atDepth (depth + 1) element.children ++ pending)
termination_by pending => pendingCount pending
decreasing_by
  rw [pendingCount_atDepth, pendingCount, count_eq]
  omega

/-- How deep a tree reaches, where the root stands at depth one. -/
def depth (element : Element) : Nat :=
  deepestFrom 0 [(element, 1)]

/-- The depth of the deepest element in the trees that are still to be visited. -/
def pendingDepth : List (Element × Nat) → Nat
  | [] => 0
  | (element, depth) :: rest => max (depth + heightAll element.children) (pendingDepth rest)

/-- The children of an element at some depth reach as far below it as the highest of them. -/
theorem max_pendingDepth_atDepth (depth : Nat) (elements : List Element)
    (pending : List (Element × Nat)) :
    max depth (pendingDepth (atDepth (depth + 1) elements ++ pending)) =
      max (depth + heightAll elements) (pendingDepth pending) := by
  induction elements with
  | nil => simp [atDepth, heightAll]
  | cons element rest ih =>
    simp only [atDepth, List.map_cons, List.cons_append, pendingDepth, heightAll,
      height_eq] at ih ⊢
    omega

/-- The loop finds the deepest of all pending elements, or what it had found before. -/
theorem deepestFrom_eq (deepest : Nat) (pending : List (Element × Nat)) :
    deepestFrom deepest pending = max deepest (pendingDepth pending) := by
  fun_induction deepestFrom deepest pending with
  | case1 deepest => simp [pendingDepth]
  | case2 deepest element depth pending ih =>
    have h := max_pendingDepth_atDepth depth element.children pending
    rw [ih, pendingDepth]
    omega

/-- The loop finds the height of the tree. -/
theorem depth_eq_height (element : Element) : element.depth = element.height := by
  rw [depth, deepestFrom_eq, pendingDepth, pendingDepth, height_eq]
  omega

/-- Every tree has at least its root. -/
theorem depth_pos (element : Element) : 0 < element.depth := by
  rw [depth_eq_height, height_eq]
  exact Nat.succ_pos _

end TypedXml.Xml.Element
