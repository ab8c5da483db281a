import TypedXml.Proofs.Entries
import TypedXml.Xml.Element

/-!
# Induction on element trees

The children of an element stand in a list, so that a statement about all trees is proved for an
element from the same statement about each element in that list.  A condition on single elements
holds everywhere in a tree if it holds of the root and everywhere in its children.  Two trees are
equal if their roots are and their children are one by one.
-/

set_option autoImplicit false

namespace TypedXml.Xml.Element

/-- A statement about all trees holds if it goes over from the children of an element to the
element. -/
theorem induct {P : Element → Prop}
    (step : ∀ element : Element, (∀ child ∈ element.children, P child) → P element)
    (element : Element) : P element := by
  refine Element.rec (motive_1 := P) (motive_2 := fun children => ∀ child ∈ children, P child)
    ?mk ?nil ?cons element
  case mk =>
    intro name preferredPrefix attributes text children hchildren
    exact step _ hchildren
  case nil =>
    intro child hchild
    cases hchild
  case cons =>
    intro first rest hfirst hrest
    exact List.forall_mem_cons.2 ⟨hfirst, hrest⟩

/-- A condition holds of all elements of a tree. -/
inductive Everywhere (p : Element → Prop) : Element → Prop
  | intro {element : Element} (root : p element)
      (children : ∀ child ∈ element.children, Everywhere p child) : Everywhere p element

namespace Everywhere

variable {p q : Element → Prop} {element : Element}

/-- A condition that holds everywhere holds of the root. -/
theorem root (h : Everywhere p element) : p element := by
  cases h with
  | intro root children => exact root

/-- A condition that holds everywhere holds everywhere in the children. -/
theorem children (h : Everywhere p element) :
    ∀ child ∈ element.children, Everywhere p child := by
  cases h with
  | intro root children => exact children

/-- Two conditions that hold everywhere hold together everywhere. -/
theorem both (hp : Everywhere p element) (hq : Everywhere q element) :
    Everywhere (fun element => p element ∧ q element) element := by
  induction hp with
  | intro root _ ih =>
    refine .intro ⟨root, hq.root⟩ ?_
    intro child hchild
    exact ih child hchild (hq.children child hchild)

/-- A condition that holds everywhere implies every weaker one everywhere. -/
theorem imp (h : Everywhere p element) (himp : ∀ element, p element → q element) :
    Everywhere q element := by
  induction h with
  | intro root _ ih => exact .intro (himp _ root) ih

/-- A condition on all elements holds everywhere in each tree. -/
theorem of_forall (h : ∀ element, p element) (element : Element) : Everywhere p element := by
  induction element using Element.induct with
  | step element ih => exact .intro (h element) ih

end Everywhere

/-! ## Equal trees -/

variable {left right : Element}

/-- Lists of trees are the same when their trees are one by one. -/
theorem sameAll_iff {elements others : List Element} :
    sameAll elements others = true ↔
      List.Forall₂ (fun element other => element.same other = true) elements others := by
  induction elements generalizing others with
  | nil =>
    cases others with
    | nil => simp [sameAll]
    | cons first rest => simp [sameAll]
  | cons element rest ih =>
    cases others with
    | nil => simp [sameAll]
    | cons first others => rw [sameAll, Bool.and_eq_true, ih, List.forall₂_cons]

/-- Trees are the same when their roots are, but for the prefix, and their children are one by
one. -/
theorem same_iff :
    left.same right = true ↔ left.name = right.name ∧
      left.attributes.agree right.attributes = true ∧ left.text = right.text ∧
        List.Forall₂ (fun child other => child.same other = true) left.children right.children := by
  obtain ⟨name, preferred, attributes, text, children⟩ := left
  simp only [same, Bool.and_eq_true, beq_iff_eq, sameAll_iff, and_assoc]

/-- Being the same goes both ways. -/
theorem same_symm (h : left.same right = true) : right.same left = true := by
  induction left using Element.induct generalizing right with
  | step left ih =>
    obtain ⟨hname, hattributes, htext, hchildren⟩ := same_iff.1 h
    have hback := Entries.agree_symm left.attributes.distinct right.attributes.distinct hattributes
    refine same_iff.2 ⟨hname.symm, hback, htext.symm, ?_⟩
    have hturn : ∀ child ∈ left.children, ∀ other, child.same other = true →
        other.same child = true := fun child hchild other => ih child hchild
    have hboth := (List.forall₂_and_left _ _).2 ⟨hturn, hchildren⟩
    exact hboth.flip.imp fun other child hpair => hpair.1 other hpair.2

end TypedXml.Xml.Element
