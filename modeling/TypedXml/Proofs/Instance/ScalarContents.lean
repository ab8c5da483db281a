import TypedXml.Instance.Depth
import TypedXml.Proofs.Instance.AlikeValues
import TypedXml.Proofs.Instance.Rearrangement

/-!
# The contents of scalars

Construction looks at the structure of a value alone.  Whatever stands in the place of a scalar, a
text, a number, a truth value or octets, and whether or not it is one that its type allows, an
instance is built or refused for the same reason, and all that the scalar settles is the value at
its own place.
-/

set_option autoImplicit false

namespace TypedXml

/-! ## Values of one form -/

/-- Whether two values differ at most in the contents of their scalars.  A scalar can be of another
form; nothing, finished instances and elements stay as they are. -/
inductive Value.SameForm : Value → Value → Prop
  | same (value : Value) : SameForm value value
  | scalar (datum other : Datum) : SameForm (.ofDatum datum) (.ofDatum other)
  | list {items others : List Value} (parts : List.Forall₂ SameForm items others) :
      SameForm (.list items) (.list others)
  | map {entries others : List (String × Value)}
      (keys : others.map Prod.fst = entries.map Prod.fst)
      (parts : List.Forall₂ SameForm (entries.map Prod.snd) (others.map Prod.snd)) :
      SameForm (.map entries) (.map others)

/-- Values of one form look alike to construction. -/
theorem Value.SameForm.alike {value twin : Value} (h : value.SameForm twin) :
    value.Alike (fun scalar other => other.kind = scalar.kind) SameForm twin := by
  cases h with
  | same => exact .refl value
  | scalar datum other => exact .scalar fun kind => rfl
  | list parts => exact .list parts
  | map keys parts => exact .map (lookup_forall₂ (forall₂_entries keys parts))

/-! ## Instances without the contents of their scalars -/

/-- The empty scalar of the same kind. -/
def Scalar.blanked (scalar : Scalar) : Scalar :=
  .empty scalar.kind

namespace Instance

/-- Attributes with empty scalars in the place of their own. -/
def attributesBlanked (attributes : List (String × Scalar)) : List (String × Scalar) :=
  attributes.map fun entry => (entry.1, entry.2.blanked)

mutual

/-- The instance with empty scalars in the place of its own.  Names, keys, their order, occurrences
and the kinds of scalars stay as they are, and so do the elements of wildcards. -/
def blanked : Instance → Instance
  | ⟨name, space, .scalar value⟩ => ⟨name, space, .scalar value.blanked⟩
  | ⟨name, space, .text value attributes⟩ =>
    ⟨name, space, .text value.blanked (attributesBlanked attributes)⟩
  | ⟨name, space, .fields entries attributes⟩ =>
    ⟨name, space, .fields (fieldsBlanked entries) (attributesBlanked attributes)⟩

/-- A list of instances with empty scalars in the place of their own. -/
def allBlanked : List Instance → List Instance
  | [] => []
  | node :: rest => blanked node :: allBlanked rest

/-- Fields with empty scalars in the place of their own. -/
def fieldsBlanked : List (String × Field) → List (String × Field)
  | [] => []
  | (key, .one item) :: rest => (key, .one (blanked item)) :: fieldsBlanked rest
  | (key, .many items) :: rest => (key, .many (allBlanked items)) :: fieldsBlanked rest
  | (key, .any elements) :: rest => (key, .any elements) :: fieldsBlanked rest

end

mutual

/-- Scalars do not matter for the height of an instance. -/
theorem height_blanked : (node : Instance) → node.blanked.height = node.height
  | ⟨_, _, .scalar _⟩ => rfl
  | ⟨_, _, .text _ _⟩ => rfl
  | ⟨_, _, .fields entries _⟩ => congrArg (· + 1) (heightFields_blanked entries)

/-- The same for a list of instances. -/
theorem heightAll_blanked : (nodes : List Instance) →
    heightAll (allBlanked nodes) = heightAll nodes
  | [] => rfl
  | node :: rest => by
    rw [allBlanked, heightAll, heightAll, height_blanked node, heightAll_blanked rest]

/-- The same for a list of fields. -/
theorem heightFields_blanked : (entries : List (String × Field)) →
    heightFields (fieldsBlanked entries) = heightFields entries
  | [] => rfl
  | (key, .one item) :: rest => by
    rw [fieldsBlanked, heightFields, heightFields, height_blanked item, heightFields_blanked rest]
  | (key, .many items) :: rest => by
    rw [fieldsBlanked, heightFields, heightFields, heightAll_blanked items,
      heightFields_blanked rest]
  | (key, .any elements) :: rest => by
    rw [fieldsBlanked, heightFields, heightFields, heightFields_blanked rest]

end

/-- Scalars do not matter for the depth of an instance. -/
theorem depth_blanked (node : Instance) : node.blanked.depth = node.depth := by
  rw [depth_eq_height, depth_eq_height, height_blanked]

/-- Whether two instances differ at most in the values of their scalars. -/
def SameButScalars (node other : Instance) : Prop :=
  other.blanked = node.blanked

/-- Instances that differ at most in the values of their scalars are as deep. -/
theorem SameButScalars.depth_eq {node other : Instance} (h : node.SameButScalars other) :
    other.depth = node.depth := by
  rw [← depth_blanked other, h, depth_blanked]

/-- Instances are blanked one by one. -/
theorem allBlanked_eq_map (nodes : List Instance) : allBlanked nodes = nodes.map blanked := by
  induction nodes with
  | nil => rfl
  | cons node rest ih => rw [allBlanked, ih, List.map_cons]

/-- Attributes of the same names and kinds are the same without their values. -/
theorem attributesBlanked_eq {attributes others : List (String × Scalar)}
    (h : List.Forall₂ (fun entry twin => twin.1 = entry.1 ∧ twin.2.kind = entry.2.kind) attributes
      others) : attributesBlanked others = attributesBlanked attributes := by
  apply map_eq_of_forall₂ h
  rintro entry twin ⟨hname, hkind⟩
  rw [hname, Scalar.blanked, hkind, Scalar.blanked]

/-- Fields whose occurrences differ at most in the values of scalars are the same without these. -/
theorem fieldsBlanked_eq {entries twins : List (String × Field)}
    (h : List.Forall₂ (fun entry twin => twin.1 = entry.1 ∧
      Field.Alike SameButScalars entry.2 twin.2) entries twins) :
    fieldsBlanked twins = fieldsBlanked entries := by
  induction h with
  | nil => rfl
  | @cons entry twin _ _ hfirst _ ih =>
    obtain ⟨key, field⟩ := entry
    obtain ⟨twinKey, other⟩ := twin
    obtain ⟨hkey, hfield⟩ := hfirst
    obtain rfl : twinKey = key := hkey
    cases hfield with
    | one related => rw [fieldsBlanked, fieldsBlanked, related, ih]
    | many related =>
      rw [fieldsBlanked, fieldsBlanked, allBlanked_eq_map, allBlanked_eq_map,
        map_eq_of_forall₂ related fun _ _ => id, ih]
    | any elements => rw [fieldsBlanked, fieldsBlanked, ih]

/-- Parts that differ at most in the values of scalars make nodes that do. -/
theorem congruence_sameButScalars :
    Instance.Congruence (fun scalar other => other.kind = scalar.kind) SameButScalars where
  refl _ := rfl
  refl_scalar _ := rfl
  scalar _ _ value other hkind := by
    rw [SameButScalars, blanked, blanked, Scalar.blanked, hkind, Scalar.blanked]
  text _ _ value other _ _ hkind hattributes := by
    rw [SameButScalars, blanked, blanked, Scalar.blanked, hkind, Scalar.blanked,
      attributesBlanked_eq hattributes]
  fields _ _ _ _ _ _ hfields hattributes := by
    rw [SameButScalars, blanked, blanked, fieldsBlanked_eq hfields,
      attributesBlanked_eq hattributes]

end Instance

namespace Schema

variable {schema : Schema} {name : String} {value twin : Value}

/-- Construction checks structure only.  Of two values that differ in the contents of their scalars
both are built or both are refused, with errors of one category, and the instances differ in nothing
but the values of their scalars. -/
theorem construct_sameForm (h : value.SameForm twin) :
    Agree SameCategory (fun node other => node.SameButScalars other ∧ other.depth = node.depth)
      (schema.construct name value) (schema.construct name twin) := by
  have hagree : Agree SameCategory Instance.SameButScalars (schema.construct name value)
      (schema.construct name twin) :=
    construct_agree ⟨fun _ _ => Value.SameForm.alike, Instance.congruence_sameButScalars⟩ h
  apply hagree.imp
  intro node other hsame
  exact ⟨hsame, hsame.depth_eq⟩

/-- An order with texts and a truth value where there are numbers and names in another one. -/
def miswrittenOrder : Value :=
  .map [("no", .text "seven"),
    ("line", .list [.map [("count", .text "three"), ("article", .boolean true)]])]

/-- Both orders are of one form. -/
theorem sameForm_miswrittenOrder : orderByKey.SameForm miswrittenOrder := by
  have hline : Value.SameForm (.map [("count", .int 3), ("article", .text "nut")])
      (.map [("count", .text "three"), ("article", .boolean true)]) := by
    apply Value.SameForm.map
    · rfl
    · exact .cons (.scalar (.int 3) (.text "three"))
        (.cons (.scalar (.text "nut") (.boolean true)) .nil)
  apply Value.SameForm.map
  · rfl
  · exact .cons (.scalar (.int 7) (.text "seven")) (.cons (.list (.cons hline .nil)) .nil)

/-- The order is built all the same, and differs in nothing but the values of its scalars. -/
theorem construct_miswrittenOrder :
    define ⟨"urn:orders", "o"⟩ [.element orderDecl] = .ok orders ∧
      orderByKey.SameForm miswrittenOrder ∧
      orders.construct "order" miswrittenOrder =
        .ok (order (.text "seven") (.boolean true) (.text "three")) ∧
      (order (.int 7) (.text "nut") (.int 3)).SameButScalars
        (order (.text "seven") (.boolean true) (.text "three")) := by
  have hbuilt : orders.construct "order" orderByKey =
      .ok (order (.int 7) (.text "nut") (.int 3)) := rfl
  have hother : orders.construct "order" miswrittenOrder =
      .ok (order (.text "seven") (.boolean true) (.text "three")) := rfl
  refine ⟨define_orders, sameForm_miswrittenOrder, hother, ?_⟩
  have hagree : Agree SameCategory
      (fun node other => node.SameButScalars other ∧ other.depth = node.depth)
      (orders.construct "order" orderByKey) (orders.construct "order" miswrittenOrder) :=
    construct_sameForm sameForm_miswrittenOrder
  rw [hbuilt, hother] at hagree
  cases hagree with
  | ok results => exact results.1

end Schema

end TypedXml
