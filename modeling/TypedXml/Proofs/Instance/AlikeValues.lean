import TypedXml.Instance.Construction
import TypedXml.Proofs.Entries
import TypedXml.Proofs.TwoRuns

/-!
# Values that are alike

Construction looks up the parts of a mapping by key and those of a list by position, and of a scalar
it sees no more than that it is one.  Two values are alike if they are of one form, one level deep,
and each key or place has related parts in both.  Where related values are alike, so that this goes
on for their parts, construction takes the same way for both: it gives instances that differ only in
what their scalars differ in, or fails with errors of one category.  The relation is left open: it
can allow another order of the entries, or other scalars.
-/

set_option autoImplicit false

namespace TypedXml

/-! ## One level of values and instances -/

/-- The value that gives a scalar. -/
def Value.ofDatum : Datum → Value
  | .text s => .text s
  | .int n => .int n
  | .boolean b => .boolean b
  | .bytes b => .bytes b

/-- Whether two values are the same or of one form, with related parts for each key or place and
with scalars that are the same in some respect. -/
inductive Value.Alike (same : Scalar → Scalar → Prop) (rel : Value → Value → Prop) :
    Value → Value → Prop
  | refl (value : Value) : Alike same rel value value
  | scalar {datum other : Datum}
      (scalars : ∀ kind, same (.ofDatum kind datum) (.ofDatum kind other)) :
      Alike same rel (.ofDatum datum) (.ofDatum other)
  | list {items others : List Value} (parts : List.Forall₂ rel items others) :
      Alike same rel (.list items) (.list others)
  | map {entries others : List (String × Value)}
      (parts : ∀ key, Option.Rel rel (entries.lookup key) (others.lookup key)) :
      Alike same rel (.map entries) (.map others)

/-- Whether two fields are of one form, with as many and with related occurrences. -/
inductive Field.Alike (tie : Instance → Instance → Prop) : Field → Field → Prop
  | one {item other : Instance} (related : tie item other) : Alike tie (.one item) (.one other)
  | many {items others : List Instance} (related : List.Forall₂ tie items others) :
      Alike tie (.many items) (.many others)
  | any (elements : List Xml.Element) : Alike tie (.any elements) (.any elements)

/-- Whether nodes with related parts are related. -/
structure Instance.Congruence (same : Scalar → Scalar → Prop) (tie : Instance → Instance → Prop) :
    Prop where
  refl : ∀ node, tie node node
  refl_scalar : ∀ scalar, same scalar scalar
  scalar : ∀ name space value other, same value other →
    tie ⟨name, space, .scalar value⟩ ⟨name, space, .scalar other⟩
  text : ∀ name space value other attributes others, same value other →
    List.Forall₂ (fun entry twin => twin.1 = entry.1 ∧ same entry.2 twin.2) attributes others →
      tie ⟨name, space, .text value attributes⟩ ⟨name, space, .text other others⟩
  fields : ∀ name space entries twins attributes others,
    List.Forall₂ (fun entry twin => twin.1 = entry.1 ∧ Field.Alike tie entry.2 twin.2) entries
      twins →
    List.Forall₂ (fun entry twin => twin.1 = entry.1 ∧ same entry.2 twin.2) attributes others →
      tie ⟨name, space, .fields entries attributes⟩ ⟨name, space, .fields twins others⟩

/-- Whether related values are alike, so that this goes on for their parts, and nodes with related
parts are related. -/
structure Likeness (same : Scalar → Scalar → Prop) (rel : Value → Value → Prop)
    (tie : Instance → Instance → Prop) : Prop where
  values : ∀ value twin, rel value twin → value.Alike same rel twin
  nodes : Instance.Congruence same tie

/-- Whether a way to build instances takes related values to related instances, or fails alike. -/
def Placing.Agrees (rel : Value → Value → Prop) (tie : Instance → Instance → Prop)
    (place : Placing) : Prop :=
  ∀ decl value twin, rel value twin → Agree SameCategory tie (place decl value) (place decl twin)

/-- Whether nodes with two contents are related, whatever their names. -/
def Content.Alike (tie : Instance → Instance → Prop) (content other : Content) : Prop :=
  ∀ name space, tie ⟨name, space, content⟩ ⟨name, space, other⟩

/-- A field is alike itself where nodes are related to themselves. -/
theorem Field.Alike.refl {tie : Instance → Instance → Prop} (htie : ∀ node, tie node node)
    (field : Field) : Field.Alike tie field field := by
  cases field with
  | one item => exact .one (htie item)
  | many items => exact .many (List.forall₂_same.2 fun item _ => htie item)
  | any elements => exact .any elements

/-- A field that may be missing is alike itself. -/
theorem Field.option_alike_refl {tie : Instance → Instance → Prop} (htie : ∀ node, tie node node)
    (field : Option Field) : Option.Rel (Field.Alike tie) field field := by
  cases field with
  | none => exact .none
  | some field => exact .some (.refl htie field)

variable {same : Scalar → Scalar → Prop} {rel : Value → Value → Prop}
  {tie : Instance → Instance → Prop}

/-- A scalar is not nothing. -/
theorem Value.ofDatum_ne_null (datum : Datum) : Value.ofDatum datum ≠ .null := by
  cases datum <;> exact nofun

/-- A scalar is no list. -/
theorem Value.ofDatum_ne_list (datum : Datum) (items : List Value) :
    Value.ofDatum datum ≠ .list items := by
  cases datum <;> exact nofun

/-- A scalar is no finished instance. -/
theorem Value.ofDatum_ne_built (datum : Datum) (node : Instance) :
    Value.ofDatum datum ≠ .built node := by
  cases datum <;> exact nofun

/-- Of two values that are alike either both are nothing or neither. -/
theorem Value.Alike.eq_null {value twin : Value} (h : value.Alike same rel twin) :
    value = .null ↔ twin = .null := by
  cases h with
  | refl => exact Iff.rfl
  | @scalar datum other =>
    exact ⟨fun h => absurd h (ofDatum_ne_null datum), fun h => absurd h (ofDatum_ne_null other)⟩
  | list | map => exact ⟨nofun, nofun⟩

/-! ## Scalars and attributes -/

/-- Faults of construction are all of one category. -/
def AnyFaults (_ _ : ConstructionFault) : Prop :=
  True

/-- Faults of construction are of one category. -/
theorem sameCategory_construction (fault other : ConstructionFault) (_ : AnyFaults fault other) :
    SameCategory (.construction fault) (.construction other) :=
  rfl

/-- A scalar becomes the scalar of a kind that it is brought to. -/
theorem Scalar.ofValue_ofDatum (kind : Kind) (name : String) (datum : Datum) :
    Scalar.ofValue kind name (.ofDatum datum) = .ok (Scalar.ofDatum kind datum) := by
  cases datum <;> rfl

/-- Values that are alike give scalars that are the same in the respect left open, or no scalars. -/
theorem Scalar.ofValue_agree (hsame : ∀ scalar, same scalar scalar) {kind : Kind} {name : String}
    {value twin : Value} (h : value.Alike same rel twin) :
    Agree AnyFaults same (Scalar.ofValue kind name value) (Scalar.ofValue kind name twin) := by
  cases h with
  | refl => exact .refl (fun _ => trivial) hsame _
  | scalar scalars =>
    rw [Scalar.ofValue_ofDatum, Scalar.ofValue_ofDatum]
    exact .ok (scalars kind)
  | list | map => exact .error trivial

namespace Construction

variable {place : Placing} {target : Namespace} {limits : Limits} {depth : Nat} {name key : String}
  {type : ComplexType} {entries others : List (String × Value)} {value twin : Value}

/-- The first declared attribute is there when its entry is and holds something. -/
theorem attributes_cons {decl : AttributeDecl} {rest : List AttributeDecl}
    (hlookup : entries.lookup decl.name = some value) (hnull : value ≠ .null) :
    attributes entries (decl :: rest) = (do
      let scalar ← Scalar.ofValue decl.type.kind decl.name value
      let scalars ← attributes entries rest
      pure ((decl.name, scalar) :: scalars)) := by
  rw [attributes]
  split
  · next hnone => simp [hlookup] at hnone
  · next hsome =>
    rw [hlookup] at hsome
    exact absurd (Option.some.inj hsome) hnull
  · next found _ hsome =>
    rw [hlookup] at hsome
    obtain rfl := Option.some.inj hsome
    rfl

/-- The first declared attribute is left out when its entry is missing or holds nothing. -/
theorem attributes_cons_of_null {decl : AttributeDecl} {rest : List AttributeDecl}
    (hlookup : entries.lookup decl.name = none ∨ entries.lookup decl.name = some .null) :
    attributes entries (decl :: rest) = attributes entries rest := by
  rw [attributes]
  rcases hlookup with hlookup | hlookup <;> rw [hlookup]

/-- Entries with related values give attributes of the same names, with scalars that are the same in
the respect left open. -/
theorem attributes_agree (hsame : ∀ scalar, same scalar scalar)
    (hrel : ∀ value twin, rel value twin → value.Alike same rel twin)
    (h : ∀ key, Option.Rel rel (entries.lookup key) (others.lookup key))
    (decls : List AttributeDecl) :
    Agree AnyFaults (List.Forall₂ fun entry twin => twin.1 = entry.1 ∧ same entry.2 twin.2)
      (attributes entries decls) (attributes others decls) := by
  induction decls with
  | nil => exact .ok .nil
  | cons decl rest ih =>
    have hvalue := h decl.name
    generalize hleft : entries.lookup decl.name = left, hright : others.lookup decl.name = right
      at hvalue
    cases hvalue with
    | none =>
      rw [attributes_cons_of_null (Or.inl hleft), attributes_cons_of_null (Or.inl hright)]
      exact ih
    | @some value twin hvalue =>
      have halike := hrel value twin hvalue
      by_cases hnull : value = .null
      · rw [attributes_cons_of_null (Or.inr (by rw [hleft, hnull])),
          attributes_cons_of_null (Or.inr (by rw [hright, halike.eq_null.1 hnull]))]
        exact ih
      · rw [attributes_cons hleft hnull,
          attributes_cons hright fun htwin => hnull (halike.eq_null.2 htwin)]
        apply (Scalar.ofValue_agree hsame halike).bind
        intro scalar other hscalar
        apply ih.bind
        intro scalars twins hscalars
        exact .ok (.cons ⟨rfl, hscalar⟩ hscalars)

/-- Entries are let through if and only if the type has all of their keys. -/
theorem refuseUnknown_eq_ok {keys : List String} :
    refuseUnknown name keys entries = .ok () ↔ ∀ key ∈ entries.map Prod.fst, key ∈ keys := by
  unfold refuseUnknown
  split
  · next entry hfound =>
    have hunknown := List.find?_some hfound
    simp only [Bool.not_eq_true', List.contains_eq_mem, decide_eq_false_iff_not] at hunknown
    refine ⟨nofun, fun h => absurd (h entry.1 ?_) hunknown⟩
    exact List.mem_map_of_mem (List.mem_of_find?_eq_some hfound)
  · next hnone =>
    rw [List.find?_eq_none] at hnone
    simpa using hnone

/-- Entries with related values have the same keys, and so are known or not. -/
theorem refuseUnknown_agree (h : ∀ key, Option.Rel rel (entries.lookup key) (others.lookup key))
    (keys : List String) :
    Agree AnyFaults Eq (refuseUnknown name keys entries) (refuseUnknown name keys others) := by
  have hkeys : ∀ key, key ∈ entries.map Prod.fst ↔ key ∈ others.map Prod.fst := by
    intro key
    rw [mem_keys_iff_lookup, mem_keys_iff_lookup]
    have hvalue := h key
    generalize entries.lookup key = left, others.lookup key = right at hvalue
    cases hvalue with
    | none => exact Iff.rfl
    | some _ => exact ⟨fun _ => rfl, fun _ => rfl⟩
  have hiff : refuseUnknown name keys entries = .ok () ↔
      refuseUnknown name keys others = .ok () := by
    simp only [refuseUnknown_eq_ok, hkeys]
  cases hleft : refuseUnknown name keys entries with
  | ok =>
    rw [hiff.1 hleft]
    exact .ok rfl
  | error fault =>
    cases hright : refuseUnknown name keys others with
    | ok =>
      rw [hiff.2 hright] at hleft
      cases hleft
    | error other => exact .error trivial

/-- Keys give related values the same places. -/
theorem zip_forall₂ {items twins : List Value} (h : List.Forall₂ rel items twins)
    (keys : List String) :
    List.Forall₂ (fun entry twin => twin.1 = entry.1 ∧ rel entry.2 twin.2) (keys.zip items)
      (keys.zip twins) := by
  induction h generalizing keys with
  | nil => simp
  | cons hfirst _ ih =>
    cases keys with
    | nil => exact .nil
    | cons key rest => exact .cons ⟨rfl, hfirst⟩ (ih rest)

/-- Lists with related items give entries with related values, or too many. -/
theorem positional_agree {items twins : List Value} (h : List.Forall₂ rel items twins)
    (keys : List String) :
    Agree AnyFaults
      (fun entries others => ∀ key, Option.Rel rel (entries.lookup key) (others.lookup key))
      (positional name keys items) (positional name keys twins) := by
  unfold positional
  rw [← h.length_eq]
  split
  · exact .error trivial
  · exact .ok (lookup_forall₂ (zip_forall₂ h keys))

/-! ## Contents -/

/-- Entries with related values give contents that are alike, where the content is text. -/
theorem textOfEntries_agree (hlike : Likeness same rel tie) {base : SimpleType}
    (h : ∀ key, Option.Rel rel (entries.lookup key) (others.lookup key)) :
    Agree AnyFaults (Content.Alike tie) (textOfEntries name type base entries)
      (textOfEntries name type base others) := by
  have hscalar : Agree AnyFaults same
      (Scalar.ofValue base.kind name ((entries.lookup textKey).getD .null))
      (Scalar.ofValue base.kind name ((others.lookup textKey).getD .null)) := by
    have hvalue := h textKey
    generalize entries.lookup textKey = left, others.lookup textKey = right at hvalue
    cases hvalue with
    | none => exact .refl (fun _ => trivial) hlike.nodes.refl_scalar _
    | some hvalue => exact Scalar.ofValue_agree hlike.nodes.refl_scalar (hlike.values _ _ hvalue)
  unfold textOfEntries
  apply hscalar.bind
  intro scalar other hscalar
  apply (attributes_agree hlike.nodes.refl_scalar hlike.values h type.attributes).bind
  intro scalars twins hscalars
  apply (refuseUnknown_agree h type.keys).bind
  intro _ _ _
  exact .ok fun name space =>
    hlike.nodes.text name space scalar other scalars twins hscalar hscalars

/-- A scalar is the text of a type whose content is text. -/
theorem text_ofDatum {base : SimpleType} (datum : Datum) :
    text name type base (.ofDatum datum) = .ok (.text (.ofDatum base.kind datum) []) := by
  cases datum <;> rfl

/-- Values that are alike give contents that are alike, where the content is text. -/
theorem text_agree (hlike : Likeness same rel tie) {base : SimpleType}
    (h : value.Alike same rel twin) :
    Agree AnyFaults (Content.Alike tie) (text name type base value) (text name type base twin) := by
  cases h with
  | refl => exact .refl (fun _ => trivial) (fun _ _ _ => hlike.nodes.refl _) _
  | scalar scalars =>
    rw [text_ofDatum, text_ofDatum]
    exact .ok fun name space => hlike.nodes.text name space _ _ [] [] (scalars base.kind) .nil
  | list parts =>
    apply (positional_agree parts type.keys).bind
    intro entries others hentries
    exact textOfEntries_agree hlike hentries
  | map parts => exact textOfEntries_agree hlike parts

/-- Values that are alike give a wildcard the same element. -/
theorem wildcardElement_agree (h : value.Alike same rel twin) :
    Agree SameCategory Eq (wildcardElement limits depth key value)
      (wildcardElement limits depth key twin) := by
  cases h with
  | refl => exact .refl sameCategory_refl (fun _ => rfl) _
  | @scalar datum other => cases datum <;> cases other <;> exact .error rfl
  | list | map => exact .error rfl

/-- A value that is neither nothing nor a list is the only item of a wildcard. -/
theorem wildcard_single (hnull : value ≠ .null) (hlist : ∀ items, value ≠ .list items) :
    wildcard limits depth key value = wildcard limits depth key (.list [value]) := by
  cases value with
  | null => exact absurd rfl hnull
  | list items => exact absurd rfl (hlist items)
  | _ => rfl

/-- Lists with items that are alike give a wildcard the same elements. -/
theorem wildcard_list_agree {items twins : List Value}
    (h : List.Forall₂ (fun item twin => item.Alike same rel twin) items twins) :
    Agree SameCategory (Option.Rel (Field.Alike tie)) (wildcard limits depth key (.list items))
      (wildcard limits depth key (.list twins)) := by
  have helements : Agree SameCategory (List.Forall₂ Eq)
      (items.mapM (wildcardElement limits depth key))
      (twins.mapM (wildcardElement limits depth key)) :=
    .mapM (h.imp fun _ _ => wildcardElement_agree)
  unfold wildcard
  dsimp only
  cases h with
  | nil => exact .ok .none
  | cons =>
    apply helements.bind
    intro elements others hsame
    rw [List.forall₂_eq_eq_eq] at hsame
    subst hsame
    exact .ok (.some (.any elements))

/-- Values that are alike give a wildcard fields that are alike. -/
theorem wildcard_agree (hlike : Likeness same rel tie)
    (h : value.Alike same rel twin) :
    Agree SameCategory (Option.Rel (Field.Alike tie)) (wildcard limits depth key value)
      (wildcard limits depth key twin) := by
  have hsingle (hvalue : value ≠ .null ∧ ∀ items, value ≠ .list items)
      (htwin : twin ≠ .null ∧ ∀ items, twin ≠ .list items) :
      Agree SameCategory (Option.Rel (Field.Alike tie)) (wildcard limits depth key value)
        (wildcard limits depth key twin) := by
    rw [wildcard_single hvalue.1 hvalue.2, wildcard_single htwin.1 htwin.2]
    exact wildcard_list_agree (.cons h .nil)
  cases h with
  | refl => exact .refl sameCategory_refl (Field.option_alike_refl hlike.nodes.refl) _
  | scalar =>
    exact hsingle ⟨Value.ofDatum_ne_null _, Value.ofDatum_ne_list _⟩
      ⟨Value.ofDatum_ne_null _, Value.ofDatum_ne_list _⟩
  | list parts => exact wildcard_list_agree (parts.imp hlike.values)
  | map => exact hsingle ⟨nofun, nofun⟩ ⟨nofun, nofun⟩

/-! ## Fields -/

/-- A single declaration takes any value but a list for its one occurrence. -/
theorem declared_single {decl : ElementDecl} (honce : decl.occurs.isSingle = true)
    (hlist : ∀ items, value ≠ .list items) :
    declared place decl value = place decl value >>= fun item => pure (some (.one item)) := by
  unfold declared
  rw [if_pos honce]
  split
  · next items => exact absurd rfl (hlist items)
  · rfl

/-- A repeated declaration takes nothing but a list. -/
theorem declared_unlisted {decl : ElementDecl} (hmany : ¬ decl.occurs.isSingle = true)
    (hlist : ∀ items, value ≠ .list items) :
    declared place decl value =
      .error (.construction (.expectsList decl.name decl.occurs value.form)) := by
  unfold declared
  rw [if_neg hmany]
  split
  · exact absurd rfl (hlist [])
  · next items _ => exact absurd rfl (hlist items)
  · rfl

/-- A repeated declaration takes the items of a list one by one. -/
theorem declared_repeated {decl : ElementDecl} {items : List Value}
    (hmany : decl.occurs.isSingle = false) (hne : items ≠ []) :
    declared place decl (.list items) =
      items.mapM (place decl) >>= fun items => pure (some (.many items)) := by
  unfold declared
  rw [hmany]
  cases items with
  | nil => exact absurd rfl hne
  | cons first rest => rfl

/-- Related values give a declaration fields that are alike. -/
theorem declared_agree (hlike : Likeness same rel tie) (hplace : place.Agrees rel tie)
    {decl : ElementDecl} (h : rel value twin) :
    Agree SameCategory (Option.Rel (Field.Alike tie)) (declared place decl value)
      (declared place decl twin) := by
  have halike := hlike.values value twin h
  by_cases honce : decl.occurs.isSingle = true
  · -- a list is refused on both sides, and everything else is placed as it is
    have hunlisted (hvalue : ∀ items, value ≠ .list items) (htwin : ∀ items, twin ≠ .list items) :
        Agree SameCategory (Option.Rel (Field.Alike tie)) (declared place decl value)
          (declared place decl twin) := by
      rw [declared_single honce hvalue, declared_single honce htwin]
      apply (hplace decl value twin h).bind
      intro item other hitem
      exact .ok (.some (.one hitem))
    cases halike with
    | refl => exact .refl sameCategory_refl (Field.option_alike_refl hlike.nodes.refl) _
    | scalar => exact hunlisted (Value.ofDatum_ne_list _) (Value.ofDatum_ne_list _)
    | map => exact hunlisted nofun nofun
    | list =>
      unfold declared
      rw [if_pos honce, if_pos honce]
      exact .error rfl
  · have hrefused (hvalue : ∀ items, value ≠ .list items) (htwin : ∀ items, twin ≠ .list items) :
        Agree SameCategory (Option.Rel (Field.Alike tie)) (declared place decl value)
          (declared place decl twin) := by
      rw [declared_unlisted honce hvalue, declared_unlisted honce htwin]
      exact .error rfl
    cases halike with
    | refl => exact .refl sameCategory_refl (Field.option_alike_refl hlike.nodes.refl) _
    | scalar => exact hrefused (Value.ofDatum_ne_list _) (Value.ofDatum_ne_list _)
    | map => exact hrefused nofun nofun
    | list parts =>
      have hitems := Agree.mapM (parts.imp (hplace decl))
      unfold declared
      rw [if_neg honce, if_neg honce]
      cases parts with
      | nil => exact .ok .none
      | cons =>
        apply hitems.bind
        intro items others hitems
        exact .ok (.some (.many hitems))

/-- Related values give a particle fields that are alike. -/
theorem field_agree (hlike : Likeness same rel tie) (hplace : place.Agrees rel tie)
    (h : rel value twin) (particle : Particle) :
    Agree SameCategory (Option.Rel (Field.Alike tie)) (field place limits depth value particle)
      (field place limits depth twin particle) := by
  cases particle with
  | any wildcard => exact wildcard_agree hlike (hlike.values value twin h)
  | element decl => exact declared_agree hlike hplace h

/-- Entries with related values give related fields under the same keys. -/
theorem fields_agree (hlike : Likeness same rel tie) (hplace : place.Agrees rel tie)
    (h : ∀ key, Option.Rel rel (entries.lookup key) (others.lookup key))
    (particles : List Particle) :
    Agree SameCategory
      (List.Forall₂ fun entry twin => twin.1 = entry.1 ∧ Field.Alike tie entry.2 twin.2)
      (fields place limits depth entries particles)
      (fields place limits depth others particles) := by
  induction particles with
  | nil => exact .ok .nil
  | cons particle rest ih =>
    have hvalue := h particle.key
    unfold fields
    generalize entries.lookup particle.key = left, others.lookup particle.key = right at hvalue
    cases hvalue with
    | none => exact ih
    | some hvalue =>
      apply (field_agree hlike hplace hvalue particle).bind
      intro first other hfirst
      apply ih.bind
      intro built twins hbuilt
      cases hfirst with
      | none => exact .ok hbuilt
      | some hfield => exact .ok (.cons ⟨rfl, hfield⟩ hbuilt)

/-- Entries with related values give sequences that are alike. -/
theorem sequenceOfEntries_agree (hlike : Likeness same rel tie) (hplace : place.Agrees rel tie)
    (h : ∀ key, Option.Rel rel (entries.lookup key) (others.lookup key))
    (particles : List Particle) :
    Agree SameCategory (Content.Alike tie)
      (sequenceOfEntries place limits depth name type particles entries)
      (sequenceOfEntries place limits depth name type particles others) := by
  unfold sequenceOfEntries
  apply (fields_agree hlike hplace h particles).bind
  intro built twins hbuilt
  have hattributes := attributes_agree hlike.nodes.refl_scalar hlike.values h type.attributes
  apply (hattributes.mapError sameCategory_construction).bind
  intro scalars others hscalars
  apply ((refuseUnknown_agree h type.keys).mapError sameCategory_construction).bind
  intro _ _ _
  exact .ok fun name space =>
    hlike.nodes.fields name space built twins scalars others hbuilt hscalars

/-- A scalar gives no sequence. -/
theorem sequence_ofDatum {particles : List Particle} (datum : Datum) :
    sequence place limits depth name type particles (.ofDatum datum) =
      .error (.construction (.expectsContent name (Value.ofDatum datum).form)) := by
  cases datum <;> rfl

/-- Values that are alike give sequences that are alike. -/
theorem sequence_agree (hlike : Likeness same rel tie) (hplace : place.Agrees rel tie)
    (h : value.Alike same rel twin) (particles : List Particle) :
    Agree SameCategory (Content.Alike tie)
      (sequence place limits depth name type particles value)
      (sequence place limits depth name type particles twin) := by
  cases h with
  | refl => exact .refl sameCategory_refl (fun _ _ _ => hlike.nodes.refl _) _
  | scalar =>
    rw [sequence_ofDatum, sequence_ofDatum]
    exact .error rfl
  | list parts =>
    apply ((positional_agree parts type.keys).mapError sameCategory_construction).bind
    intro entries others hentries
    exact sequenceOfEntries_agree hlike hplace hentries particles
  | map parts => exact sequenceOfEntries_agree hlike hplace parts particles

/-! ## Nodes -/

/-- Values that are alike give contents that are alike under every type. -/
theorem content_agree (hlike : Likeness same rel tie) (hplace : place.Agrees rel tie)
    (h : value.Alike same rel twin) (definition : TypeDefinition) :
    Agree SameCategory (Content.Alike tie) (content place limits depth name value definition)
      (content place limits depth name twin definition) := by
  unfold content
  split
  · next simple =>
    have hvalue : Agree AnyFaults same (Scalar.ofValue simple.kind name value)
        (Scalar.ofValue simple.kind name twin) :=
      Scalar.ofValue_agree hlike.nodes.refl_scalar h
    apply (hvalue.map ?_).mapError sameCategory_construction
    intro scalar other hscalar name space
    exact hlike.nodes.scalar name space scalar other hscalar
  · split
    · exact (text_agree hlike h).mapError sameCategory_construction
    · exact sequence_agree hlike hplace h _

/-- A value that is no finished instance becomes a node of the content that it gives. -/
theorem node_of_unbuilt (hbuilt : ∀ built, value ≠ .built built) (definition : TypeDefinition) :
    node place target limits depth name definition value =
      content place limits depth name value definition >>=
        fun content => pure ⟨name, target, content⟩ := by
  unfold node
  split
  · next built => exact absurd rfl (hbuilt built)
  · rfl

/-- Values that are alike become related nodes of every type. -/
theorem node_agree (hlike : Likeness same rel tie) (hplace : place.Agrees rel tie)
    (h : value.Alike same rel twin) (definition : TypeDefinition) :
    Agree SameCategory tie (node place target limits depth name definition value)
      (node place target limits depth name definition twin) := by
  have hnode (hvalue : ∀ built, value ≠ .built built) (htwin : ∀ built, twin ≠ .built built) :
      Agree SameCategory tie (node place target limits depth name definition value)
        (node place target limits depth name definition twin) := by
    rw [node_of_unbuilt hvalue, node_of_unbuilt htwin]
    apply (content_agree hlike hplace h definition).bind
    intro content other hcontent
    exact .ok (hcontent name target)
  cases h with
  | refl => exact .refl sameCategory_refl hlike.nodes.refl _
  | scalar => exact hnode (Value.ofDatum_ne_built _) (Value.ofDatum_ne_built _)
  | list | map => exact hnode nofun nofun

end Construction

/-! ## All levels -/

namespace Schema

variable {schema : Schema}

/-- Related values become related instances of a declaration, or fail alike. -/
theorem place_agree (hlike : Likeness same rel tie) {levels depth : Nat}
    {decl : ElementDecl} {value twin : Value} (h : rel value twin) :
    Agree SameCategory tie (schema.place levels depth decl value)
      (schema.place levels depth decl twin) := by
  induction levels generalizing depth decl value twin with
  | zero => exact .error rfl
  | succ levels ih =>
    unfold place
    apply (Agree.refl sameCategory_refl (fun _ => rfl) (schema.resolve decl.type)).bind
    rintro definition _ rfl
    have hplace : ∀ child part other, rel part other → Agree SameCategory tie
        (schema.place levels (depth + 1) child part)
        (schema.place levels (depth + 1) child other) := fun _ _ _ hparts => ih hparts
    exact Construction.node_agree hlike hplace (hlike.values value twin h) definition

/-- Related values become related instances of a top-level element, or fail alike. -/
theorem construct_agree (hlike : Likeness same rel tie) {name : String}
    {value twin : Value} (h : rel value twin) :
    Agree SameCategory tie (schema.construct name value) (schema.construct name twin) := by
  unfold construct
  apply (Agree.refl sameCategory_refl (fun _ => rfl) (schema.element name)).bind
  rintro decl _ rfl
  exact place_agree hlike h

end Schema

end TypedXml
