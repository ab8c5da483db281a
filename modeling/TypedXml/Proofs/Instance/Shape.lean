import TypedXml.Instance.Construction
import TypedXml.Proofs.Scalar.Lexical
import TypedXml.Proofs.Schema.Assembled

/-!
# The shape of constructed instances

A value may give the parts of an instance in any order, by key or by position, and with items that
stand for nothing.  The instance that is built from it has one shape all the same: fields and
attributes in the order in which the type declares them, one occurrence where there is at most one,
a list that is not empty elsewhere, and scalars of the kinds that are declared.  A finished
instance inside of the value could have any shape, and is left out here.
-/

set_option autoImplicit false

namespace TypedXml

/-! ## Parts of a value -/

namespace Value

/-- The values for the occurrences of a declaration. -/
def parts : Value → List Value
  | .list items => items
  | value => [value]

/-- The entries of a value for a type, those of a list under the keys of the type. -/
def entries (keys : List String) : Value → List (String × Value)
  | .map entries => entries
  | .list items => keys.zip items
  | _ => []

end Value

namespace Schema

/-! ## Values without finished instances -/

/-- The particle of a type that a key of a construction value belongs to. -/
def slot? (schema : Schema) (type : TypeRef) (key : String) : Option Particle :=
  match schema.resolve type with
  | .ok (.complex complex) => complex.particle? key
  | _ => none

/-- The keys that the items of a construction value belong to. -/
def keysOf (schema : Schema) (type : TypeRef) : List String :=
  match schema.resolve type with
  | .ok (.complex complex) => complex.keys
  | _ => []

mutual

/-- Whether a value for a type holds no finished instance, but for those in wildcards. -/
def isLoose (schema : Schema) : Value → TypeRef → Bool
  | .built _, _ => false
  | .list items, type => looseParts schema type (schema.keysOf type) items
  | .map entries, type => looseEntries schema type entries
  | _, _ => true

/-- The same for the parts of a value by position. -/
def looseParts (schema : Schema) (type : TypeRef) : List String → List Value → Bool
  | key :: keys, item :: rest =>
    looseSlot schema item (schema.slot? type key) && looseParts schema type keys rest
  | _, _ => true

/-- The same for the parts of a value by key. -/
def looseEntries (schema : Schema) (type : TypeRef) : List (String × Value) → Bool
  | [] => true
  | (key, value) :: rest =>
    looseSlot schema value (schema.slot? type key) && looseEntries schema type rest

/-- The same for a part of a value. -/
def looseSlot (schema : Schema) : Value → Option Particle → Bool
  | .built _, some (.element _) => false
  | .list items, some (.element decl) => looseAll schema decl.type items
  | .map entries, some (.element decl) => looseEntries schema decl.type entries
  | _, _ => true

/-- The same for the items of a repeated part. -/
def looseAll (schema : Schema) (type : TypeRef) : List Value → Bool
  | [] => true
  | item :: rest => isLoose schema item type && looseAll schema type rest

end

variable {schema : Schema} {type : TypeRef}

/-- What a value without finished instances has under a key is one for the particle of this key. -/
theorem looseSlot_of_lookup {entries : List (String × Value)} {key : String} {value : Value}
    (hloose : looseEntries schema type entries = true) (h : entries.lookup key = some value) :
    looseSlot schema value (schema.slot? type key) = true := by
  induction entries with
  | nil => cases h
  | cons entry rest ih =>
    obtain ⟨k, v⟩ := entry
    rw [looseEntries, Bool.and_eq_true] at hloose
    rw [List.lookup_cons] at h
    split at h
    · next hk =>
      cases h
      rw [eq_of_beq hk]
      exact hloose.1
    · exact ih hloose.2 h

/-- Parts by position without finished instances are entries without them. -/
theorem looseEntries_zip {keys : List String} {items : List Value}
    (h : looseParts schema type keys items = true) :
    looseEntries schema type (keys.zip items) = true := by
  induction keys generalizing items with
  | nil => rfl
  | cons key keys ih =>
    cases items with
    | nil => rfl
    | cons item rest =>
      rw [looseParts, Bool.and_eq_true] at h
      rw [List.zip_cons_cons, looseEntries, h.1, ih h.2]
      rfl

/-- A value without finished instances has entries without them. -/
theorem looseEntries_of_isLoose {value : Value} (h : isLoose schema value type = true) :
    looseEntries schema type (value.entries (schema.keysOf type)) = true := by
  cases value with
  | list items =>
    rw [isLoose] at h
    exact looseEntries_zip h
  | map entries =>
    rw [isLoose] at h
    exact h
  | _ => rfl

/-- The items of a repeated part without finished instances are values without them. -/
theorem isLoose_of_looseAll {items : List Value} (h : looseAll schema type items = true) :
    ∀ item ∈ items, isLoose schema item type = true := by
  induction items with
  | nil => simp
  | cons item rest ih =>
    rw [looseAll, Bool.and_eq_true] at h
    exact List.forall_mem_cons.2 ⟨h.1, ih h.2⟩

/-- The parts of a value without finished instances are values without them. -/
theorem isLoose_of_mem_parts {decl : ElementDecl} {value part : Value}
    (h : looseSlot schema value (some (.element decl)) = true) (hpart : part ∈ value.parts) :
    isLoose schema part decl.type = true := by
  cases value with
  | list items =>
    rw [looseSlot] at h
    exact isLoose_of_looseAll h part hpart
  | built node =>
    rw [looseSlot] at h
    cases h
  | map entries =>
    rw [looseSlot] at h
    rw [List.mem_singleton.1 hpart, isLoose]
    exact h
  | _ =>
    rw [List.mem_singleton.1 hpart]
    rfl

end Schema

/-! ## Shapes -/

/-- The shape of the field of a particle, given that of its typed occurrences. -/
inductive FieldShaped (good : ElementDecl → Instance → Prop) : Particle → Field → Prop
  | one {decl : ElementDecl} {item : Instance} (single : decl.occurs.isSingle = true)
      (shaped : good decl item) : FieldShaped good (.element decl) (.one item)
  | many {decl : ElementDecl} {items : List Instance} (repeated : decl.occurs.isSingle = false)
      (nonempty : items ≠ []) (shaped : ∀ item ∈ items, good decl item) :
      FieldShaped good (.element decl) (.many items)
  | any {wildcard : Wildcard} {elements : List Xml.Element} (nonempty : elements ≠ []) :
      FieldShaped good (.any wildcard) (.any elements)

/-- What stands in a field of a shape is good. -/
theorem FieldShaped.good_of_mem {good : ElementDecl → Instance → Prop} {decl : ElementDecl}
    {field : Field} {item : Instance} (h : FieldShaped good (.element decl) field)
    (hitem : item ∈ field.instances) : good decl item := by
  cases h with
  | one single shaped =>
    obtain rfl := List.mem_singleton.1 hitem
    exact shaped
  | many repeated nonempty shaped => exact shaped item hitem

/-- No field of a shape is kept for nothing. -/
theorem FieldShaped.count_ne_zero {good : ElementDecl → Instance → Prop} {particle : Particle}
    {field : Field} (h : FieldShaped good particle field) : field.count ≠ 0 := by
  cases h with
  | one single shaped => exact Nat.one_ne_zero
  | many repeated nonempty shaped => exact mt List.length_eq_zero_iff.1 nonempty
  | any nonempty => exact mt List.length_eq_zero_iff.1 nonempty

/-- The shape of a field goes over to whatever follows for its occurrences. -/
theorem FieldShaped.mono {good better : ElementDecl → Instance → Prop} {particle : Particle}
    {field : Field} (h : FieldShaped good particle field)
    (himp : ∀ decl, particle = .element decl → ∀ item, good decl item → better decl item) :
    FieldShaped better particle field := by
  cases h with
  | one single shaped => exact .one single (himp _ rfl _ shaped)
  | many repeated nonempty shaped =>
    exact .many repeated nonempty fun item hitem => himp _ rfl item (shaped item hitem)
  | any nonempty => exact .any nonempty

/-- The shape of the fields of a sequence: in the order of its particles, at most one for each. -/
inductive FieldsShaped (good : ElementDecl → Instance → Prop) :
    List Particle → List (String × Field) → Prop
  | done : FieldsShaped good [] []
  | absent {particle : Particle} {later : List Particle} {fields : List (String × Field)}
      (rest : FieldsShaped good later fields) : FieldsShaped good (particle :: later) fields
  | present {particle : Particle} {later : List Particle} {field : Field}
      {fields : List (String × Field)} (shaped : FieldShaped good particle field)
      (rest : FieldsShaped good later fields) :
      FieldsShaped good (particle :: later) ((particle.key, field) :: fields)

/-- The keys of fields in their shape are those of particles, in their order. -/
theorem FieldsShaped.keys_sublist {good : ElementDecl → Instance → Prop}
    {particles : List Particle} {entries : List (String × Field)}
    (h : FieldsShaped good particles entries) :
    (entries.map Prod.fst).Sublist (particles.map Particle.key) := by
  induction h with
  | done => exact .slnil
  | absent _ ih => exact .cons _ ih
  | present _ _ ih => exact .cons_cons _ ih

/-- Every field is that of a particle. -/
theorem FieldsShaped.particle_of_mem {good : ElementDecl → Instance → Prop}
    {particles : List Particle} {entries : List (String × Field)} {key : String} {field : Field}
    (h : FieldsShaped good particles entries) (hmem : (key, field) ∈ entries) :
    ∃ particle ∈ particles, particle.key = key ∧ FieldShaped good particle field := by
  induction h with
  | done => cases hmem
  | absent rest ih =>
    obtain ⟨particle, hparticle, hkey, hshaped⟩ := ih hmem
    exact ⟨particle, List.mem_cons_of_mem _ hparticle, hkey, hshaped⟩
  | present shaped rest ih =>
    rcases List.mem_cons.1 hmem with heq | hrest
    · cases heq
      exact ⟨_, List.mem_cons_self, rfl, shaped⟩
    · obtain ⟨particle, hparticle, hkey, hshaped⟩ := ih hrest
      exact ⟨particle, List.mem_cons_of_mem _ hparticle, hkey, hshaped⟩

/-- Where keys are distinct, the field of a key has the shape of its particle. -/
theorem FieldsShaped.fieldShaped_of_mem {good : ElementDecl → Instance → Prop}
    {particles : List Particle} {entries : List (String × Field)}
    (h : FieldsShaped good particles entries) (hdistinct : (particles.map Particle.key).Nodup)
    {particle : Particle} {field : Field} (hparticle : particle ∈ particles)
    (hmem : (particle.key, field) ∈ entries) : FieldShaped good particle field := by
  obtain ⟨other, hother, hkey, hshaped⟩ := h.particle_of_mem hmem
  have hfind := find?_key_of_mem hdistinct hparticle
  rw [← hkey, find?_key_of_mem hdistinct hother] at hfind
  cases hfind
  exact hshaped

/-- A better shape of each field that is there is a better shape of the fields. -/
theorem FieldsShaped.imp {good better : ElementDecl → Instance → Prop}
    {particles : List Particle} {entries : List (String × Field)}
    (h : FieldsShaped good particles entries)
    (himp : ∀ particle ∈ particles, ∀ field, (particle.key, field) ∈ entries →
      FieldShaped good particle field → FieldShaped better particle field) :
    FieldsShaped better particles entries := by
  induction h with
  | done => exact .done
  | absent rest ih =>
    apply FieldsShaped.absent
    apply ih
    intro particle hparticle field hfield
    exact himp particle (List.mem_cons_of_mem _ hparticle) field hfield
  | present shaped rest ih =>
    apply FieldsShaped.present
    · exact himp _ List.mem_cons_self _ List.mem_cons_self shaped
    · apply ih
      intro particle hparticle field hfield
      exact himp particle (List.mem_cons_of_mem _ hparticle) field
        (List.mem_cons_of_mem _ hfield)

/-- The shape of fields goes over to whatever follows for their occurrences. -/
theorem FieldsShaped.mono {good better : ElementDecl → Instance → Prop}
    {particles : List Particle} {entries : List (String × Field)}
    (h : FieldsShaped good particles entries)
    (himp : ∀ decl, .element decl ∈ particles → ∀ item, good decl item → better decl item) :
    FieldsShaped better particles entries := by
  refine h.imp ?_
  intro particle hparticle field _ hshaped
  refine hshaped.mono ?_
  rintro decl rfl
  exact himp decl hparticle

/-- The shape of attributes: in the order of their declarations, at most one for each. -/
inductive AttributesShaped : List AttributeDecl → List (String × Scalar) → Prop
  | done : AttributesShaped [] []
  | absent {decl : AttributeDecl} {rest : List AttributeDecl} {scalars : List (String × Scalar)}
      (others : AttributesShaped rest scalars) : AttributesShaped (decl :: rest) scalars
  | present {decl : AttributeDecl} {rest : List AttributeDecl} {scalar : Scalar}
      {scalars : List (String × Scalar)} (kind : scalar.kind = decl.type.kind)
      (others : AttributesShaped rest scalars) :
      AttributesShaped (decl :: rest) ((decl.name, scalar) :: scalars)

/-- The names of attributes in their shape are those of declarations, in their order. -/
theorem AttributesShaped.keys_sublist {decls : List AttributeDecl}
    {scalars : List (String × Scalar)} (h : AttributesShaped decls scalars) :
    (scalars.map Prod.fst).Sublist (decls.map AttributeDecl.name) := by
  induction h with
  | done => exact .slnil
  | absent _ ih => exact .cons _ ih
  | present _ _ ih => exact .cons_cons _ ih

/-- Every attribute in its shape has the kind of a declaration. -/
theorem AttributesShaped.exists_decl {decls : List AttributeDecl}
    {scalars : List (String × Scalar)} (h : AttributesShaped decls scalars)
    {entry : String × Scalar} (hentry : entry ∈ scalars) :
    ∃ decl ∈ decls, entry.2.kind = decl.type.kind := by
  induction h with
  | done => cases hentry
  | absent others ih =>
    obtain ⟨decl, hdecl, hkind⟩ := ih hentry
    exact ⟨decl, List.mem_cons_of_mem _ hdecl, hkind⟩
  | present kind others ih =>
    rcases List.mem_cons.1 hentry with rfl | hrest
    · exact ⟨_, List.mem_cons_self, kind⟩
    · obtain ⟨decl, hdecl, hkind⟩ := ih hrest
      exact ⟨decl, List.mem_cons_of_mem _ hdecl, hkind⟩

/-- The shape of an instance of a declaration. -/
inductive Shaped (schema : Schema) : ElementDecl → Instance → Prop
  | scalar {decl : ElementDecl} {simple : SimpleType} {value : Scalar}
      (resolved : schema.resolve decl.type = .ok (.simple simple))
      (kind : value.kind = simple.kind) :
      Shaped schema decl ⟨decl.name, schema.target, .scalar value⟩
  | text {decl : ElementDecl} {complex : ComplexType} {base : SimpleType} {value : Scalar}
      {attributes : List (String × Scalar)}
      (resolved : schema.resolve decl.type = .ok (.complex complex))
      (content : complex.content = .simple base) (kind : value.kind = base.kind)
      (scalars : AttributesShaped complex.attributes attributes) :
      Shaped schema decl ⟨decl.name, schema.target, .text value attributes⟩
  | fields {decl : ElementDecl} {complex : ComplexType} {particles : List Particle}
      {entries : List (String × Field)} {attributes : List (String × Scalar)}
      (resolved : schema.resolve decl.type = .ok (.complex complex))
      (content : complex.content = .sequence particles)
      (parts : FieldsShaped (fun decl item => Shaped schema decl item) particles entries)
      (scalars : AttributesShaped complex.attributes attributes) :
      Shaped schema decl ⟨decl.name, schema.target, .fields entries attributes⟩

/-- A statement about all shaped instances holds if it goes over from the nodes below a node to
the node. -/
@[elab_as_elim]
theorem Shaped.induct {schema : Schema} {P : ElementDecl → Instance → Prop}
    (scalar : ∀ {decl : ElementDecl} {simple : SimpleType} {value : Scalar},
      schema.resolve decl.type = .ok (.simple simple) → value.kind = simple.kind →
        P decl ⟨decl.name, schema.target, .scalar value⟩)
    (text : ∀ {decl : ElementDecl} {complex : ComplexType} {base : SimpleType} {value : Scalar}
      {attributes : List (String × Scalar)},
      schema.resolve decl.type = .ok (.complex complex) → complex.content = .simple base →
        value.kind = base.kind → AttributesShaped complex.attributes attributes →
          P decl ⟨decl.name, schema.target, .text value attributes⟩)
    (fields : ∀ {decl : ElementDecl} {complex : ComplexType} {particles : List Particle}
      {entries : List (String × Field)} {attributes : List (String × Scalar)},
      schema.resolve decl.type = .ok (.complex complex) → complex.content = .sequence particles →
        FieldsShaped P particles entries → AttributesShaped complex.attributes attributes →
          P decl ⟨decl.name, schema.target, .fields entries attributes⟩)
    {decl : ElementDecl} {node : Instance} (h : Shaped schema decl node) : P decl node := by
  refine Shaped.rec (motive_1 := fun decl node _ => P decl node)
    (motive_2 := fun particles entries _ => FieldsShaped P particles entries)
    (motive_3 := fun particle field _ => FieldShaped P particle field)
    ?scalar ?text ?fields ?done ?absent ?present ?one ?many ?any h
  case scalar => exact fun resolved kind => scalar resolved kind
  case text => exact fun resolved content kind scalars => text resolved content kind scalars
  case fields =>
    exact fun resolved content _ scalars parts => fields resolved content parts scalars
  case done => exact .done
  case absent => exact fun _ rest => .absent rest
  case present => exact fun _ _ shaped rest => .present shaped rest
  case one => exact fun single _ shaped => .one single shaped
  case many => exact fun repeated nonempty _ shaped => .many repeated nonempty shaped
  case any => exact fun nonempty => .any nonempty

/-- An instance in the shape of a declaration has its name. -/
theorem Shaped.name {schema : Schema} {decl : ElementDecl} {node : Instance}
    (h : Shaped schema decl node) : node.name = decl.name := by
  cases h with
  | scalar => rfl
  | text => rfl
  | fields => rfl

/-! ## Construction gives the shape -/

/-- A value becomes a scalar of the kind that is asked for. -/
theorem kind_of_ofValue {kind : Kind} {name : String} {value : Value} {scalar : Scalar}
    (h : Scalar.ofValue kind name value = .ok scalar) : scalar.kind = kind := by
  cases value with
  | null =>
    cases h
    rfl
  | text s =>
    cases h
    rfl
  | int n =>
    cases h
    rfl
  | boolean b =>
    cases h
    rfl
  | bytes b =>
    cases h
    rfl
  | _ => cases h

namespace Construction

/-- Attributes that are made from entries have their shape. -/
theorem attributes_shaped {entries : List (String × Value)} {decls : List AttributeDecl}
    {scalars : List (String × Scalar)} (h : attributes entries decls = .ok scalars) :
    AttributesShaped decls scalars := by
  induction decls generalizing scalars with
  | nil =>
    cases h
    exact .done
  | cons decl rest ih =>
    rw [attributes] at h
    split at h
    · exact .absent (ih h)
    · exact .absent (ih h)
    · obtain ⟨scalar, hscalar, h⟩ := bind_eq_ok.1 h
      obtain ⟨others, hothers, h⟩ := bind_eq_ok.1 h
      cases h
      exact .present (kind_of_ofValue hscalar) (ih hothers)

/-- No attributes are in the shape of any declarations. -/
theorem attributesShaped_nil (decls : List AttributeDecl) : AttributesShaped decls [] := by
  induction decls with
  | nil => exact .done
  | cons decl rest ih => exact .absent ih

/-- The parts that the content of a type whose content is text is made of. -/
theorem parts_of_textOfEntries {name : String} {type : ComplexType} {base : SimpleType}
    {entries : List (String × Value)} {content : Content}
    (h : textOfEntries name type base entries = .ok content) :
    ∃ scalar scalars, content = .text scalar scalars ∧
      Scalar.ofValue base.kind name ((entries.lookup textKey).getD .null) = .ok scalar ∧
      attributes entries type.attributes = .ok scalars ∧
      refuseUnknown name type.keys entries = .ok () := by
  rw [textOfEntries] at h
  obtain ⟨scalar, hscalar, h⟩ := bind_eq_ok.1 h
  obtain ⟨scalars, hscalars, h⟩ := bind_eq_ok.1 h
  obtain ⟨_, hknown, h⟩ := bind_eq_ok.1 h
  cases h
  exact ⟨scalar, scalars, rfl, hscalar, hscalars, hknown⟩

/-- Entries give a text of the declared kind, with attributes in their shape. -/
theorem textOfEntries_shaped {name : String} {type : ComplexType} {base : SimpleType}
    {entries : List (String × Value)} {content : Content}
    (h : textOfEntries name type base entries = .ok content) :
    ∃ scalar scalars, content = .text scalar scalars ∧ scalar.kind = base.kind ∧
      AttributesShaped type.attributes scalars := by
  obtain ⟨scalar, scalars, hcontent, hscalar, hscalars, _⟩ := parts_of_textOfEntries h
  exact ⟨scalar, scalars, hcontent, kind_of_ofValue hscalar, attributes_shaped hscalars⟩

/-- A value gives a text of the declared kind, with attributes in their shape. -/
theorem text_shaped {name : String} {type : ComplexType} {base : SimpleType} {value : Value}
    {content : Content} (h : text name type base value = .ok content) :
    ∃ scalar scalars, content = .text scalar scalars ∧ scalar.kind = base.kind ∧
      AttributesShaped type.attributes scalars := by
  unfold text at h
  split at h
  · exact textOfEntries_shaped h
  · obtain ⟨entries, _, h⟩ := bind_eq_ok.1 h
    exact textOfEntries_shaped h
  · obtain ⟨scalar, hscalar, h⟩ := bind_eq_ok.1 h
    cases h
    exact ⟨scalar, [], rfl, kind_of_ofValue hscalar, attributesShaped_nil _⟩

/-- A wildcard has no field or at least one element. -/
theorem wildcard_shaped {limits : Limits} {depth : Nat} {key : String} {value : Value}
    {field : Field} (h : wildcard limits depth key value = .ok (some field)) :
    ∃ elements, field = .any elements ∧ elements ≠ [] := by
  unfold wildcard at h
  extract_lets items at h
  split at h
  · cases h
  · next hempty =>
    obtain ⟨elements, helements, h⟩ := bind_eq_ok.1 h
    cases h
    refine ⟨elements, rfl, ?_⟩
    rintro rfl
    rw [mapM_eq_ok, List.forall₂_nil_right_iff] at helements
    rw [helements] at hempty
    exact hempty rfl

variable {place : Placing} {good : ElementDecl → Instance → Prop}

/-- The field of a declaration has its shape if the items that are placed have theirs. -/
theorem declared_shaped {decl : ElementDecl} {value : Value} {field : Field}
    (hplace : ∀ part ∈ value.parts, ∀ node, place decl part = .ok node → good decl node)
    (h : declared place decl value = .ok (some field)) :
    FieldShaped good (.element decl) field := by
  unfold declared at h
  split at h
  · next hsingle =>
    split at h
    · cases h
    · next hlist =>
      obtain ⟨item, hitem, h⟩ := bind_eq_ok.1 h
      cases h
      have hpart : value ∈ value.parts := by
        cases value with
        | list items => exact absurd rfl (hlist items)
        | _ => exact List.mem_singleton_self _
      exact .one hsingle (hplace value hpart item hitem)
  · next hrepeated =>
    rw [Bool.not_eq_true] at hrepeated
    split at h
    · cases h
    · next items hne =>
      obtain ⟨nodes, hnodes, h⟩ := bind_eq_ok.1 h
      cases h
      rw [mapM_eq_ok] at hnodes
      refine .many hrepeated ?_ ?_
      · rintro rfl
        rw [List.forall₂_nil_right_iff] at hnodes
        exact hne hnodes
      · intro node hnode
        obtain ⟨item, hitem, hbuilt⟩ := exists_of_mem_results hnodes hnode
        exact hplace item hitem node hbuilt
    · cases h

/-- The field of a particle has its shape if the items that are placed have theirs. -/
theorem field_shaped {limits : Limits} {depth : Nat} {particle : Particle} {value : Value}
    {built : Field}
    (hplace : ∀ decl, particle = .element decl → ∀ part ∈ value.parts, ∀ node,
      place decl part = .ok node → good decl node)
    (h : field place limits depth value particle = .ok (some built)) :
    FieldShaped good particle built := by
  cases particle with
  | any wildcard =>
    rw [field] at h
    obtain ⟨elements, rfl, hne⟩ := wildcard_shaped h
    exact .any hne
  | element decl =>
    rw [field] at h
    exact declared_shaped (hplace decl rfl) h

/-- The fields of entries come in the order of the particles, each in its shape. -/
theorem fields_shaped {limits : Limits} {depth : Nat} {entries : List (String × Value)}
    {particles : List Particle} {built : List (String × Field)}
    (hplace : ∀ decl, .element decl ∈ particles → ∀ value,
      entries.lookup decl.name = some value → ∀ part ∈ value.parts, ∀ node,
        place decl part = .ok node → good decl node)
    (h : fields place limits depth entries particles = .ok built) :
    FieldsShaped good particles built := by
  induction particles generalizing built with
  | nil =>
    cases h
    exact .done
  | cons particle rest ih =>
    have hrest : ∀ {others : List (String × Field)},
        fields place limits depth entries rest = .ok others → FieldsShaped good rest others :=
      ih fun decl hdecl => hplace decl (List.mem_cons_of_mem _ hdecl)
    rw [fields] at h
    split at h
    · exact .absent (hrest h)
    · next value hvalue =>
      obtain ⟨first, hfirst, h⟩ := bind_eq_ok.1 h
      obtain ⟨others, hothers, h⟩ := bind_eq_ok.1 h
      cases first with
      | none =>
        cases h
        exact .absent (hrest hothers)
      | some first =>
        cases h
        refine .present (field_shaped ?_ hfirst) (hrest hothers)
        rintro decl rfl
        exact hplace decl List.mem_cons_self value hvalue

/-- The parts that the content of a sequence is made of. -/
theorem parts_of_sequenceOfEntries {limits : Limits} {depth : Nat} {name : String}
    {type : ComplexType} {particles : List Particle} {entries : List (String × Value)}
    {content : Content}
    (h : sequenceOfEntries place limits depth name type particles entries = .ok content) :
    ∃ built scalars, content = .fields built scalars ∧
      fields place limits depth entries particles = .ok built ∧
      attributes entries type.attributes = .ok scalars ∧
      refuseUnknown name type.keys entries = .ok () := by
  rw [sequenceOfEntries] at h
  obtain ⟨built, hfields, h⟩ := bind_eq_ok.1 h
  obtain ⟨scalars, hscalars, h⟩ := bind_eq_ok.1 h
  obtain ⟨_, hknown, h⟩ := bind_eq_ok.1 h
  cases h
  exact ⟨built, scalars, rfl, hfields, mapError_eq_ok.1 hscalars, mapError_eq_ok.1 hknown⟩

/-- The content of a sequence is made from entries, whatever the form of the value. -/
theorem sequenceOfEntries_of_sequence {limits : Limits} {depth : Nat} {name : String}
    {type : ComplexType} {particles : List Particle} {value : Value} {content : Content}
    (h : sequence place limits depth name type particles value = .ok content) :
    sequenceOfEntries place limits depth name type particles (value.entries type.keys) =
      .ok content := by
  unfold sequence at h
  split at h
  · exact h
  · exact h
  · next items =>
    obtain ⟨entries, hentries, h⟩ := bind_eq_ok.1 h
    rw [mapError_eq_ok, positional] at hentries
    split at hentries
    · cases hentries
    · cases hentries
      exact h
  · cases h

/-- A node that is not a finished instance has the content that its value gives. -/
theorem content_of_node {target : Namespace} {limits : Limits} {depth : Nat} {name : String}
    {definition : TypeDefinition} {value : Value} {node : Instance}
    (hbuilt : ∀ built, value ≠ .built built)
    (h : Construction.node place target limits depth name definition value = .ok node) :
    ∃ content, Construction.content place limits depth name value definition = .ok content ∧
      node = ⟨name, target, content⟩ := by
  unfold Construction.node at h
  split at h
  · next built => exact absurd rfl (hbuilt built)
  · obtain ⟨content, hcontent, h⟩ := bind_eq_ok.1 h
    cases h
    exact ⟨content, hcontent, rfl⟩

/-- What a node is made of that is built from the value for it, by the form of its type. -/
inductive Builds (place : Placing) (target : Namespace) (limits : Limits) (depth : Nat)
    (name : String) (value : Value) : TypeDefinition → Instance → Prop
  | scalar {simple : SimpleType} {scalar : Scalar}
      (given : Scalar.ofValue simple.kind name value = .ok scalar) :
      Builds place target limits depth name value (.simple simple) ⟨name, target, .scalar scalar⟩
  | text {complex : ComplexType} {base : SimpleType} {scalar : Scalar}
      {scalars : List (String × Scalar)} (content : complex.content = .simple base)
      (given : text name complex base value = .ok (.text scalar scalars)) :
      Builds place target limits depth name value (.complex complex)
        ⟨name, target, .text scalar scalars⟩
  | fields {complex : ComplexType} {particles : List Particle} {built : List (String × Field)}
      {scalars : List (String × Scalar)} (content : complex.content = .sequence particles)
      (parts : fields place limits depth (value.entries complex.keys) particles = .ok built)
      (given : attributes (value.entries complex.keys) complex.attributes = .ok scalars) :
      Builds place target limits depth name value (.complex complex)
        ⟨name, target, .fields built scalars⟩

/-- A node that is not a finished instance is built from its value by the form of its type. -/
theorem builds_of_node {target : Namespace} {limits : Limits} {depth : Nat} {name : String}
    {definition : TypeDefinition} {value : Value} {node : Instance}
    (hbuilt : ∀ built, value ≠ .built built)
    (h : Construction.node place target limits depth name definition value = .ok node) :
    Builds place target limits depth name value definition node := by
  obtain ⟨content, hcontent, rfl⟩ := content_of_node hbuilt h
  cases definition with
  | simple simple =>
    rw [Construction.content, mapError_eq_ok, map_eq_ok] at hcontent
    obtain ⟨scalar, hscalar, rfl⟩ := hcontent
    exact .scalar hscalar
  | complex complex =>
    rw [Construction.content] at hcontent
    split at hcontent
    · next base hbase =>
      rw [mapError_eq_ok] at hcontent
      obtain ⟨scalar, scalars, rfl, _⟩ := text_shaped hcontent
      exact .text hbase hcontent
    · next particles hparticles =>
      obtain ⟨built, scalars, rfl, hfields, hscalars, _⟩ :=
        parts_of_sequenceOfEntries (sequenceOfEntries_of_sequence hcontent)
      exact .fields hparticles hfields hscalars

end Construction

/-- What is placed for a declaration is built from its value by the form of the declared type. -/
theorem Schema.builds_of_place {schema : Schema} {levels depth : Nat} {decl : ElementDecl}
    {value : Value} {node : Instance} (hbuilt : ∀ built, value ≠ .built built)
    (h : schema.place (levels + 1) depth decl value = .ok node) :
    ∃ definition, schema.resolve decl.type = .ok definition ∧
      Construction.Builds (schema.place levels (depth + 1)) schema.target schema.limits depth
        decl.name value definition node := by
  rw [place] at h
  obtain ⟨definition, hresolved, h⟩ := bind_eq_ok.1 h
  exact ⟨definition, hresolved, Construction.builds_of_node hbuilt h⟩

/-- The key of a particle belongs to this particle. -/
theorem Schema.slot?_eq_some {schema : Schema} {type : TypeRef} {complex : ComplexType}
    {particle : Particle} (hresolved : schema.resolve type = .ok (.complex complex))
    (hregular : complex.Regular) (hmem : particle ∈ complex.particles) :
    schema.slot? type particle.key = some particle := by
  rw [slot?, hresolved]
  exact find?_key_of_mem hregular.keys_distinct hmem

/-- An instance that is placed for a declaration has the shape of the declaration. -/
theorem shaped_of_place {schema : Schema} (hassembled : schema.Assembled) {levels depth : Nat}
    {decl : ElementDecl} {value : Value} {node : Instance}
    (htype : decl.type.all schema.declares (fun type => type.checkParts.isOk) = true)
    (hloose : schema.isLoose value decl.type = true)
    (h : schema.place levels depth decl value = .ok node) : Shaped schema decl node := by
  induction levels generalizing depth decl value node with
  | zero => cases h
  | succ levels ih =>
    have hbuilt : ∀ built, value ≠ .built built := by
      rintro built rfl
      cases hloose
    obtain ⟨definition, hresolved, hbuilds⟩ := Schema.builds_of_place hbuilt h
    cases hbuilds with
    | scalar given => exact .scalar hresolved (kind_of_ofValue given)
    | text content given =>
      obtain ⟨_, _, heq, hkind, hscalars⟩ := Construction.text_shaped given
      cases heq
      exact .text hresolved content hkind hscalars
    | @fields complex particles built scalars content parts given =>
      -- the type may lie behind a reference: its condition comes from the table of types
      have hall := Schema.all_of_resolve hassembled.allTypes htype hresolved
      have hmem := ComplexType.particles_of_sequence content
      have hentries := Schema.looseEntries_of_isLoose hloose
      have hkeys : schema.keysOf decl.type = complex.keys := by rw [Schema.keysOf, hresolved]
      rw [hkeys] at hentries
      refine .fields hresolved content (Construction.fields_shaped ?_ parts)
        (Construction.attributes_shaped given)
      intro child hchild slot hslot part hpart node hnode
      rw [← hmem] at hchild
      have hfound : schema.slot? decl.type child.name = some (.element child) :=
        Schema.slot?_eq_some hresolved (Schema.regular_of_all hall) hchild
      have hslotLoose := Schema.looseSlot_of_lookup hentries hslot
      rw [hfound] at hslotLoose
      exact ih (ComplexType.all_of_mem hall hchild)
        (Schema.isLoose_of_mem_parts hslotLoose hpart) hnode

/-- An instance that is built for a top-level element has the shape of its declaration. -/
theorem shaped_of_construct {schema : Schema} (hassembled : schema.Assembled) {element : String}
    {decl : ElementDecl} {value : Value} {node : Instance}
    (hdecl : schema.element? element = some decl)
    (hloose : schema.isLoose value decl.type = true)
    (h : schema.construct element value = .ok node) : Shaped schema decl node := by
  rw [Schema.construct, Schema.element, hdecl] at h
  have hmem := (Schema.mem_of_element? hdecl).1
  have htype := Schema.all_of_mem_elements hassembled.allTypes hmem
  exact shaped_of_place hassembled htype hloose h

end TypedXml
