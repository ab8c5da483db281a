import TypedXml.CommandLine
import TypedXml.Proofs.Instance.Grammar

/-!
# Enumerations are what reading leaves open

Reading checks names, counts, attributes and texts, and all but one thing that makes an instance
valid: it reads a scalar by the kind of its type and does not look into enumerations.  So an
instance that was read is valid if and only if each of its values is in all enumerations of the type
that is declared for it, and where a schema has no enumerations whatever is read is valid.
-/

set_option autoImplicit false

namespace TypedXml

/-! ## Enumerations of a type -/

/-- The enumerations of a chain of restrictions, the last restriction first. -/
def SimpleType.enumerations : SimpleType → List Enumeration
  | .builtin _ _ => []
  | .restriction base enumeration _ => enumeration :: base.enumerations

/-- A value passes the enumerations of a type one by one. -/
theorem SimpleType.inEnumerations_iff {type : SimpleType} {value : Datum} :
    type.inEnumerations value = true ↔
      ∀ enumeration ∈ type.enumerations, value ∈ enumeration.values := by
  induction type with
  | builtin kind name => simp [inEnumerations, enumerations]
  | restriction base enumeration name ih =>
    rw [inEnumerations, Bool.and_eq_true, ih, enumerations, List.forall_mem_cons,
      Enumeration.contains, List.contains_iff_mem]

/-- What a kind reads is allowed if it is in all enumerations. -/
theorem SimpleType.allows_of_read? {type : SimpleType} {text : String} {value : Datum}
    (h : type.kind.read? text = some value) : type.allows value = type.inEnumerations value := by
  obtain ⟨haccepts, hnative⟩ := Kind.native_of_read? h
  rw [allows, haccepts, hnative, Bool.true_and]

mutual

/-- The simple types that are written in a type. -/
def TypeRef.simpleTypes : TypeRef → List SimpleType
  | .simple type => [type]
  | .complex type => type.simpleTypes
  | .named _ => []

/-- The simple types that are written in a complex type, for its content and its attributes. -/
def ComplexType.simpleTypes : ComplexType → List SimpleType
  | ⟨_, content, attributes⟩ => content.simpleTypes ++ attributes.map AttributeDecl.type

/-- The same for the content of a complex type. -/
def ContentModel.simpleTypes : ContentModel → List SimpleType
  | .simple base => [base]
  | .sequence particles => Particle.simpleTypes particles

/-- The same for the types of particles. -/
def Particle.simpleTypes : List Particle → List SimpleType
  | [] => []
  | .any _ :: rest => Particle.simpleTypes rest
  | .element ⟨_, type, _⟩ :: rest => type.simpleTypes ++ Particle.simpleTypes rest

end

/-- The simple types in the type of a particle are those of the particles. -/
theorem Particle.simpleTypes_subset {particles : List Particle} {decl : ElementDecl}
    (h : .element decl ∈ particles) : decl.type.simpleTypes ⊆ Particle.simpleTypes particles := by
  induction particles with
  | nil => cases h
  | cons particle rest ih =>
    cases particle with
    | any wildcard =>
      rw [Particle.simpleTypes]
      rcases List.mem_cons.1 h with heq | hrest
      · cases heq
      · exact ih hrest
    | element other =>
      obtain ⟨name, type, occurs⟩ := other
      rw [Particle.simpleTypes]
      rcases List.mem_cons.1 h with heq | hrest
      · cases heq
        exact List.subset_append_left _ _
      · exact List.subset_append_of_subset_right _ (ih hrest)

namespace ComplexType

variable {type : ComplexType}

/-- The type of the text is one of the simple types in a complex type. -/
theorem base_mem_simpleTypes {base : SimpleType} (h : type.content = .simple base) :
    base ∈ type.simpleTypes := by
  obtain ⟨name, content, attributes⟩ := type
  cases h
  exact List.mem_append_left _ List.mem_cons_self

/-- The type of an attribute is one of the simple types in a complex type. -/
theorem attribute_mem_simpleTypes {decl : AttributeDecl} (h : decl ∈ type.attributes) :
    decl.type ∈ type.simpleTypes := by
  obtain ⟨name, content, attributes⟩ := type
  exact List.mem_append_right _ (List.mem_map_of_mem h)

/-- The simple types in the type of a particle are in the complex type. -/
theorem simpleTypes_subset_of_mem {decl : ElementDecl} (h : .element decl ∈ type.particles) :
    decl.type.simpleTypes ⊆ type.simpleTypes := by
  obtain ⟨name, content, attributes⟩ := type
  cases content with
  | simple base => cases h
  | sequence particles =>
    exact List.subset_append_of_subset_left _ (Particle.simpleTypes_subset h)

end ComplexType

namespace Schema

/-- The simple types that are written in a schema, in its type table or below its elements. -/
def simpleTypes (schema : Schema) : List SimpleType :=
  (schema.types.flatMap fun entry => match entry.2 with
    | .simple type => [type]
    | .complex type => type.simpleTypes) ++
    schema.elements.flatMap fun decl => decl.type.simpleTypes

/-- No type of a schema is narrowed by an enumeration. -/
def WithoutEnumerations (schema : Schema) : Prop :=
  ∀ type ∈ schema.simpleTypes, type.enumerations = []

variable {schema : Schema}

/-- The simple types in the type of a top-level element are in the schema. -/
theorem simpleTypes_subset_of_mem_elements {decl : ElementDecl} (h : decl ∈ schema.elements) :
    decl.type.simpleTypes ⊆ schema.simpleTypes := by
  intro type htype
  exact List.mem_append_right _ (List.mem_flatMap.2 ⟨decl, h, htype⟩)

/-- The simple types in a definition are in the schema, also where a reference leads to it. -/
theorem simpleTypes_of_resolve {type : TypeRef} {definition : TypeDefinition}
    (htype : type.simpleTypes ⊆ schema.simpleTypes) (h : schema.resolve type = .ok definition) :
    match definition with
    | .simple simple => simple ∈ schema.simpleTypes
    | .complex complex => complex.simpleTypes ⊆ schema.simpleTypes := by
  cases type with
  | simple simple =>
    cases h
    exact htype List.mem_cons_self
  | complex complex =>
    cases h
    exact htype
  | named name =>
    rw [resolve] at h
    split at h
    · next found hlookup =>
      cases h
      have hentry := mem_of_lookup hlookup
      cases definition with
      | simple simple =>
        exact List.mem_append_left _ (List.mem_flatMap.2 ⟨_, hentry, List.mem_cons_self⟩)
      | complex complex =>
        intro simple hsimple
        exact List.mem_append_left _ (List.mem_flatMap.2 ⟨_, hentry, hsimple⟩)
    · cases h

/-! ## Values and the types declared for them -/

/-- The values of an instance, those of its attributes included, each with the simple type that is
declared for it. -/
inductive HasValue (schema : Schema) : TypeRef → Instance → SimpleType → Datum → Prop
  | scalar {type : TypeRef} {simple : SimpleType} {name : String} {space : Namespace}
      {value : Scalar} (resolved : schema.resolve type = .ok (.simple simple)) :
      HasValue schema type ⟨name, space, .scalar value⟩ simple value.value
  | text {type : TypeRef} {complex : ComplexType} {base : SimpleType} {name : String}
      {space : Namespace} {value : Scalar} {attributes : List (String × Scalar)}
      (resolved : schema.resolve type = .ok (.complex complex))
      (content : complex.content = .simple base) :
      HasValue schema type ⟨name, space, .text value attributes⟩ base value.value
  | ofAttribute {type : TypeRef} {complex : ComplexType} {node : Instance} {decl : AttributeDecl}
      {value : Scalar} (resolved : schema.resolve type = .ok (.complex complex))
      (declared : decl ∈ complex.attributes) (present : (decl.name, value) ∈ node.scalars) :
      HasValue schema type node decl.type value.value
  | inside {type : TypeRef} {complex : ComplexType} {node item : Instance} {decl : ElementDecl}
      {field : Field} {simple : SimpleType} {value : Datum}
      (resolved : schema.resolve type = .ok (.complex complex))
      (declared : .element decl ∈ complex.particles) (present : (decl.name, field) ∈ node.fields)
      (held : item ∈ field.instances) (found : HasValue schema decl.type item simple value) :
      HasValue schema type node simple value

/-- Whether each value of an instance is in all enumerations of the type declared for it. -/
def InEnumerations (schema : Schema) (type : TypeRef) (node : Instance) : Prop :=
  ∀ simple value, HasValue schema type node simple value →
    ∀ enumeration ∈ simple.enumerations, value ∈ enumeration.values

/-- The simple types that are declared for the values of an instance are in the schema. -/
theorem HasValue.mem_simpleTypes {type : TypeRef} {node : Instance} {simple : SimpleType}
    {value : Datum} (h : HasValue schema type node simple value)
    (htype : type.simpleTypes ⊆ schema.simpleTypes) : simple ∈ schema.simpleTypes := by
  induction h with
  | scalar resolved => exact simpleTypes_of_resolve htype resolved
  | text resolved content =>
    exact simpleTypes_of_resolve htype resolved (ComplexType.base_mem_simpleTypes content)
  | ofAttribute resolved declared present =>
    exact simpleTypes_of_resolve htype resolved (ComplexType.attribute_mem_simpleTypes declared)
  | inside resolved declared present held found ih =>
    have hcomplex := simpleTypes_of_resolve htype resolved
    exact ih (List.Subset.trans (ComplexType.simpleTypes_subset_of_mem declared) hcomplex)

section

variable {type : TypeRef} {complex : ComplexType} {name : String} {space : Namespace}
  {attributes : List (String × Scalar)}

/-- Whether declared attributes that are there are in the enumerations of their types. -/
def AttributesInEnumerations (decls : List AttributeDecl) (attributes : List (String × Scalar)) :
    Prop :=
  ∀ decl ∈ decls, ∀ value, (decl.name, value) ∈ attributes →
    decl.type.inEnumerations value.value = true

/-- A node with a scalar alone has this one value. -/
theorem inEnumerations_scalar {simple : SimpleType} {value : Scalar}
    (resolved : schema.resolve type = .ok (.simple simple)) :
    InEnumerations schema type ⟨name, space, .scalar value⟩ ↔
      simple.inEnumerations value.value = true := by
  rw [SimpleType.inEnumerations_iff]
  constructor
  · intro h
    exact h _ _ (.scalar resolved)
  · intro h other datum hvalue
    cases hvalue with
    | scalar found =>
      rw [resolved] at found
      cases found
      exact h
    | ofAttribute found declared present => cases present
    | inside found declared present => cases present

/-- A node with a scalar and attributes has their values. -/
theorem inEnumerations_text {base : SimpleType} {value : Scalar}
    (resolved : schema.resolve type = .ok (.complex complex))
    (content : complex.content = .simple base) :
    InEnumerations schema type ⟨name, space, .text value attributes⟩ ↔
      base.inEnumerations value.value = true ∧
        AttributesInEnumerations complex.attributes attributes := by
  unfold AttributesInEnumerations
  simp only [SimpleType.inEnumerations_iff]
  constructor
  · intro h
    refine ⟨h _ _ (.text resolved content), ?_⟩
    intro decl hdecl scalar hscalar
    exact h _ _ (.ofAttribute resolved hdecl hscalar)
  · rintro ⟨htext, hattributes⟩ other datum hvalue
    cases hvalue with
    | text found foundContent =>
      rw [resolved] at found
      cases found
      rw [content] at foundContent
      cases foundContent
      exact htext
    | ofAttribute found declared present =>
      rw [resolved] at found
      cases found
      exact hattributes _ declared _ present
    | inside found declared present => cases present

/-- A node with fields has the values of its attributes and those of the instances in its fields. -/
theorem inEnumerations_fields {entries : List (String × Field)}
    (resolved : schema.resolve type = .ok (.complex complex)) :
    InEnumerations schema type ⟨name, space, .fields entries attributes⟩ ↔
      (∀ decl, .element decl ∈ complex.particles → ∀ field, (decl.name, field) ∈ entries →
        ∀ item ∈ field.instances, InEnumerations schema decl.type item) ∧
      AttributesInEnumerations complex.attributes attributes := by
  unfold AttributesInEnumerations
  simp only [SimpleType.inEnumerations_iff]
  constructor
  · intro h
    constructor
    · intro decl hdecl field hfield item hitem other datum hvalue
      exact h _ _ (.inside resolved hdecl hfield hitem hvalue)
    · intro decl hdecl scalar hscalar
      exact h _ _ (.ofAttribute resolved hdecl hscalar)
  · rintro ⟨hfields, hattributes⟩ other datum hvalue
    cases hvalue with
    | ofAttribute found declared present =>
      rw [resolved] at found
      cases found
      exact hattributes _ declared _ present
    | inside found declared present held below =>
      rw [resolved] at found
      cases found
      exact hfields _ declared _ present _ held _ _ below

end

/-! ## What is read conforms up to enumerations -/

/-- What reading finds for a declared attribute. -/
theorem AttributesRead.lookup {attributes : Xml.Attributes} {decls : List AttributeDecl}
    {scalars : List (String × Scalar)} (h : AttributesRead attributes decls scalars)
    (hdistinct : (decls.map AttributeDecl.name).Nodup) {decl : AttributeDecl}
    (hdecl : decl ∈ decls) :
    attributes.valueOf? decl.name = none ∧ scalars.lookup decl.name = none ∧
        decl.required = false ∨
      ∃ text scalar, attributes.valueOf? decl.name = some text ∧
        scalars.lookup decl.name = some scalar ∧ scalar.kind = decl.type.kind ∧
        decl.type.kind.read? text = some scalar.value := by
  induction h with
  | done => cases hdecl
  | @absent first rest scalars missing optional others ih =>
    have hkeys := List.nodup_cons.1 hdistinct
    rcases List.mem_cons.1 hdecl with rfl | hrest
    · refine Or.inl ⟨missing, lookup_eq_none_of_not_mem ?_, optional⟩
      intro hmem
      exact hkeys.1 (others.shaped.keys_sublist.subset hmem)
    · exact ih hkeys.2 hrest
  | @present first rest text scalar scalars found kind read others ih =>
    have hkeys := List.nodup_cons.1 hdistinct
    rcases List.mem_cons.1 hdecl with rfl | hrest
    · exact Or.inr ⟨text, scalar, found, List.lookup_cons_self, kind, read⟩
    · rw [lookup_cons_of_ne (ne_of_nodup_cons hdistinct hrest)]
      exact ih hkeys.2 hrest

/-- Attributes that are read fit their declarations if and only if they are in the enumerations of
their types. -/
theorem attributesConform_iff {attributes : Xml.Attributes} {decls : List AttributeDecl}
    {scalars : List (String × Scalar)} (h : AttributesRead attributes decls scalars)
    (hdistinct : (decls.map AttributeDecl.name).Nodup) :
    attributesConform decls scalars = true ↔ AttributesInEnumerations decls scalars := by
  have hscalars := h.shaped.keys_sublist.nodup hdistinct
  rw [attributesConform, List.all_eq_true]
  refine forall_congr' fun decl => forall_congr' fun hdecl => ?_
  rcases h.lookup hdistinct hdecl with
    ⟨_, hnone, hoptional⟩ | ⟨text, scalar, _, hfound, _, hread⟩
  · rw [hnone]
    refine ⟨fun _ value hvalue => ?_, fun _ => ?_⟩
    · rw [lookup_of_mem hscalars hvalue] at hnone
      cases hnone
    · simp [AttributeDecl.allows, hoptional]
  · rw [hfound, Option.map_some, AttributeDecl.allows, SimpleType.allows_of_read? hread]
    constructor
    · intro hin value hvalue
      rw [lookup_of_mem hscalars hvalue] at hfound
      cases hfound
      exact hin
    · intro hin
      exact hin scalar (mem_of_lookup hfound)

/-- A field has as many occurrences as children are read as it. -/
theorem FieldRead.count {taken : List Child} {particle : Particle} {field : Field}
    (h : FieldRead taken particle field) : field.count = taken.length := by
  cases h with
  | any => exact List.length_map _
  | one single read => rfl
  | many repeated read => exact read.length_eq.symm

/-- The fields that are read are as many as their particles ask for. -/
theorem FieldsRead.counted {particles : List Particle} {children : List Child}
    {entries : List (String × Field)} (h : FieldsRead schema particles children entries)
    (hdistinct : (particles.map Particle.key).Nodup) : Counted particles entries := by
  induction h with
  | done => exact fun particle hparticle => nomatch hparticle
  | @absent particle later children entries enough run rest ih =>
    have hkeys := List.nodup_cons.1 hdistinct
    refine List.forall_mem_cons.2 ⟨?_, ih hkeys.2⟩
    have hshaped : FieldsShaped (fun _ _ => True) later entries :=
      fieldsShaped_of_fieldsRead rest fun _ _ _ _ _ _ => trivial
    have hmissing : entries.lookup particle.key = none :=
      lookup_eq_none_of_not_mem fun hmem => hkeys.1 (hshaped.keys_sublist.subset hmem)
    rw [hmissing]
    exact Occurs.contains_iff.2 (run.allows enough)
  | @present particle later taken left field entries nonempty enough run read rest ih =>
    have hkeys := List.nodup_cons.1 hdistinct
    refine List.forall_mem_cons.2 ⟨?_, ?_⟩
    · rw [List.lookup_cons_self]
      show particle.occurs.contains field.count = true
      rw [(fieldRead_of_decodeField read nonempty run.room).count]
      exact Occurs.contains_iff.2 (run.allows enough)
    · intro other hother
      rw [lookup_cons_of_ne (ne_of_nodup_cons hdistinct hother)]
      exact ih hkeys.2 other hother

/-- Nodes are elements of a declaration if and only if each of them is. -/
theorem allConform_iff {decl : ElementDecl} {items : List Instance} :
    allConform schema items decl = true ↔
      ∀ item ∈ items, schema.isDeclared decl item = true ∧
        conforms schema item decl.type = true := by
  induction items with
  | nil => simp [allConform]
  | cons item rest ih =>
    rw [allConform, Bool.and_eq_true, Bool.and_eq_true, ih, List.forall_mem_cons]

/-- Fields conform if each has the key of a particle and its form. -/
theorem fieldsConform_of_forall {particles : List Particle} {entries : List (String × Field)}
    (h : ∀ key field, (key, field) ∈ entries → ∃ particle,
      particles.find? (fun other => other.key == key) = some particle ∧
        fieldConforms schema field particle = true) :
    fieldsConform schema particles entries = true := by
  induction entries with
  | nil => rfl
  | cons entry rest ih =>
    obtain ⟨key, field⟩ := entry
    obtain ⟨particle, hfind, hconforms⟩ := h key field List.mem_cons_self
    rw [fieldsConform, hfind, Bool.and_eq_true]
    exact ⟨hconforms, ih fun key field hmem => h key field (List.mem_cons_of_mem _ hmem)⟩

/-- Fields of elements that bear the names of their declarations conform if these elements do. -/
theorem fieldsConform_iff {particles : List Particle} {entries : List (String × Field)}
    (h : FieldsShaped (fun decl item => schema.isDeclared decl item = true) particles entries)
    (hdistinct : (particles.map Particle.key).Nodup) :
    fieldsConform schema particles entries = true ↔
      ∀ decl, .element decl ∈ particles → ∀ field, (decl.name, field) ∈ entries →
        ∀ item ∈ field.instances, conforms schema item decl.type = true := by
  constructor
  · intro hconform decl hdecl field hfield item hitem
    have hfits := fieldConforms_of_mem hconform hfield (find?_key_of_mem hdistinct hdecl)
    cases field with
    | one single =>
      rw [fieldConforms, Bool.and_eq_true] at hfits
      obtain rfl := List.mem_singleton.1 hitem
      exact hfits.2
    | many items =>
      rw [fieldConforms, allConform_iff] at hfits
      exact (hfits item hitem).2
    | any elements => cases hitem
  · intro hitems
    apply fieldsConform_of_forall
    intro key field hfield
    obtain ⟨particle, hparticle, rfl, hshaped⟩ := h.particle_of_mem hfield
    refine ⟨particle, find?_key_of_mem hdistinct hparticle, ?_⟩
    cases hshaped with
    | @one decl item single declared =>
      rw [fieldConforms, declared, hitems decl hparticle _ hfield item List.mem_cons_self]
      rfl
    | @many decl items repeated nonempty declared =>
      rw [fieldConforms, allConform_iff]
      intro item hitem
      exact ⟨declared item hitem, hitems decl hparticle _ hfield item hitem⟩
    | any nonempty => rfl

/-- What is read under a declaration has its name. -/
theorem isDeclared_of_decode {element : Xml.Element} {decl : ElementDecl} {node : Instance}
    (h : schema.decode element decl.name decl.type = .ok node) :
    schema.isDeclared decl node = true := by
  cases decode_eq_ok.1 h with
  | scalar => simp [isDeclared, Instance.name, Instance.space]
  | text => simp [isDeclared, Instance.name, Instance.space]
  | fields => simp [isDeclared, Instance.name, Instance.space]

/-- What is read has a form that its type allows if and only if its values are in the enumerations
of their types. -/
theorem conforms_iff_inEnumerations (hassembled : schema.Assembled) (element : Xml.Element) :
    ∀ {localName : String} {type : TypeRef} {node : Instance},
      type.all schema.declares (fun type => type.checkParts.isOk) = true →
        schema.decode element localName type = .ok node →
          (conforms schema node type = true ↔ schema.InEnumerations type node) := by
  induction element using Xml.Element.induct with
  | step element ih =>
    intro localName type node htype h
    cases decode_eq_ok.1 h with
    | @scalar simple value resolved childless kind read =>
      rw [conforms_scalar resolved, inEnumerations_scalar resolved, SimpleType.allows_of_read? read]
    | @text complex base value attributes resolved content childless kind read scalars =>
      have hregular := regular_of_all (all_of_resolve hassembled.allTypes htype resolved)
      rw [conforms_text resolved content, inEnumerations_text resolved content, Bool.and_eq_true,
        SimpleType.allows_of_read? read, attributesConform_iff scalars hregular.names_distinct]
    | @fields complex particles entries attributes resolved content parts scalars =>
      have hall := all_of_resolve hassembled.allTypes htype resolved
      have hregular := regular_of_all hall
      have hparticles := ComplexType.particles_of_sequence content
      have hdistinct := hregular.keys_distinct
      rw [hparticles] at hdistinct
      have hshaped : FieldsShaped (fun decl item => schema.isDeclared decl item = true ∧
          (conforms schema item decl.type = true ↔ schema.InEnumerations decl.type item))
          particles entries := by
        refine fieldsShaped_of_fieldsRead parts ?_
        intro child hchild decl hdecl item hread
        obtain ⟨other, hother, rfl⟩ := List.mem_map.1 hchild
        rw [← hparticles] at hdecl
        exact ⟨isDeclared_of_decode hread,
          ih other hother (ComplexType.all_of_mem hall hdecl) hread⟩
      have hcounts : countsConform particles entries = true :=
        List.all_eq_true.2 (parts.counted hdistinct)
      rw [conforms_fields resolved content, inEnumerations_fields resolved, hcounts, hparticles,
        Bool.and_true, Bool.and_eq_true, attributesConform_iff scalars hregular.names_distinct,
        fieldsConform_iff (hshaped.mono fun _ _ _ h => h.1) hdistinct]
      refine and_congr_left fun _ => ?_
      have hiff : ∀ decl, .element decl ∈ particles → ∀ field, (decl.name, field) ∈ entries →
          ∀ item ∈ field.instances,
            (conforms schema item decl.type = true ↔ schema.InEnumerations decl.type item) :=
        fun decl hdecl field hfield item hitem =>
          ((hshaped.fieldShaped_of_mem hdistinct hdecl hfield).good_of_mem hitem).2
      constructor
      · intro hconforms decl hdecl field hfield item hitem
        exact (hiff decl hdecl field hfield item hitem).1
          (hconforms decl hdecl field hfield item hitem)
      · intro hin decl hdecl field hfield item hitem
        exact (hiff decl hdecl field hfield item hitem).2 (hin decl hdecl field hfield item hitem)

/-! ## Validity of what is read -/

/-- What a valid instance is: in the target namespace, not too deep, and of a form that the type of
the top-level element of its name allows. -/
theorem isValid_eq_true_iff {node : Instance} :
    schema.isValid node = true ↔
      node.space.uri = schema.target.uri ∧ node.depth ≤ schema.limits.depth ∧
        ∃ decl, schema.element? node.name = some decl ∧
          conforms schema node decl.type = true := by
  rw [isValid, Bool.and_eq_true, Bool.and_eq_true, beq_iff_eq, decide_eq_true_eq, and_assoc]
  cases schema.element? node.name with
  | none => simp
  | some decl => simp

/-- What is read at the root is valid if and only if its values are in the enumerations of their
types. -/
theorem isValid_iff_of_decodeElement (hassembled : schema.Assembled) {element : Xml.Element}
    {node : Instance} (h : schema.decodeElement element = .ok node) :
    ∃ decl, schema.element? node.name = some decl ∧
      (schema.isValid node = true ↔ schema.InEnumerations decl.type node) := by
  obtain ⟨hdepth, decl, hroot, hread⟩ := decodeElement_eq_ok.1 h
  obtain ⟨_, hdecl⟩ := rootDecl?_eq_some.1 hroot
  obtain ⟨hmem, hname⟩ := mem_of_element? hdecl
  have hdeclared := isDeclared_of_decode hread
  rw [isDeclared, Bool.and_eq_true, beq_iff_eq, beq_iff_eq] at hdeclared
  have hfound : schema.element? node.name = some decl := by
    rw [hdeclared.1, hname]
    exact hdecl
  have hreach : node.depth ≤ schema.limits.depth := by
    have hheight := height_le_of_decode element hread
    rw [Xml.Element.depth_eq_height] at hdepth
    rw [Instance.depth_eq_height]
    omega
  have htype := all_of_mem_elements hassembled.allTypes hmem
  refine ⟨decl, hfound, ?_⟩
  rw [← conforms_iff_inEnumerations hassembled element htype hread, isValid_eq_true_iff, hfound]
  constructor
  · rintro ⟨_, _, _, ⟨⟩, hconforms⟩
    exact hconforms
  · intro hconforms
    exact ⟨hdeclared.2, hreach, decl, rfl, hconforms⟩

/-- Where no type has an enumeration, no value is outside of one. -/
theorem WithoutEnumerations.inEnumerations (h : schema.WithoutEnumerations) {type : TypeRef}
    (htype : type.simpleTypes ⊆ schema.simpleTypes) (node : Instance) :
    schema.InEnumerations type node := by
  intro simple value hvalue enumeration hmem
  rw [h simple (hvalue.mem_simpleTypes htype)] at hmem
  cases hmem

/-- Where no type has an enumeration, whatever is read is valid. -/
theorem WithoutEnumerations.isValid (h : schema.WithoutEnumerations)
    (hassembled : schema.Assembled) {element : Xml.Element} {node : Instance}
    (hread : schema.decodeElement element = .ok node) : schema.isValid node = true := by
  obtain ⟨decl, hdecl, hvalid⟩ := isValid_iff_of_decodeElement hassembled hread
  have htype := simpleTypes_subset_of_mem_elements (mem_of_element? hdecl).1
  exact hvalid.2 (h.inEnumerations htype node)

end Schema

/-- Envelopes have no enumerations. -/
theorem Soap.schema_withoutEnumerations : Soap.schema.WithoutEnumerations := by
  have hkinds : Soap.schema.simpleTypes = List.replicate 4 (.ofKind .string) := rfl
  intro type htype
  rw [hkinds] at htype
  rw [List.eq_of_mem_replicate htype]
  rfl

/-- Whatever is read as an envelope or a fault is valid. -/
theorem Soap.isValid_of_parse {text : String} {node : Instance} (h : Soap.parse text = .ok node) :
    Soap.schema.isValid node = true := by
  obtain ⟨root, _, hread⟩ := bind_eq_ok.1 h
  exact schema_withoutEnumerations.isValid schema_assembled hread

/-- The command that checks a document finds every document valid that it can read. -/
theorem CommandLine.run_validate {contents : Except FileFault Octets} {file text : String}
    {node : Instance} (htext : fileText contents = .ok text) (hparse : Soap.parse text = .ok node) :
    (Command.validate file).run contents = .success "✓ Document is valid\n" := by
  unfold Command.run onDocument
  rw [htext]
  simp only [hparse, validity, Soap.isValid_of_parse hparse, if_true]

namespace Schema

/-- Reading checks all that validity asks for but enumerations: what is read from an element of an
assembled schema is valid if and only if each of its values is in all enumerations of the type that
is declared for it, so that without enumerations all that is read is valid; and a document that the
command for checking documents can read is never found invalid. -/
theorem isValid_iff_inEnumerations :
    (∀ schema : Schema, schema.Assembled → ∀ element node,
      schema.decodeElement element = .ok node →
        (∃ decl, schema.element? node.name = some decl ∧
          (schema.isValid node = true ↔ schema.InEnumerations decl.type node)) ∧
        (schema.WithoutEnumerations → schema.isValid node = true)) ∧
    ∀ contents text node, CommandLine.fileText contents = .ok text →
      Soap.parse text = .ok node → ∀ file,
        (CommandLine.Command.validate file).run contents =
          .success "✓ Document is valid\n" := by
  constructor
  · intro schema hassembled element node hread
    exact ⟨isValid_iff_of_decodeElement hassembled hread,
      fun hnone => hnone.isValid hassembled hread⟩
  · intro contents text node htext hparse file
    exact CommandLine.run_validate htext hparse

/-- The names of two colours. -/
def colorType : SimpleType :=
  .restriction (.ofKind .string) ⟨[("red", .text "red"), ("green", .text "green")]⟩ none

/-- A shelf for one of two sizes, which holds colours and then anything. -/
def shelfDecl : ElementDecl :=
  ⟨"shelf", .complex ⟨none, .sequence [.element ⟨"color", .simple colorType, .oneOrMore⟩,
    .any ⟨"rest", .zeroOrMore⟩],
    [⟨"size", .restriction (.ofKind .int) ⟨[("1", .int 1), ("2", .int 2)]⟩ none, false⟩]⟩, .once⟩

/-- The schema of shelves. -/
def shelves : Schema :=
  ⟨⟨"urn:shelves", "s"⟩, [], [shelfDecl], {}⟩

/-- The schema of shelves is what defining the shelf gives. -/
theorem define_shelves : define ⟨"urn:shelves", "s"⟩ [.element shelfDecl] = .ok shelves := rfl

/-- A shelf with a red thing, one of another colour, and something else. -/
def shelfElement (color : String) : Xml.Element :=
  let colored := fun color => ⟨shelves.target.qualify "color", none, .empty, some color, []⟩
  ⟨shelves.target.qualify "shelf", none, .ofPairs [(.unqualified "size", " 02")], none,
    [colored "red", colored color, ⟨⟨none, "box"⟩, none, .empty, none, []⟩]⟩

/-- What is read from it. -/
def shelf (color : String) : Instance :=
  let colored := fun color =>
    ⟨"color", shelves.target, .scalar (.ofDatum .string (.text color))⟩
  ⟨"shelf", shelves.target, .fields [("color", .many [colored "red", colored color]),
    ("rest", .any [⟨⟨none, "box"⟩, none, .empty, none, []⟩])] [("size", .ofDatum .int (.int 2))]⟩

/-- The shelf is what its element is read as. -/
theorem decodeElement_shelfElement (color : String) :
    shelves.decodeElement (shelfElement color) = .ok (shelf color) := by
  refine decodeElement_eq_ok.2 ⟨?_, shelfDecl, rfl, rfl⟩
  rw [Xml.Element.depth_eq_height]
  exact Nat.le_of_ble_eq_true rfl

/-- The colour is a value of the shelf, with the type of colours. -/
theorem hasValue_shelf (color : String) :
    HasValue shelves shelfDecl.type (shelf color) colorType (.text color) :=
  .inside rfl List.mem_cons_self List.mem_cons_self (List.mem_cons_of_mem _ List.mem_cons_self)
    (.scalar rfl)

/-- The shelf with a green thing has listed values only. -/
theorem inEnumerations_shelf_green :
    InEnumerations shelves shelfDecl.type (shelf "green") := by
  refine (inEnumerations_fields rfl).2 ⟨?_, ?_⟩
  · intro decl hdecl field hfield item hitem
    obtain rfl : decl = ⟨"color", .simple colorType, .oneOrMore⟩ := by
      rcases List.mem_cons.1 hdecl with hdecl | hrest
      · exact Particle.element.inj hdecl
      · cases List.mem_singleton.1 hrest
    rcases List.mem_cons.1 hfield with hfield | hrest
    · cases hfield
      rcases List.mem_cons.1 hitem with rfl | hlast
      · exact (inEnumerations_scalar rfl).2 (by decide)
      · rw [List.mem_singleton.1 hlast]
        exact (inEnumerations_scalar rfl).2 (by decide)
    · have hkey : "color" = "rest" := (Prod.mk.inj (List.mem_singleton.1 hrest)).1
      exact absurd hkey (by decide)
  · refine List.forall_mem_singleton.2 ?_
    intro value hvalue
    rw [(Prod.mk.inj (List.mem_singleton.1 hvalue)).2]
    decide

/-- A shelf with two colours that are listed is valid and one with another colour is not, although
both are read; and a document with an envelope is found valid. -/
theorem isValid_shelf :
    (shelves.decodeElement (shelfElement "green") = .ok (shelf "green") ∧
      shelves.isValid (shelf "green") = true) ∧
    (shelves.decodeElement (shelfElement "blue") = .ok (shelf "blue") ∧
      shelves.isValid (shelf "blue") = false) ∧
    let text := "<Envelope xmlns=\"http://schemas.xmlsoap.org/soap/envelope/\"/>"
    (CommandLine.Command.validate "envelope.xml").run (.ok (Text.toOctets text)) =
      .success "✓ Document is valid\n" := by
  have hassembled := assembled_of_define define_shelves
  refine ⟨⟨decodeElement_shelfElement _, ?_⟩, ⟨decodeElement_shelfElement _, ?_⟩, ?_⟩
  · obtain ⟨⟨decl, hdecl, hvalid⟩, _⟩ := isValid_iff_inEnumerations.1 shelves hassembled _ _
      (decodeElement_shelfElement "green")
    cases hdecl
    exact hvalid.2 inEnumerations_shelf_green
  · obtain ⟨⟨decl, hdecl, hvalid⟩, _⟩ := isValid_iff_inEnumerations.1 shelves hassembled _ _
      (decodeElement_shelfElement "blue")
    cases hdecl
    rw [Bool.eq_false_iff, Ne, hvalid]
    intro hin
    exact absurd (hin _ _ (hasValue_shelf "blue") _ List.mem_cons_self) (by decide)
  · intro text
    have htext : CommandLine.fileText (.ok (Text.toOctets text)) = .ok text := by
      have hoctets : Text.ofOctets? (Text.toOctets text) = some text := by decide +kernel
      simp only [CommandLine.fileText, hoctets]
    have hread : (Soap.parse text).isOk = true := by decide +kernel
    cases hparse : Soap.parse text with
    | error error =>
      rw [hparse] at hread
      cases hread
    | ok node => exact isValid_iff_inEnumerations.2 _ text node htext hparse _

end Schema

end TypedXml
