import TypedXml.Instance.Construction
import TypedXml.Instance.Validity
import TypedXml.Proofs.Entries
import TypedXml.Proofs.Instance.Reading
import TypedXml.Proofs.Xml.Tree

/-!
# Schemas that cannot be told apart

What a schema makes of a value, an instance or an element depends on its types only through what
they resolve to.  A relation of types is a bisimulation of two schemas if related types resolve to
definitions of one form, with the same attributes and particles, whose particles have related types
again.  Types may be recursive, so the relation is not unfolded: each of the three walks follows it
one level for each level of its own, and finds the same.
-/

set_option autoImplicit false

namespace TypedXml

/-! ## Definitions that differ in related types -/

/-- Whether two declarations have the same name and range, and related types. -/
inductive ElementDecl.Alike (rel : TypeRef → TypeRef → Prop) : ElementDecl → ElementDecl → Prop
  | mk {name : String} {type twin : TypeRef} {occurs : Occurs} (related : rel type twin) :
      Alike rel ⟨name, type, occurs⟩ ⟨name, twin, occurs⟩

/-- Whether two particles are declarations that are alike, or the same wildcard. -/
inductive Particle.Alike (rel : TypeRef → TypeRef → Prop) : Particle → Particle → Prop
  | element {decl twin : ElementDecl} (decls : decl.Alike rel twin) :
      Alike rel (.element decl) (.element twin)
  | any {wildcard : Wildcard} : Alike rel (.any wildcard) (.any wildcard)

/-- Whether two contents are the same text or sequences whose particles are alike one by one. -/
inductive ContentModel.Alike (rel : TypeRef → TypeRef → Prop) :
    ContentModel → ContentModel → Prop
  | simple {base : SimpleType} : Alike rel (.simple base) (.simple base)
  | sequence {particles twins : List Particle}
      (parts : List.Forall₂ (Particle.Alike rel) particles twins) :
      Alike rel (.sequence particles) (.sequence twins)

/-- Whether two complex types differ at most in related types of their particles and in their names,
which play no role. -/
inductive ComplexType.Alike (rel : TypeRef → TypeRef → Prop) : ComplexType → ComplexType → Prop
  | mk {name twinName : Option String} {content twin : ContentModel}
      {attributes : List AttributeDecl} (contents : content.Alike rel twin) :
      Alike rel ⟨name, content, attributes⟩ ⟨twinName, twin, attributes⟩

/-- Whether two definitions are the same simple type or complex types that are alike. -/
inductive TypeDefinition.Alike (rel : TypeRef → TypeRef → Prop) :
    TypeDefinition → TypeDefinition → Prop
  | simple {type : SimpleType} : Alike rel (.simple type) (.simple type)
  | complex {type twin : ComplexType} (types : type.Alike rel twin) :
      Alike rel (.complex type) (.complex twin)

/-- A bisimulation of two schemas: related types resolve alike. -/
structure Schema.Bisimilar (rel : TypeRef → TypeRef → Prop) (schema other : Schema) : Prop where
  target : other.target = schema.target
  limits : other.limits = schema.limits
  resolves : ∀ type twin, rel type twin →
    (∃ cause, schema.resolve type = .error cause ∧ other.resolve twin = .error cause) ∨
      ∃ definition copy, schema.resolve type = .ok definition ∧ other.resolve twin = .ok copy ∧
        definition.Alike rel copy

section

variable {rel : TypeRef → TypeRef → Prop}

/-- Particles that are alike have the same key. -/
theorem Particle.Alike.key_eq {particle twin : Particle} (h : particle.Alike rel twin) :
    twin.key = particle.key := by
  rcases h with ⟨⟨_⟩⟩ | _
  · rfl
  · rfl

/-- Particles that are alike have the same range. -/
theorem Particle.Alike.occurs_eq {particle twin : Particle} (h : particle.Alike rel twin) :
    twin.occurs = particle.occurs := by
  rcases h with ⟨⟨_⟩⟩ | _
  · rfl
  · rfl

/-- Particles that are alike one by one have the same keys. -/
theorem keys_eq_of_alike {particles twins : List Particle}
    (h : List.Forall₂ (Particle.Alike rel) particles twins) :
    twins.map Particle.key = particles.map Particle.key :=
  map_eq_of_forall₂ h fun _ _ halike => halike.key_eq

namespace ComplexType.Alike

variable {type twin : ComplexType}

/-- Types that are alike have particles that are alike one by one. -/
theorem particles (h : type.Alike rel twin) :
    List.Forall₂ (Particle.Alike rel) type.particles twin.particles := by
  rcases h with ⟨_ | parts⟩
  · exact .nil
  · exact parts

/-- Types that are alike have the same attributes. -/
theorem attributes_eq (h : type.Alike rel twin) : twin.attributes = type.attributes := by
  cases h with
  | mk => rfl

/-- Types that are alike have the same keys for their content. -/
theorem contentKeys_eq (h : type.Alike rel twin) : twin.contentKeys = type.contentKeys := by
  rcases h with ⟨_ | parts⟩
  · rfl
  · exact keys_eq_of_alike parts

/-- Types that are alike have the same keys. -/
theorem keys_eq (h : type.Alike rel twin) : twin.keys = type.keys := by
  unfold ComplexType.keys
  rw [h.contentKeys_eq, h.attributes_eq]

end ComplexType.Alike

end

/-! ## Construction -/

namespace Construction

/-- Whether two ways to build instances give the same for declarations with related types. -/
def PlaceAlike (rel : TypeRef → TypeRef → Prop) (place twinPlace : Placing) : Prop :=
  ∀ decl twin, ElementDecl.Alike rel decl twin → ∀ value, twinPlace twin value = place decl value

variable {rel : TypeRef → TypeRef → Prop} {place twinPlace : Placing} {limits : Limits}
  {depth : Nat} {name : String} {value : Value}

/-- Declarations that are alike make the same field of a value. -/
theorem declared_eq (hplace : PlaceAlike rel place twinPlace) {decl twin : ElementDecl}
    (h : decl.Alike rel twin) : declared twinPlace twin value = declared place decl value := by
  have hsame : twinPlace twin = place decl := funext (hplace decl twin h)
  cases h with
  | mk related =>
    unfold declared
    rw [hsame]
    rfl

/-- Particles that are alike make the same fields of a mapping. -/
theorem fields_eq (hplace : PlaceAlike rel place twinPlace) {particles twins : List Particle}
    (h : List.Forall₂ (Particle.Alike rel) particles twins) (entries : List (String × Value)) :
    fields twinPlace limits depth entries twins = fields place limits depth entries particles := by
  induction h with
  | nil => rfl
  | @cons particle twin particles twins hfirst _ ih =>
    have hfield : ∀ value, field twinPlace limits depth value twin =
        field place limits depth value particle := by
      intro value
      cases hfirst with
      | element decls => exact declared_eq hplace decls
      | any => rfl
    unfold fields
    rw [hfirst.key_eq, ih]
    simp only [hfield]

/-- Types that are alike make the same sequence of a value. -/
theorem sequence_eq (hplace : PlaceAlike rel place twinPlace) {type twin : ComplexType}
    (htypes : type.Alike rel twin) {particles twins : List Particle}
    (h : List.Forall₂ (Particle.Alike rel) particles twins) :
    sequence twinPlace limits depth name twin twins value =
      sequence place limits depth name type particles value := by
  have hentries : ∀ entries, sequenceOfEntries twinPlace limits depth name twin twins entries =
      sequenceOfEntries place limits depth name type particles entries := by
    intro entries
    unfold sequenceOfEntries
    rw [fields_eq hplace h, htypes.keys_eq, htypes.attributes_eq]
  unfold sequence
  simp only [hentries, htypes.keys_eq]

/-- What a node holds depends on the definition only up to related types. -/
theorem content_eq (hplace : PlaceAlike rel place twinPlace) {definition copy : TypeDefinition}
    (h : definition.Alike rel copy) :
    content twinPlace limits depth name value copy =
      content place limits depth name value definition := by
  rcases h with _ | ⟨_ | parts⟩
  · rfl
  · rfl
  · exact sequence_eq hplace (.mk (.sequence parts)) parts

/-- Definitions that are alike make the same node of a value. -/
theorem node_eq (hplace : PlaceAlike rel place twinPlace) {target : Namespace}
    {definition copy : TypeDefinition} (h : definition.Alike rel copy) :
    node twinPlace target limits depth name copy value =
      node place target limits depth name definition value := by
  unfold node
  simp only [content_eq hplace h]

end Construction

namespace Schema

variable {rel : TypeRef → TypeRef → Prop} {schema other : Schema}

/-- Construction takes the same way through both schemas. -/
theorem Bisimilar.place_eq (h : Bisimilar rel schema other) {levels depth : Nat} :
    Construction.PlaceAlike rel (schema.place levels depth) (other.place levels depth) := by
  induction levels generalizing depth with
  | zero =>
    intro decl twin _ value
    unfold place
    rw [h.limits]
  | succ levels ih =>
    rintro _ _ (@⟨name, type, twin, occurs, related⟩) value
    unfold place
    rw [h.target, h.limits]
    show (other.resolve twin >>= _) = (schema.resolve type >>= _)
    rcases h.resolves type twin related with
      ⟨cause, hleft, hright⟩ | ⟨definition, copy, hleft, hright, halike⟩
    · rw [hleft, hright]
      rfl
    · rw [bind_of_eq_ok hleft, bind_of_eq_ok hright, Construction.node_eq ih halike]
      rfl

/-! ## Validity -/

/-- Particles that are alike allow the same counts. -/
theorem countsConform_eq {particles twins : List Particle}
    (h : List.Forall₂ (Particle.Alike rel) particles twins) (entries : List (String × Field)) :
    countsConform twins entries = countsConform particles entries := by
  induction h with
  | nil => rfl
  | cons hfirst _ ih =>
    unfold countsConform at ih ⊢
    rw [List.all_cons, List.all_cons, ih, hfirst.key_eq, hfirst.occurs_eq]

/-- Looking up a key finds particles that are alike, or none in both. -/
theorem find?_alike {particles twins : List Particle}
    (h : List.Forall₂ (Particle.Alike rel) particles twins) (key : String) :
    Option.Rel (Particle.Alike rel) (particles.find? fun particle => particle.key == key)
      (twins.find? fun particle => particle.key == key) :=
  find?_forall₂ h fun particle twin hparticle => by rw [hparticle.key_eq]

mutual

/-- A node has a form that a type allows in one schema if and only if it has one that a related
type allows in the other. -/
theorem Bisimilar.conforms_eq (h : Bisimilar rel schema other) : (node : Instance) →
    ∀ {type twin : TypeRef}, rel type twin →
      conforms other node twin = conforms schema node type
  | ⟨_, _, content⟩, type, twin, hrel => by
    unfold conforms
    rcases h.resolves type twin hrel with
      ⟨cause, hleft, hright⟩ | ⟨definition, copy, hleft, hright, halike⟩
    · rw [hleft, hright]
    · rw [hleft, hright]
      exact h.contentConforms_eq content halike

/-- A content has a form that a definition allows if and only if a definition that is alike allows
it. -/
theorem Bisimilar.contentConforms_eq (h : Bisimilar rel schema other) : (content : Content) →
    ∀ {definition copy : TypeDefinition}, definition.Alike rel copy →
      contentConforms other content copy = contentConforms schema content definition
  | .scalar value, _, _, .simple => rfl
  | .scalar value, _, _, .complex (.mk _) => rfl
  | .text value attributes, _, _, .simple => rfl
  | .text value attributes, _, _, .complex (.mk .simple) => rfl
  | .text value attributes, _, _, .complex (.mk (.sequence _)) => rfl
  | .fields entries attributes, _, _, .simple => rfl
  | .fields entries attributes, _, _, .complex (.mk .simple) => rfl
  | .fields entries attributes, _, _, .complex (.mk (.sequence parts)) => by
    unfold contentConforms
    simp only [ComplexType.content, ComplexType.attributes]
    rw [h.fieldsConform_eq entries parts, countsConform_eq parts]

/-- Fields have the keys and forms of particles if and only if they have those of particles that are
alike. -/
theorem Bisimilar.fieldsConform_eq (h : Bisimilar rel schema other) :
    (entries : List (String × Field)) → ∀ {particles twins : List Particle},
      List.Forall₂ (Particle.Alike rel) particles twins →
        fieldsConform other twins entries = fieldsConform schema particles entries
  | [], _, _, _ => rfl
  | (key, field) :: rest, particles, twins, parts => by
    have hfound := find?_alike parts key
    unfold fieldsConform
    rw [h.fieldsConform_eq rest parts]
    congr 1
    generalize particles.find? (fun particle => particle.key == key) = found,
      twins.find? (fun particle => particle.key == key) = twin at hfound
    cases hfound with
    | some hparticle => exact h.fieldConforms_eq field hparticle
    | none => rfl

/-- A field has the form of a particle if and only if it has that of a particle that is alike. -/
theorem Bisimilar.fieldConforms_eq (h : Bisimilar rel schema other) : (field : Field) →
    ∀ {particle twin : Particle}, particle.Alike rel twin →
      fieldConforms other field twin = fieldConforms schema field particle
  | .any _, _, _, .any => rfl
  | .any _, _, _, .element _ => rfl
  | .one item, _, _, .any => rfl
  | .one item, _, _, .element (.mk related) => by
    unfold fieldConforms isDeclared
    rw [h.target]
    exact congrArg _ (h.conforms_eq item related)
  | .many items, _, _, .any => rfl
  | .many items, _, _, .element decls => h.allConform_eq items decls

/-- Nodes are elements of a declaration if and only if they are elements of one that is alike. -/
theorem Bisimilar.allConform_eq (h : Bisimilar rel schema other) : (items : List Instance) →
    ∀ {decl twin : ElementDecl}, decl.Alike rel twin →
      allConform other items twin = allConform schema items decl
  | [], _, _, _ => rfl
  | item :: rest, _, _, .mk related => by
    unfold allConform isDeclared
    rw [h.target, h.allConform_eq rest (.mk related)]
    exact congrArg (fun conforms => _ && conforms && _) (h.conforms_eq item related)

end

/-! ## Reading -/

/-- Whether two children are of one element, which is read alike under declarations with related
types. -/
structure ChildAlike (rel : TypeRef → TypeRef → Prop) (child twin : Child) : Prop where
  element : twin.element = child.element
  decode : ∀ decl twinDecl, ElementDecl.Alike rel decl twinDecl →
    twin.decode twinDecl = child.decode decl

/-- Sequences that are alike declare the same names. -/
theorem anyNamed_eq {later twinLater : List Particle}
    (h : List.Forall₂ (Particle.Alike rel) later twinLater) (p : String → Bool) :
    ((twinLater.filterMap Particle.decl?).any fun decl => p decl.name) =
      (later.filterMap Particle.decl?).any fun decl => p decl.name := by
  induction h with
  | nil => rfl
  | cons hfirst _ ih =>
    rcases hfirst with ⟨⟨_⟩⟩ | _
    · simp only [List.filterMap_cons, Particle.decl?, List.any_cons, ih]
      rfl
    · simp only [List.filterMap_cons, Particle.decl?, ih]

/-- An element fits a particle if and only if it fits one that is alike. -/
theorem Bisimilar.fits_eq (h : Bisimilar rel schema other) {later twinLater : List Particle}
    {particle twin : Particle} (hlater : List.Forall₂ (Particle.Alike rel) later twinLater)
    (hparticle : particle.Alike rel twin) (element : Xml.Element) :
    other.fits twinLater element twin = schema.fits later element particle := by
  rcases hparticle with ⟨⟨_⟩⟩ | _
  · unfold fits isNamed
    rw [h.target]
    rfl
  · unfold fits isNamed
    rw [h.target]
    exact congrArg (! ·) (anyNamed_eq hlater fun name => schema.target.isName name element.name)

section

variable {children twins : List Child}

/-- Runs of children that are alike are split in the same places. -/
theorem takeRun_alike {fits twinFits : Child → Bool} (occurs : Occurs) (count : Nat)
    (h : List.Forall₂ (ChildAlike rel) children twins)
    (hfits : ∀ child twin, ChildAlike rel child twin → twinFits twin = fits child) :
    List.Forall₂ (ChildAlike rel) (takeRun fits occurs count children).1
        (takeRun twinFits occurs count twins).1 ∧
      List.Forall₂ (ChildAlike rel) (takeRun fits occurs count children).2
        (takeRun twinFits occurs count twins).2 := by
  induction h generalizing count with
  | nil => exact ⟨.nil, .nil⟩
  | @cons child twin children twins hfirst hrest ih =>
    unfold takeRun
    rw [hfits child twin hfirst]
    split
    · exact ⟨.cons hfirst (ih (count + 1)).1, (ih (count + 1)).2⟩
    · exact ⟨.nil, .cons hfirst hrest⟩

/-- Children that are alike are read as the same field. -/
theorem decodeField_eq (h : List.Forall₂ (ChildAlike rel) children twins)
    {particle twin : Particle} (hparticle : particle.Alike rel twin) :
    decodeField twins twin = decodeField children particle := by
  cases hparticle with
  | any =>
    have helements : twins.map (·.element) = children.map (·.element) :=
      map_eq_of_forall₂ h fun _ _ halike => halike.element
    exact congrArg (fun elements => Except.ok (Field.any elements)) helements
  | @element decl twinDecl decls =>
    have hitems : twins.mapM (·.decode twinDecl) = children.mapM (·.decode decl) :=
      mapM_eq_of_forall₂ (h.imp fun child twin halike => halike.decode decl twinDecl decls)
    cases decls with
    | mk related =>
      simp only [decodeField, hitems]
      rfl

/-- Children that are alike are read as the same fields. -/
theorem Bisimilar.decodeFields_eq (hsame : Bisimilar rel schema other)
    (h : List.Forall₂ (ChildAlike rel) children twins) {particles twinParticles : List Particle}
    (hparticles : List.Forall₂ (Particle.Alike rel) particles twinParticles) (owner : String) :
    decodeFields other owner twinParticles twins =
      decodeFields schema owner particles children := by
  induction hparticles generalizing children twins with
  | nil =>
    cases h with
    | nil => rfl
    | cons hfirst _ =>
      unfold decodeFields
      rw [hfirst.element]
  | @cons particle twin later twinLater hfirst hlater ih =>
    have hfits : ∀ child twinChild, ChildAlike rel child twinChild →
        other.fits twinLater twinChild.element twin =
          schema.fits later child.element particle := by
      intro child twinChild halike
      rw [halike.element]
      exact hsame.fits_eq hlater hfirst _
    obtain ⟨htaken, hleft⟩ := takeRun_alike particle.occurs 0 h hfits
    unfold decodeFields
    rw [hfirst.occurs_eq, hfirst.key_eq]
    generalize takeRun (fun child => schema.fits later child.element particle) particle.occurs 0
      children = run at htaken hleft ⊢
    generalize takeRun (fun child => other.fits twinLater child.element twin) particle.occurs 0
      twins = twinRun at htaken hleft ⊢
    obtain ⟨taken, left⟩ := run
    obtain ⟨twinTaken, twinLeft⟩ := twinRun
    have hfield := decodeField_eq htaken hfirst
    have hhead : twinLeft.head?.map (·.element.name.localName) =
        left.head?.map (·.element.name.localName) := by
      cases hleft with
      | nil => rfl
      | cons hnext _ => exact congrArg (fun element => some element.name.localName) hnext.element
    have hempty : twinTaken.isEmpty = taken.isEmpty := by
      cases htaken with
      | nil => rfl
      | cons => rfl
    simp only at hfield ⊢
    rw [htaken.length_eq, hhead, hempty, hfield, ih hleft]

end

/-- Reading takes the same way through both schemas. -/
theorem Bisimilar.decode_eq (h : Bisimilar rel schema other) (element : Xml.Element) :
    ∀ {localName : String} {type twin : TypeRef}, rel type twin →
      other.decode element localName twin = schema.decode element localName type := by
  induction element using Xml.Element.induct with
  | step element ih =>
    intro localName type twin hrel
    obtain ⟨name, preferred, attributes, text, children⟩ := element
    unfold decode
    rw [h.target, readChildren_eq_map, readChildren_eq_map]
    rcases h.resolves type twin hrel with
      ⟨cause, hleft, hright⟩ | ⟨definition, copy, hleft, hright, halike⟩
    · rw [hleft, hright]
      rfl
    · rw [bind_of_eq_ok hleft, bind_of_eq_ok hright]
      rcases halike with _ | ⟨_ | parts⟩
      · rfl
      · rfl
      · have hchildren : List.Forall₂ (ChildAlike rel) (children.map schema.child)
            (children.map other.child) := by
          rw [List.forall₂_map_left_iff, List.forall₂_map_right_iff, List.forall₂_same]
          rintro child hchild
          refine ⟨rfl, ?_⟩
          rintro _ _ ⟨related⟩
          exact ih child hchild related
        simp only [ComplexType.content, ComplexType.attributes]
        rw [h.decodeFields_eq hchildren parts]

/-! ## Top-level elements -/

/-- An element that both schemas declare alike is built in the same way, and one that neither
declares in none. -/
theorem Bisimilar.construct_eq (h : Bisimilar rel schema other) {name : String}
    (hroot : Option.Rel (ElementDecl.Alike rel) (schema.element? name) (other.element? name))
    (value : Value) : other.construct name value = schema.construct name value := by
  unfold construct element
  rw [h.target]
  generalize schema.element? name = found, other.element? name = twin at hroot
  cases hroot with
  | some hdecl =>
    show other.placeRoot _ value = schema.placeRoot _ value
    unfold placeRoot
    rw [h.limits]
    exact h.place_eq _ _ hdecl value
  | none => rfl

/-- An instance is valid in both schemas or in neither, where its root is declared alike. -/
theorem Bisimilar.isValid_eq (h : Bisimilar rel schema other) {node : Instance}
    (hroot : Option.Rel (ElementDecl.Alike rel) (schema.element? node.name)
      (other.element? node.name)) : other.isValid node = schema.isValid node := by
  unfold isValid
  rw [h.target, h.limits]
  generalize schema.element? node.name = found, other.element? node.name = twin at hroot
  cases hroot with
  | some hdecl =>
    cases hdecl with
    | mk related => exact congrArg (_ && ·) (h.conforms_eq node related)
  | none => rfl

/-- A root element is read in the same way in both schemas, where it is declared alike. -/
theorem Bisimilar.decodeElement_eq (h : Bisimilar rel schema other) {element : Xml.Element}
    (hroot : Option.Rel (ElementDecl.Alike rel) (schema.element? element.name.localName)
      (other.element? element.name.localName)) :
    other.decodeElement element = schema.decodeElement element := by
  have hdecl : Option.Rel (ElementDecl.Alike rel) (schema.rootDecl? element)
      (other.rootDecl? element) := by
    unfold rootDecl?
    rw [h.target]
    split
    · exact hroot
    · exact .none
  unfold decodeElement
  rw [h.target, h.limits]
  generalize schema.rootDecl? element = found, other.rootDecl? element = twin at hdecl
  cases hdecl with
  | some hdecl =>
    cases hdecl with
    | mk related => exact congrArg (fun read => _ >>= fun _ => read) (h.decode_eq element related)
  | none => rfl

end Schema

end TypedXml
