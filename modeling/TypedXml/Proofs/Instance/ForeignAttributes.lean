import TypedXml.Proofs.Instance.Facing

/-!
# Attributes that reading should not see

A schema declares attributes without a namespace, so that two element trees which differ only in
attributes of other namespaces and in the order of attributes should be read alike.  Reading finds
an attribute by its local name alone and takes the first one in document order, whatever its
namespace.  Such trees are therefore read alike exactly if what is found for each declared attribute
reads alike, which holds in particular where no foreign attribute hides a declared one.
-/

set_option autoImplicit false

namespace TypedXml

/-- What the attribute that is found for a declaration reads as: nothing if there is none, and
`some none` if its text is not in the lexical space of the type. -/
def AttributeDecl.reading (decl : AttributeDecl) (attributes : Xml.Attributes) :
    Option (Option Datum) :=
  (attributes.valueOf? decl.name).map decl.type.kind.read?

namespace Schema

/-- Whether the elements that wildcards take are equal in two trees of a type. -/
def WildAlike (schema : Schema) (type : TypeRef) (left right : Xml.Element) : Prop :=
  ∀ child other, schema.Facing type left right none child other → child.same other = true

/-- Whether a condition holds of all declared attributes of elements that face each other. -/
def OnAttributes (schema : Schema) (condition : AttributeDecl → Xml.Element → Xml.Element → Prop)
    (type : TypeRef) (left right : Xml.Element) : Prop :=
  ∀ found complex child other, schema.Facing type left right (some found) child other →
    schema.resolve found = .ok (.complex complex) →
      ∀ decl ∈ complex.attributes, condition decl child other

/-- What is found for a declared attribute reads the same in two elements. -/
def ReadsSame (decl : AttributeDecl) (left right : Xml.Element) : Prop :=
  decl.reading left.attributes = decl.reading right.attributes

/-- Nothing hides a declared attribute: the first one of its local name is the one without a
namespace. -/
def Unhidden (decl : AttributeDecl) (left right : Xml.Element) : Prop :=
  ∀ element ∈ [left, right],
    element.attributes.valueOf? decl.name = element.attributes.unqualified? decl.name

/-- Whether two root elements differ only in prefixes, in the order of attributes and, outside
wildcards, in attributes that have a namespace. -/
structure DifferForeign (schema : Schema) (left right : Xml.Element) : Prop where
  similar : left.Similar right
  wild : ∀ decl, schema.rootDecl? left = some decl → schema.WildAlike decl.type left right

/-- Whether a condition holds of all declared attributes below two root elements. -/
def OnRootAttributes (schema : Schema)
    (condition : AttributeDecl → Xml.Element → Xml.Element → Prop) (left right : Xml.Element) :
    Prop :=
  ∀ decl, schema.rootDecl? left = some decl → schema.OnAttributes condition decl.type left right

/-- Neither of two root elements is read. -/
def NeitherRead (schema : Schema) (left right : Xml.Element) : Prop :=
  (∀ node, schema.decodeElement left ≠ .ok node) ∧ ∀ node, schema.decodeElement right ≠ .ok node

/-- Two root elements are read as equal instances, or neither of them is read. -/
def ReadAlike (schema : Schema) (left right : Xml.Element) : Prop :=
  schema.NeitherRead left right ∨ ∃ node other, schema.decodeElement left = .ok node ∧
    schema.decodeElement right = .ok other ∧ node.same other = true

section

variable {schema : Schema} {type : TypeRef} {left right child other : Xml.Element}
  {decl : ElementDecl}

/-- What wildcards take is equal from either side. -/
theorem WildAlike.symm (h : schema.WildAlike type left right) (hsimilar : left.Similar right) :
    schema.WildAlike type right left := by
  intro child other hfacing
  exact Xml.Element.same_symm (h other child (hfacing.symm hsimilar.symm))

/-- Where what wildcards take is equal in two trees, it is so below children in the same place. -/
theorem WildAlike.inside (h : schema.WildAlike type left right)
    (hplaced : schema.Placed type left right (.element decl) child other) :
    schema.WildAlike decl.type child other :=
  fun _ _ hfacing => h _ _ (.inside hplaced hfacing)

variable {condition : AttributeDecl → Xml.Element → Xml.Element → Prop}

/-- A condition on declared attributes goes over to children in the same place. -/
theorem OnAttributes.inside (h : schema.OnAttributes condition type left right)
    (hplaced : schema.Placed type left right (.element decl) child other) :
    schema.OnAttributes condition decl.type child other :=
  fun _ _ _ _ hfacing => h _ _ _ _ (.inside hplaced hfacing)

/-- What is found for declared attributes reads the same from either side. -/
theorem OnAttributes.symm (h : schema.OnAttributes ReadsSame type left right)
    (hsimilar : left.Similar right) : schema.OnAttributes ReadsSame type right left := by
  intro found complex child other hfacing resolved decl hdecl
  exact (h found complex other child (hfacing.symm hsimilar.symm) resolved decl hdecl).symm

end

/-! ## Attributes of two elements -/

section

variable {attributes others : Xml.Attributes} {decls : List AttributeDecl}
  {scalars found : List (String × Scalar)}

/-- An attribute that is found is read as what its text denotes. -/
theorem reading_of_found {decl : AttributeDecl} {text : String} {value : Datum}
    (hfound : attributes.valueOf? decl.name = some text)
    (hread : decl.type.kind.read? text = some value) :
    decl.reading attributes = some (some value) := by
  rw [AttributeDecl.reading, hfound, Option.map_some, hread]

/-- An attribute that is not found reads as nothing. -/
theorem reading_of_missing {decl : AttributeDecl}
    (hmissing : attributes.valueOf? decl.name = none) : decl.reading attributes = none := by
  rw [AttributeDecl.reading, hmissing, Option.map_none]

/-- Attributes in which the same is found are read as the same scalars. -/
theorem AttributesRead.of_reading (h : AttributesRead attributes decls scalars)
    (hsame : ∀ decl ∈ decls, decl.reading attributes = decl.reading others) :
    AttributesRead others decls scalars := by
  induction h with
  | done => exact .done
  | @absent decl rest scalars missing optional behind ih =>
    rw [List.forall_mem_cons, reading_of_missing missing] at hsame
    exact .absent (Option.map_eq_none_iff.1 hsame.1.symm) optional (ih hsame.2)
  | @present decl rest text scalar scalars found kind read behind ih =>
    rw [List.forall_mem_cons, reading_of_found found read] at hsame
    obtain ⟨text, hfound, hread⟩ := Option.map_eq_some_iff.1 hsame.1.symm
    exact .present hfound kind hread (ih hsame.2)

/-- Where equal scalars are read, the same is found. -/
theorem reading_eq_of_agree (h : AttributesRead attributes decls scalars)
    (hother : AttributesRead others decls found) (hdistinct : (decls.map AttributeDecl.name).Nodup)
    (hagree : Entries.agree (· == ·) scalars found = true) :
    ∀ decl ∈ decls, decl.reading attributes = decl.reading others := by
  intro decl hdecl
  have hlookup :=
    Entries.lookup_eq_of_agree hagree (h.shaped.keys_sublist.nodup hdistinct) decl.name
  rcases h.lookup hdistinct hdecl with
    ⟨hmissing, hnone, _⟩ | ⟨text, scalar, hfound, hsome, _, hread⟩
  · rcases hother.lookup hdistinct hdecl with
      ⟨hmissingOther, _⟩ | ⟨_, scalar, _, hsome, _⟩
    · rw [reading_of_missing hmissing, reading_of_missing hmissingOther]
    · rw [hlookup, hnone] at hsome
      cases hsome
  · rcases hother.lookup hdistinct hdecl with
      ⟨_, hnone, _⟩ | ⟨textOther, scalarOther, hfoundOther, hsomeOther, _, hreadOther⟩
    · rw [hlookup, hsome] at hnone
      cases hnone
    · rw [hlookup, hsome] at hsomeOther
      cases hsomeOther
      rw [reading_of_found hfound hread,
        reading_of_found hfoundOther hreadOther]

end

/-! ## Elements of one type -/

section

variable {schema : Schema} {type : TypeRef} {left right : Xml.Element} {localName : String}
  {node other : Instance}

/-- What is read from one tree is read, up to equality, from a similar one in which the same is
found for each declared attribute. -/
theorem exists_decode_over (hassembled : schema.Assembled) (left : Xml.Element) :
    ∀ {type : TypeRef} {right : Xml.Element} {localName : String} {node : Instance},
      type.all schema.declares (fun type => type.checkParts.isOk) = true →
        left.Similar right → schema.WildAlike type left right →
          schema.OnAttributes ReadsSame type left right →
            schema.decode left localName type = .ok node →
              ∃ other, schema.decode right localName type = .ok other ∧
                node.same other = true := by
  -- on the tree that is read, for every tree that it may differ from
  induction left using Xml.Element.induct with
  | step left ih =>
    intro type right localName node htype hsimilar hwild hreadings h
    have htext : right.textOrEmpty = left.textOrEmpty := by
      rw [Xml.Element.textOrEmpty, ← hsimilar.text]
      rfl
    have hchildless : left.children = [] → right.children = [] := by
      intro hnil
      have hchildren := hsimilar.children
      rwa [hnil, List.forall₂_nil_left_iff] at hchildren
    have hhere := fun complex => hreadings type complex left right .root
    rw [decode_eq_ok] at h
    cases h with
    | scalar resolved childless kind read =>
      exact ⟨_, Reads.decode (.scalar resolved (hchildless childless) kind (htext ▸ read)),
        Instance.same_scalar_iff.2 rfl⟩
    | @text complex base value attributes resolved content childless kind read scalars =>
      have hdistinct :=
        (regular_of_all (all_of_resolve hassembled.allTypes htype resolved)).names_distinct
      have hkeys := scalars.shaped.keys_sublist.nodup hdistinct
      exact ⟨_, Reads.decode (.text resolved content (hchildless childless) kind (htext ▸ read)
          (scalars.of_reading (hhere complex resolved))),
        Instance.same_text_iff.2 ⟨_, rfl, Entries.agree_self hkeys beq_self_eq_true⟩⟩
    | @fields complex particles entries attributes resolved content parts scalars =>
      have hall := all_of_resolve hassembled.allTypes htype resolved
      have hparticles := ComplexType.particles_of_sequence content
      have hregular := regular_of_all hall
      have hkeys := scalars.shaped.keys_sublist.nodup hregular.names_distinct
      have hover : EachTaken schema.ReadsOver
          (schema.assigned particles (left.children.map schema.child))
          left.children right.children := by
        intro position particle child face htaken hchild hface
        have hplaced : schema.Placed type left right particle child face :=
          .intro resolved content htaken hchild hface
        cases particle with
        | any wildcard => exact hwild child face (.wild hplaced)
        | element decl =>
          intro item hitem
          have hdecl : .element decl ∈ complex.particles :=
            hparticles ▸ assigned_subset (List.mem_of_getElem? htaken)
          exact ih child (List.mem_of_getElem? hchild) (ComplexType.all_of_mem hall hdecl)
            (hplaced.related hsimilar.children) (hwild.inside hplaced)
            (hreadings.inside hplaced) hitem
      obtain ⟨found, hfound, hsame⟩ := parts.exists_over rfl hsimilar.names hover
      have hdistinct : (particles.map Particle.key).Nodup := hparticles ▸ hregular.keys_distinct
      refine ⟨_, Reads.decode (.fields resolved content hfound
        (scalars.of_reading (hhere complex resolved))), Instance.same_fields_iff.2
          ⟨_, _, rfl, hsame.length_eq, ?_, Entries.agree_self hkeys beq_self_eq_true⟩⟩
      exact sameFields_of_forall₂ hsame (hfound.keys_sublist.nodup hdistinct)

/-- Where similar trees are read as equal instances, the same is found for each declared
attribute. -/
theorem readsSame_of_same (hassembled : schema.Assembled) {found : Option TypeRef}
    {child face : Xml.Element} (hfacing : schema.Facing type left right found child face) :
    ∀ {localName : String} {node other : Instance},
      type.all schema.declares (fun type => type.checkParts.isOk) = true →
        left.Similar right → schema.decode left localName type = .ok node →
          schema.decode right localName type = .ok other → node.same other = true →
            ∀ given complex, found = some given → schema.resolve given = .ok (.complex complex) →
              ∀ decl ∈ complex.attributes, ReadsSame decl child face := by
  induction hfacing with
  | @root type left right =>
    intro localName node other htype hsimilar hleft hright hsame given complex hgiven resolved
    cases hgiven
    have hdistinct :=
      (regular_of_all (all_of_resolve hassembled.allTypes htype resolved)).names_distinct
    cases hcontent : complex.content with
    | simple base =>
      obtain ⟨_, value, scalars, _, _, hscalars, rfl⟩ :=
        (decode_text_eq_ok resolved hcontent).1 hleft
      obtain ⟨_, valueOther, scalarsOther, _, _, hscalarsOther, rfl⟩ :=
        (decode_text_eq_ok resolved hcontent).1 hright
      obtain ⟨_, heq, hagree⟩ := Instance.same_text_iff.1 hsame
      cases heq
      exact reading_eq_of_agree hscalars hscalarsOther hdistinct hagree
    | sequence particles =>
      obtain ⟨entries, scalars, _, hscalars, rfl⟩ :=
        (decode_sequence_eq_ok resolved hcontent).1 hleft
      obtain ⟨entriesOther, scalarsOther, _, hscalarsOther, rfl⟩ :=
        (decode_sequence_eq_ok resolved hcontent).1 hright
      obtain ⟨_, _, heq, _, _, hagree⟩ := Instance.same_fields_iff.1 hsame
      cases heq
      exact reading_eq_of_agree hscalars hscalarsOther hdistinct hagree
  | wild placed =>
    intro localName node other htype hsimilar hleft hright hsame given complex hgiven
    cases hgiven
  | @inside type left right child face inner innerFace decl found placed below ih =>
    intro localName node other htype hsimilar hleft hright hsame
    have hchild := placed.related hsimilar.children
    cases placed with
    | @intro complex particles _ _ _ position resolved content taken here there =>
      have hall := all_of_resolve hassembled.allTypes htype resolved
      have hparticles := ComplexType.particles_of_sequence content
      have hdistinct : (particles.map Particle.key).Nodup :=
        hparticles ▸ (regular_of_all hall).keys_distinct
      have hdecl : .element decl ∈ complex.particles :=
        hparticles ▸ assigned_subset (List.mem_of_getElem? taken)
      obtain ⟨entries, scalars, hread, _, rfl⟩ := (decode_sequence_eq_ok resolved content).1 hleft
      obtain ⟨entriesOther, scalarsOther, hreadOther, _, rfl⟩ :=
        (decode_sequence_eq_ok resolved content).1 hright
      obtain ⟨_, _, heq, _, hfields, _⟩ := Instance.same_fields_iff.1 hsame
      cases heq
      have hboth := hread.readBoth hreadOther rfl rfl hsimilar.names hdistinct
        fun key field hentry => Instance.exists_of_sameFields hfields hentry
      obtain ⟨item, itemOther, hitem, hitemOther, hequal⟩ :=
        hboth position (.element decl) child face taken here there
      exact ih (ComplexType.all_of_mem hall hdecl) hchild hitem hitemOther hequal

end

/-! ## Root elements -/

section

variable {schema : Schema} {left right : Xml.Element} {node other : Instance}

/-- Root elements of one name have the same declaration. -/
theorem rootDecl?_eq_of_name (h : left.name = right.name) :
    schema.rootDecl? left = schema.rootDecl? right := by
  unfold rootDecl?
  rw [h]

/-- Differing in foreign attributes goes both ways. -/
theorem DifferForeign.symm (h : schema.DifferForeign left right) :
    schema.DifferForeign right left := by
  refine ⟨h.similar.symm, ?_⟩
  intro decl hroot
  rw [rootDecl?_eq_of_name h.similar.name.symm] at hroot
  exact (h.wild decl hroot).symm h.similar

/-- Equal trees differ in nothing that reading should see. -/
theorem differForeign_of_same (h : left.same right = true) : schema.DifferForeign left right := by
  refine ⟨Xml.Element.similar_of_same h, ?_⟩
  intro decl _ child other hfacing
  exact hfacing.related (fun _ _ hsame => (Xml.Element.same_iff.1 hsame).2.2.2) h

/-- What is found for declared attributes below two roots reads the same from either side. -/
theorem OnRootAttributes.symm (h : schema.OnRootAttributes ReadsSame left right)
    (hsimilar : left.Similar right) : schema.OnRootAttributes ReadsSame right left := by
  intro decl hroot
  rw [rootDecl?_eq_of_name hsimilar.name.symm] at hroot
  exact (h decl hroot).symm hsimilar

/-- What is read from one root element is read, up to equality, from another one that differs in
foreign attributes, if what is found for declared ones reads the same. -/
theorem exists_decodeElement_over (hassembled : schema.Assembled)
    (hdiffer : schema.DifferForeign left right)
    (hreadings : schema.OnRootAttributes ReadsSame left right)
    (h : schema.decodeElement left = .ok node) :
    ∃ other, schema.decodeElement right = .ok other ∧ node.same other = true := by
  obtain ⟨hdepth, decl, hroot, hread⟩ := decodeElement_eq_ok.1 h
  obtain ⟨hmem, _⟩ := mem_of_element? (rootDecl?_eq_some.1 hroot).2
  obtain ⟨other, hother, hsame⟩ := exists_decode_over hassembled left
    (all_of_mem_elements hassembled.allTypes hmem) hdiffer.similar (hdiffer.wild decl hroot)
    (hreadings decl hroot) hread
  refine ⟨other, decodeElement_eq_ok.2 ⟨?_, decl, ?_, hother⟩, hsame⟩
  · rwa [Xml.Element.depth_eq_height, ← hdiffer.similar.height_eq, ← Xml.Element.depth_eq_height]
  · rwa [← rootDecl?_eq_of_name hdiffer.similar.name]

/-- Where two root elements are read as equal instances, what is found for declared attributes reads
the same. -/
theorem onRootAttributes_of_same (hassembled : schema.Assembled) (hsimilar : left.Similar right)
    (hleft : schema.decodeElement left = .ok node)
    (hright : schema.decodeElement right = .ok other) (hsame : node.same other = true) :
    schema.OnRootAttributes ReadsSame left right := by
  obtain ⟨_, declLeft, hrootLeft, hreadLeft⟩ := decodeElement_eq_ok.1 hleft
  obtain ⟨_, declRight, hrootRight, hreadRight⟩ := decodeElement_eq_ok.1 hright
  rw [← rootDecl?_eq_of_name hsimilar.name, hrootLeft] at hrootRight
  cases hrootRight
  intro decl hroot found complex child face hfacing resolved
  rw [hrootLeft] at hroot
  cases hroot
  obtain ⟨hmem, _⟩ := mem_of_element? (rootDecl?_eq_some.1 hrootLeft).2
  exact readsSame_of_same hassembled hfacing (all_of_mem_elements hassembled.allTypes hmem)
    hsimilar hreadLeft hreadRight hsame found complex rfl resolved

/-- Where no declared attribute is hidden, the same is found for each of them. -/
theorem onRootAttributes_of_unhidden (hsimilar : left.Similar right)
    (h : schema.OnRootAttributes Unhidden left right) :
    schema.OnRootAttributes ReadsSame left right := by
  intro decl hroot found complex child face hfacing resolved declared hdeclared
  have hface : child.Similar face := hfacing.related (fun _ _ hface => hface.children) hsimilar
  have hunhidden := h decl hroot found complex child face hfacing resolved declared hdeclared
  have hchild := hunhidden child (by simp)
  have hother := hunhidden face (by simp)
  rw [ReadsSame, AttributeDecl.reading, AttributeDecl.reading, hchild, hother,
    hface.unqualified declared.name]

/-- Which of two trees that differ only in foreign attributes and in the order of attributes are
read alike: those in which what is found for each declared attribute reads alike, unless neither is
read at all.  Where no foreign attribute hides a declared one, this is so.  Equal trees are a case
of such trees. -/
theorem readAlike_iff_readsSame (hassembled : schema.Assembled) :
    (∀ left right : Xml.Element, left.same right = true → schema.DifferForeign left right) ∧
      ∀ left right, schema.DifferForeign left right →
        (schema.ReadAlike left right ↔
          schema.NeitherRead left right ∨ schema.OnRootAttributes ReadsSame left right) ∧
        (schema.OnRootAttributes Unhidden left right → schema.ReadAlike left right) := by
  have halike : ∀ left right, schema.DifferForeign left right →
      schema.OnRootAttributes ReadsSame left right → schema.ReadAlike left right := by
    intro left right hdiffer hreadings
    by_cases hread : ∃ node, schema.decodeElement left = .ok node
    · obtain ⟨node, hnode⟩ := hread
      obtain ⟨other, hother, hsame⟩ :=
        exists_decodeElement_over hassembled hdiffer hreadings hnode
      exact Or.inr ⟨node, other, hnode, hother, hsame⟩
    · -- what is read from the right would be read from the left as well
      rw [not_exists] at hread
      refine Or.inl ⟨hread, fun node hnode => ?_⟩
      obtain ⟨other, hother, _⟩ := exists_decodeElement_over hassembled hdiffer.symm
        (hreadings.symm hdiffer.similar) hnode
      exact hread other hother
  refine ⟨fun left right => differForeign_of_same, ?_⟩
  intro left right hdiffer
  refine ⟨⟨?_, ?_⟩, ?_⟩
  · rintro (hneither | ⟨node, other, hleft, hright, hsame⟩)
    · exact Or.inl hneither
    · exact Or.inr (onRootAttributes_of_same hassembled hdiffer.similar hleft hright hsame)
  · rintro (hneither | hreadings)
    · exact Or.inl hneither
    · exact halike left right hdiffer hreadings
  · intro hunhidden
    exact halike left right hdiffer (onRootAttributes_of_unhidden hdiffer.similar hunhidden)

end

/-! ## Tickets -/

/-- A ticket: text with a number. -/
def ticketDecl : ElementDecl :=
  ⟨"ticket", .complex ⟨none, .simple (.ofKind .string), [⟨"id", .ofKind .int, true⟩]⟩, .once⟩

/-- The schema of tickets. -/
def tickets : Schema :=
  ⟨⟨"urn:tickets", "t"⟩, [], [ticketDecl], {}⟩

/-- The schema of tickets is what defining the ticket gives. -/
theorem define_tickets : define ⟨"urn:tickets", "t"⟩ [.element ticketDecl] = .ok tickets := rfl

/-- A ticket element with given attributes. -/
def ticketElement (entries : List (Name × String)) : Xml.Element :=
  ⟨tickets.target.qualify "ticket", none, .ofPairs entries, some "hall", []⟩

/-- The ticket with a given number. -/
def ticketOf (number : Int64) : Instance :=
  ⟨"ticket", tickets.target, .text (.ofDatum .string (.text "hall"))
    [("id", .ofDatum .int (.int number))]⟩

/-- A ticket element has the declaration of tickets. -/
theorem rootDecl?_ticketElement {entries : List (Name × String)} {decl : ElementDecl}
    (h : tickets.rootDecl? (ticketElement entries) = some decl) : ticketDecl = decl :=
  Option.some.inj h

/-- In a ticket nothing stands below the root. -/
theorem Facing.of_ticket {left right child other : Xml.Element} {found : Option TypeRef}
    (h : tickets.Facing ticketDecl.type left right found child other) :
    found = some ticketDecl.type ∧ child = left ∧ other = right := by
  have hplace : ∀ particle child other,
      ¬ tickets.Placed ticketDecl.type left right particle child other := by
    intro particle child other hplaced
    cases hplaced with
    | intro resolved content =>
      cases resolved
      cases content
  cases h with
  | root => exact ⟨rfl, rfl, rfl⟩
  | wild placed => exact absurd placed (hplace _ _ _)
  | inside placed => exact absurd placed (hplace _ _ _)

/-- Tickets with the same attributes without a namespace differ in foreign attributes. -/
theorem differForeign_ticketElement {entries others : List (Name × String)}
    (h : ∀ localName, (Xml.Attributes.ofPairs entries).unqualified? localName =
      (Xml.Attributes.ofPairs others).unqualified? localName) :
    tickets.DifferForeign (ticketElement entries) (ticketElement others) := by
  refine ⟨.intro rfl rfl h .nil, ?_⟩
  intro decl hroot child other hfacing
  obtain rfl := rootDecl?_ticketElement hroot
  cases hfacing.of_ticket.1

/-- An attribute in front of others that has a namespace does not change those without one. -/
theorem unqualified?_foreign {uri localName value : String} {entries : List (Name × String)}
    (h : (Entries.keys ((⟨some uri, localName⟩, value) :: entries)).Nodup) (sought : String) :
    (Xml.Attributes.ofPairs ((⟨some uri, localName⟩, value) :: entries)).unqualified? sought =
      (Xml.Attributes.ofPairs entries).unqualified? sought := by
  have hrest : (Entries.keys entries).Nodup := (List.nodup_cons.1 h).2
  show (Entries.ofPairs _).lookup _ = (Entries.ofPairs _).lookup _
  rw [Entries.ofPairs_eq_self h, Entries.ofPairs_eq_self hrest]
  exact lookup_cons_of_ne fun hname => nomatch congrArg Name.space hname

/-- A ticket element is read as the ticket of the number that is found in it. -/
theorem decodeElement_ticketElement {entries : List (Name × String)} {text : String}
    {number : Int64} (hfound : (Xml.Attributes.ofPairs entries).valueOf? "id" = some text)
    (hread : Kind.int.read? text = some (.int number)) :
    tickets.decodeElement (ticketElement entries) = .ok (ticketOf number) := by
  refine decodeElement_eq_ok.2 ⟨?_, ticketDecl, rfl, Reads.decode (.text rfl rfl rfl rfl rfl ?_)⟩
  · have hheight : (ticketElement entries).height = 1 := rfl
    rw [Xml.Element.depth_eq_height, hheight]
    decide
  · have hvalue := hread.trans (congrArg some (Kind.native_of_read? hread).2.symm)
    exact .present hfound rfl hvalue .done

/-- The ticket of number two. -/
def plainTicket : Xml.Element :=
  ticketElement [(.unqualified "id", "2")]

/-- The same with an attribute of a foreign namespace in front of the number. -/
def markedTicket (localName : String) : Xml.Element :=
  ticketElement [(⟨some "urn:marks", localName⟩, "1"), (.unqualified "id", "2")]

/-- The mark is in a foreign namespace, whatever it is called. -/
theorem differForeign_markedTicket (localName : String) :
    tickets.DifferForeign (markedTicket localName) plainTicket := by
  refine differForeign_ticketElement (unqualified?_foreign ?_)
  refine List.nodup_cons.2 ⟨?_, by decide⟩
  intro hmem
  cases congrArg Name.space (List.mem_singleton.1 hmem)

/-- A mark that is called otherwise than the number does not change how a ticket is read. -/
theorem readAlike_markedTicket :
    tickets.Assembled ∧ tickets.DifferForeign (markedTicket "seen") plainTicket ∧
      tickets.ReadAlike (markedTicket "seen") plainTicket := by
  have hassembled := assembled_of_define define_tickets
  have hdiffer := differForeign_markedTicket "seen"
  refine ⟨hassembled, hdiffer, ((readAlike_iff_readsSame hassembled).2 _ _ hdiffer).2 ?_⟩
  intro decl hroot found complex child other hfacing resolved declared hdeclared
  obtain rfl := rootDecl?_ticketElement hroot
  obtain ⟨hfound, rfl, rfl⟩ := hfacing.of_ticket
  cases hfound
  cases resolved
  obtain rfl := List.mem_singleton.1 hdeclared
  intro element helement
  rcases List.mem_pair.1 helement with rfl | rfl
  · decide
  · decide

/-- Elements that are read as different instances are not read alike. -/
theorem not_readAlike_of_read {left right : Xml.Element} {node other : Instance}
    {schema : Schema} (hleft : schema.decodeElement left = .ok node)
    (hright : schema.decodeElement right = .ok other) (hdiffer : node.same other = false) :
    ¬ schema.ReadAlike left right := by
  rintro (⟨hneither, _⟩ | ⟨_, _, hread, hreadOther, hsame⟩)
  · exact hneither node hleft
  · rw [hleft] at hread
    rw [hright] at hreadOther
    cases hread
    cases hreadOther
    rw [hdiffer] at hsame
    cases hsame

/-- A mark that is called like the number hides it when it stands in front: the ticket is read as
another one than without the mark, and as another one than the equal ticket with its attributes
turned round. -/
theorem not_readAlike_markedTicket :
    (tickets.DifferForeign (markedTicket "id") plainTicket ∧
      ¬ tickets.ReadAlike (markedTicket "id") plainTicket) ∧
    (markedTicket "id").same
        (ticketElement [(.unqualified "id", "2"), (⟨some "urn:marks", "id"⟩, "1")]) = true ∧
      ¬ tickets.ReadAlike (markedTicket "id")
        (ticketElement [(.unqualified "id", "2"), (⟨some "urn:marks", "id"⟩, "1")]) := by
  have hmarked : tickets.decodeElement (markedTicket "id") = .ok (ticketOf 1) :=
    decodeElement_ticketElement rfl rfl
  have hother : (ticketOf 1).same (ticketOf 2) = false := by
    rw [Bool.eq_false_iff]
    intro hsame
    obtain ⟨_, heq, hagree⟩ := Instance.same_text_iff.1 hsame
    cases heq
    exact absurd hagree (by decide)
  exact ⟨⟨differForeign_markedTicket "id",
      not_readAlike_of_read hmarked (decodeElement_ticketElement rfl rfl) hother⟩,
    rfl, not_readAlike_of_read hmarked (decodeElement_ticketElement rfl rfl) hother⟩

end Schema

end TypedXml
