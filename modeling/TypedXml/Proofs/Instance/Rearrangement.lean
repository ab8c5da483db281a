import TypedXml.Proofs.Instance.AlikeValues
import TypedXml.Proofs.Instance.Replacement

/-!
# Rearranged values

The order in which a mapping gives its entries does not count: fields and attributes come in the
order of the type, whatever the order of their values was.  Nor does it count whether the parts of
a complex type are given by key or by position, where a list is not taken for occurrences.  So
construction gives the very same instance for a value that is arranged in another way, or fails
alike.
-/

set_option autoImplicit false

namespace TypedXml

/-! ## Entries in another order -/

/-- Whether the second of two values is the first one with the entries of mappings, at any depth, in
another order.  Finished instances and elements stay as they are. -/
inductive Value.Reordered : Value → Value → Prop
  | same (value : Value) : Reordered value value
  | list {items others : List Value} (parts : List.Forall₂ Reordered items others) :
      Reordered (.list items) (.list others)
  | map {entries middle others : List (String × Value)} (distinct : (Entries.keys entries).Nodup)
      (keys : middle.map Prod.fst = entries.map Prod.fst)
      (parts : List.Forall₂ Reordered (entries.map Prod.snd) (middle.map Prod.snd))
      (order : middle.Perm others) : Reordered (.map entries) (.map others)

/-- Each key has the same value in both orders, but for the order inside of that. -/
theorem Value.Reordered.alike {value twin : Value} (h : value.Reordered twin) :
    value.Alike Eq Reordered twin := by
  cases h with
  | same => exact .refl value
  | list parts => exact .list parts
  | @map entries middle others distinct keys parts order =>
    have hdistinct : (middle.map Prod.fst).Nodup := by
      rw [keys]
      exact distinct
    apply Value.Alike.map
    intro key
    rw [lookup_eq_of_perm order hdistinct key]
    exact lookup_forall₂ (forall₂_entries keys parts) key

/-- Entries with the same keys and equal values are equal. -/
theorem eq_of_forall₂_entries {α β : Type} {rel : β → β → Prop} {entries others : List (α × β)}
    (h : List.Forall₂ (fun entry other => other.1 = entry.1 ∧ rel entry.2 other.2) entries others)
    (hrel : ∀ value other, rel value other → value = other) : entries = others := by
  rw [← List.forall₂_eq_eq_eq]
  exact h.imp fun entry other hentry => Prod.ext hentry.1.symm (hrel _ _ hentry.2)

/-- Fields with equal occurrences are equal. -/
theorem Field.eq_of_alike {field other : Field} (h : field.Alike Eq other) : field = other := by
  cases h with
  | one related => rw [related]
  | many related =>
    rw [List.forall₂_eq_eq_eq] at related
    rw [related]
  | any elements => rfl

/-- Equal parts make equal nodes. -/
theorem Instance.congruence_eq : Instance.Congruence Eq Eq where
  refl _ := rfl
  refl_scalar _ := rfl
  scalar _ _ _ _ hvalue := by rw [hvalue]
  text _ _ _ _ _ _ hvalue hattributes := by
    rw [hvalue, eq_of_forall₂_entries hattributes fun _ _ => id]
  fields _ _ _ _ _ _ hfields hattributes := by
    rw [eq_of_forall₂_entries hfields fun _ _ => Field.eq_of_alike,
      eq_of_forall₂_entries hattributes fun _ _ => id]

namespace Schema

variable {schema : Schema} {decl : ElementDecl} {name : String} {value twin : Value}

/-- A value with its entries in another order gives the same instance, or fails alike. -/
theorem construct_reordered (h : value.Reordered twin) :
    SameKind (schema.construct name value) (schema.construct name twin) :=
  sameKind_of_agree (construct_agree ⟨fun _ _ => Value.Reordered.alike, Instance.congruence_eq⟩ h)

end Schema

/-! ## Parts by position -/

/-- All keys of a regular type are distinct. -/
theorem ComplexType.Regular.nodup_keys {type : ComplexType} (h : type.Regular) :
    type.keys.Nodup := by
  have hcontent : type.contentKeys.Nodup := by
    unfold ComplexType.contentKeys
    split
    · exact List.nodup_singleton _
    · next particles hparticles =>
      rw [← ComplexType.particles_of_sequence hparticles]
      exact h.keys_distinct
  refine List.nodup_append.2 ⟨hcontent, h.names_distinct, ?_⟩
  intro key hkey other hother heq
  obtain ⟨decl, hdecl, rfl⟩ := List.mem_map.1 hother
  exact h.apart decl hdecl (heq ▸ hkey)

/-- Where keys are distinct, pairing them with items leaves every pair. -/
theorem Value.ofPairs_zip {keys : List String} (h : keys.Nodup) (items : List Value) :
    Value.ofPairs (keys.zip items) = .map (keys.zip items) := by
  have hdistinct : (Entries.keys (keys.zip items)).Nodup := (keys_zip_sublist keys items).nodup h
  rw [Value.ofPairs, Entries.ofPairs_eq_self hdistinct]

/-- Items that are not too many stand under the keys of their positions. -/
theorem Construction.positional_of_le {name : String} {keys : List String} {items : List Value}
    (h : items.length ≤ keys.length) : positional name keys items = .ok (keys.zip items) := by
  unfold positional
  rw [if_neg (Nat.not_lt.2 h)]

namespace Schema

variable {schema : Schema} {decl : ElementDecl} {name : String} {value twin : Value}

/-- Whether the second of two values for a declaration is the first one with one list, which gives
the parts of a complex type by position, in the form of a mapping.  The list is the value itself or
one of the occurrences of a repeated declaration below; in the place of a declaration that occurs
at most once a list would stand for occurrences. -/
inductive Regroups (schema : Schema) : ElementDecl → Value → Value → Prop
  | here {decl : ElementDecl} {complex : ComplexType} {items : List Value}
      (resolved : schema.resolve decl.type = .ok (.complex complex))
      (few : items.length ≤ complex.keys.length) :
      Regroups schema decl (.list items) (.ofPairs (complex.keys.zip items))
  | inside {decl child : ElementDecl} {complex : ComplexType} {particles : List Particle}
      {part partTwin slot slotTwin whole wholeTwin : Value}
      (resolved : schema.resolve decl.type = .ok (.complex complex))
      (content : complex.content = .sequence particles) (declared : .element child ∈ particles)
      (parts : Regroups schema child part partTwin)
      (listing : child.occurs.isSingle = true → SameListing part partTwin)
      (slots : OccursIn child part partTwin slot slotTwin)
      (wholes : DifferAt complex.keys child.name slot slotTwin whole wholeTwin) :
      Regroups schema decl whole wholeTwin

/-- A list for a complex type is placed as the mapping with the keys of its positions. -/
theorem place_positional {levels depth : Nat} {complex : ComplexType} {items : List Value}
    (hresolved : schema.resolve decl.type = .ok (.complex complex)) (hregular : complex.Regular)
    (hfew : items.length ≤ complex.keys.length) :
    schema.place levels depth decl (.list items) =
      schema.place levels depth decl (.ofPairs (complex.keys.zip items)) := by
  rw [Value.ofPairs_zip hregular.nodup_keys]
  cases levels with
  | zero => rfl
  | succ levels =>
    unfold place Construction.node Construction.content Construction.text Construction.sequence
    rw [bind_of_eq_ok hresolved, bind_of_eq_ok hresolved]
    dsimp only
    rw [Construction.positional_of_le hfew]
    rfl

/-- A list that gives parts by position can be a mapping. -/
theorem place_regroups (hassembled : schema.Assembled) (h : schema.Regroups decl value twin)
    {levels depth : Nat}
    (htype : decl.type.all schema.declares (fun type => type.checkParts.isOk) = true) :
    SameKind (schema.place levels depth decl value) (schema.place levels depth decl twin) := by
  induction h generalizing levels depth with
  | here resolved few =>
    have hcomplex := all_of_resolve hassembled.allTypes htype resolved
    exact .of_eq (place_positional resolved (regular_of_all hcomplex) few)
  | @inside decl child complex particles part partTwin slot slotTwin whole wholeTwin resolved
      content declared parts listing slots wholes ih =>
    cases levels with
    | zero => exact .refl _
    | succ levels =>
      have hcomplex := all_of_resolve hassembled.allTypes htype resolved
      have hchild : .element child ∈ complex.particles := by
        rw [ComplexType.particles_of_sequence content]
        exact declared
      exact place_sameKind_of_part resolved content (regular_of_all hcomplex) declared
        (ih (ComplexType.all_of_mem hcomplex hchild)) listing slots wholes

/-- Whether one value for a declaration is another one that is arranged in another way: by
mappings with their entries in another order and by mappings in the place of lists, one such step
after the other. -/
inductive Rearranges (schema : Schema) (decl : ElementDecl) : Value → Value → Prop
  | reordered {value twin : Value} (order : value.Reordered twin) :
      Rearranges schema decl value twin
  | regrouped {value twin : Value} (lists : schema.Regroups decl value twin) :
      Rearranges schema decl value twin
  | trans {value middle twin : Value} (first : Rearranges schema decl value middle)
      (next : Rearranges schema decl middle twin) : Rearranges schema decl value twin

/-- What is built depends only on which value each key has: a value that is arranged in another way
gives the same instance, with its fields and attributes in the same order, or fails with an error of
the same category. -/
theorem construct_rearranged (hassembled : schema.Assembled)
    (helement : schema.element? name = some decl) (h : schema.Rearranges decl value twin) :
    SameKind (schema.construct name value) (schema.construct name twin) := by
  induction h with
  | reordered order => exact construct_reordered order
  | regrouped lists =>
    rw [construct_eq_placeRoot helement, construct_eq_placeRoot helement]
    exact place_regroups hassembled lists
      (all_of_mem_elements hassembled.allTypes (mem_of_element? helement).1)
  | trans _ _ ihFirst ihNext => exact ihFirst.trans ihNext

/-- The type of the lines of an order: what is ordered, and how many of it. -/
def lineType : ComplexType :=
  ⟨none, .sequence [.element ⟨"article", .simple (.ofKind .string), .once⟩],
    [⟨"count", .ofKind .int, true⟩]⟩

/-- The lines of an order. -/
def lineDecl : ElementDecl :=
  ⟨"line", .complex lineType, .oneOrMore⟩

/-- The type of orders: lines, and elements of other kinds behind them. -/
def orderType : ComplexType :=
  ⟨none, .sequence [.element lineDecl, .any ⟨"rest", .zeroOrMore⟩],
    [⟨"no", .ofKind .int, false⟩, ⟨"note", .ofKind .string, false⟩]⟩

/-- Orders. -/
def orderDecl : ElementDecl :=
  ⟨"order", .complex orderType, .once⟩

/-- The schema of orders. -/
def orders : Schema :=
  ⟨⟨"urn:orders", "o"⟩, [], [orderDecl], {}⟩

/-- The schema of orders is what defining the order gives. -/
theorem define_orders : define ⟨"urn:orders", "o"⟩ [.element orderDecl] = .ok orders := rfl

/-- Orders are declared. -/
theorem element?_order : orders.element? "order" = some orderDecl := rfl

/-- A line of an order. -/
def orderLine (article count : Datum) : Instance :=
  ⟨"line", orders.target, .fields
    [("article", .one ⟨"article", orders.target, .scalar (.ofDatum .string article)⟩)]
    [("count", .ofDatum .int count)]⟩

/-- An order of one line. -/
def order (no article count : Datum) : Instance :=
  ⟨"order", orders.target, .fields [("line", .many [orderLine article count])]
    [("no", .ofDatum .int no)]⟩

/-- The line of an order by position. -/
def orderByPosition : Value :=
  .map [("line", .list [.list [.text "nut", .int 3]]), ("no", .int 7)]

/-- The same line by key, in an order with the entries in another order. -/
def orderByKey : Value :=
  .map [("no", .int 7), ("line", .list [.map [("count", .int 3), ("article", .text "nut")]])]

/-- The order by key is the order by position, arranged in another way. -/
theorem rearranges_order : orders.Rearranges orderDecl orderByPosition orderByKey := by
  let line : Value := .ofPairs (lineType.keys.zip [.text "nut", .int 3])
  have hlists : orders.Regroups orderDecl orderByPosition
      (.map [("line", .list [line]), ("no", .int 7)]) := by
    have hline : orders.Regroups lineDecl (.list [.text "nut", .int 3]) line :=
      .here rfl (Nat.le_refl 2)
    have hmany : lineDecl.occurs.isSingle = false := rfl
    apply Regroups.inside rfl rfl List.mem_cons_self hline
    · rw [hmany]
      exact nofun
    · exact .repeated hmany [] []
    · exact .entry [] _
  have hline : line.Reordered (.map [("count", .int 3), ("article", .text "nut")]) :=
    .map (by decide) rfl (List.forall₂_same.2 fun value _ => .same value) (.swap _ _ _)
  refine .trans (.regrouped hlists) (.reordered ?_)
  refine .map (by decide) ?_ ?_ (.swap _ _ _)
  · rfl
  · exact .cons (.list (.cons hline .nil)) (.cons (.same (.int 7)) .nil)

/-- An order is the same one whether its line is given by position or by key, and wherever its
number is. -/
theorem construct_orderByKey :
    define ⟨"urn:orders", "o"⟩ [.element orderDecl] = .ok orders ∧
      orders.construct "order" orderByPosition =
        .ok (order (.int 7) (.text "nut") (.int 3)) ∧
      orders.construct "order" orderByKey = .ok (order (.int 7) (.text "nut") (.int 3)) := by
  have hbuilt : orders.construct "order" orderByPosition =
      .ok (order (.int 7) (.text "nut") (.int 3)) := rfl
  have hsame := construct_rearranged (assembled_of_define define_orders) element?_order
    rearranges_order
  rw [hbuilt] at hsame
  exact ⟨define_orders, hbuilt, mapError_eq_ok.1 hsame.symm⟩

end Schema

end TypedXml
