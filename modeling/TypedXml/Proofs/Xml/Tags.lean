import TypedXml.Proofs.Name
import TypedXml.Proofs.Xml.References
import TypedXml.Xml.Tag

/-!
# Reading tags that were written

The characters of a written tag are a name and, for every attribute, a key and an escaped value in
quotes.  Reading walks over them stage by stage; here each stage is passed with one step for all
the characters that belong to it, and the attributes come out in their order.
-/

set_option autoImplicit false

namespace TypedXml.Xml

namespace Tag

/-- The characters that an attribute is written with. -/
def writeAttribute (entry : List Char × List Char) : List Char :=
  ' ' :: entry.1 ++ ['=', '"'] ++ escape entry.2 ++ ['"']

/-- A tag is written as its name and its attributes, one behind the other. -/
theorem write_eq (name : List Char) (attributes : List (List Char × List Char)) :
    write name attributes = name ++ attributes.flatMap writeAttribute := rfl

/-! ## Stages -/

/-- The characters of a key are passed up to the equals sign behind them. -/
theorem itemsFrom_inKey {key : List Char} (hword : IsWord key) (hequals : '=' ∉ key)
    (start pos : Nat) (seen rest : List Char) :
    ∃ pos', itemsFrom (.inKey start seen) pos (key ++ '=' :: rest) =
      itemsFrom (.beforeValue start (seen.reverse ++ key)) pos' rest := by
  induction key generalizing pos seen with
  | nil =>
    refine ⟨pos + 1, ?_⟩
    rw [List.append_nil]
    rfl
  | cons c key ih =>
    rw [IsWord, List.forall_mem_cons] at hword
    rw [List.mem_cons, not_or] at hequals
    have hother : (c == '=') = false := beq_eq_false_iff_ne.2 (Ne.symm hequals.1)
    obtain ⟨pos', hrest⟩ := ih hword.2 hequals.2 (pos + c.utf8Size) (c :: seen)
    refine ⟨pos', ?_⟩
    rw [List.cons_append, itemsFrom, hother, hword.1]
    simp only [Bool.false_eq_true, if_false]
    rw [hrest, List.reverse_cons, List.append_assoc]
    rfl

/-- The characters of a value are passed up to the quote behind them. -/
theorem itemsFrom_inValue {value : List Char} (h : '"' ∉ value) (start pos : Nat)
    (key seen rest : List Char) :
    ∃ pos', itemsFrom (.inValue start key '"' seen) pos (value ++ '"' :: rest) =
      .attribute ⟨key, start, seen.reverse ++ value⟩ :: itemsFrom .between pos' rest := by
  induction value generalizing pos seen with
  | nil =>
    refine ⟨pos + 1, ?_⟩
    rw [List.append_nil]
    rfl
  | cons c value ih =>
    rw [List.mem_cons, not_or] at h
    have hquote : (c == '"') = false := by
      rw [beq_eq_false_iff_ne]
      exact Ne.symm h.1
    obtain ⟨pos', hrest⟩ := ih h.2 (pos + c.utf8Size) (c :: seen)
    refine ⟨pos', ?_⟩
    rw [List.cons_append, itemsFrom, hquote]
    simp only [Bool.false_eq_true, if_false]
    rw [hrest, List.reverse_cons, List.append_assoc]
    rfl

/-- One attribute is read with its key and its escaped value. -/
theorem itemsFrom_writeAttribute {entry : List Char × List Char} (h : IsKey entry.1)
    (pos : Nat) (rest : List Char) :
    ∃ start pos', itemsFrom .between pos (writeAttribute entry ++ rest) =
      .attribute ⟨entry.1, start, escape entry.2⟩ :: itemsFrom .between pos' rest := by
  obtain ⟨key, value⟩ := entry
  obtain ⟨first, others, rfl⟩ := List.exists_cons_of_ne_nil h.nonempty
  have hword := List.forall_mem_cons.1 h.word
  have hvalue : '"' ∉ escape value := not_mem_escape (by decide) (by decide)
  obtain ⟨pos₁, hkey⟩ := itemsFrom_inKey hword.2 h.equals (pos + 1) (pos + 1 + first.utf8Size)
    [first] ('"' :: (escape value ++ '"' :: rest))
  obtain ⟨pos₂, hread⟩ := itemsFrom_inValue hvalue (pos + 1) (pos₁ + 1) (first :: others) [] rest
  refine ⟨pos + 1, pos₂, ?_⟩
  have hsplit : writeAttribute (first :: others, value) ++ rest =
      ' ' :: first :: (others ++ '=' :: '"' :: (escape value ++ '"' :: rest)) := by
    unfold writeAttribute
    simp
  rw [hsplit, itemsFrom]
  have hbetween : itemsFrom .between (pos + 1)
      (first :: (others ++ '=' :: '"' :: (escape value ++ '"' :: rest))) =
      itemsFrom (.inKey (pos + 1) [first]) (pos + 1 + first.utf8Size)
        (others ++ '=' :: '"' :: (escape value ++ '"' :: rest)) := by
    rw [itemsFrom, hword.1]
    rfl
  show itemsFrom .between (pos + 1) _ = _
  rw [hbetween, hkey]
  exact hread

/-! ## Whole tags -/

/-- Attributes are read one by one, each with its key and its escaped value. -/
theorem itemsFrom_attributes {attributes : List (List Char × List Char)}
    (h : ∀ entry ∈ attributes, IsKey entry.1) (pos : Nat) :
    ∃ written : List WrittenAttribute,
      itemsFrom .between pos (attributes.flatMap writeAttribute) = written.map .attribute ∧
        written.map (fun one => (one.key, one.value)) =
          attributes.map fun entry => (entry.1, escape entry.2) := by
  induction attributes generalizing pos with
  | nil => exact ⟨[], rfl, rfl⟩
  | cons entry rest ih =>
    rw [List.forall_mem_cons] at h
    obtain ⟨start, pos', hfirst⟩ := itemsFrom_writeAttribute h.1 pos (rest.flatMap writeAttribute)
    obtain ⟨written, hitems, hentries⟩ := ih h.2 pos'
    refine ⟨⟨entry.1, start, escape entry.2⟩ :: written, ?_, ?_⟩
    · rw [List.flatMap_cons, hfirst, hitems, List.map_cons]
    · rw [List.map_cons, List.map_cons, hentries]

/-- The name of a written tag ends in front of its attributes. -/
theorem takeWhile_name {name : List Char} (h : IsWord name)
    {attributes : List (List Char × List Char)} :
    (write name attributes).takeWhile (!Text.isMarkupSpace ·) = name ∧
      (write name attributes).dropWhile (!Text.isMarkupSpace ·) =
        attributes.flatMap writeAttribute := by
  have hname : ∀ c ∈ name, (!Text.isMarkupSpace c) = true := by
    intro c hc
    rw [h c hc, Bool.not_false]
  rw [write_eq, List.takeWhile_append_of_pos hname, List.dropWhile_append_of_pos hname]
  cases attributes with
  | nil => exact ⟨List.append_nil _, rfl⟩
  | cons entry rest =>
    rw [List.flatMap_cons, writeAttribute]
    constructor
    · exact List.append_nil _
    · rfl

/-- The name of a written tag is the one that it was written with. -/
theorem name_write {name : List Char} (h : IsWord name)
    (attributes : List (List Char × List Char)) : Tag.name (write name attributes) = name :=
  (takeWhile_name h).1

/-- The attributes of a written tag are read with their keys and escaped values, in order. -/
theorem items_write {name : List Char} (hname : IsWord name)
    {attributes : List (List Char × List Char)}
    (hkeys : ∀ entry ∈ attributes, IsKey entry.1) :
    ∃ written : List WrittenAttribute,
      items (write name attributes) = written.map .attribute ∧
        written.map (fun one => (one.key, one.value)) =
          attributes.map fun entry => (entry.1, escape entry.2) := by
  unfold items
  rw [(takeWhile_name hname).2]
  exact itemsFrom_attributes hkeys _

/-- Where no attribute is malformed, all of them are well-formed. -/
theorem wellFormed_map (written : List WrittenAttribute) :
    wellFormed (written.map .attribute) = written := by
  induction written with
  | nil => rfl
  | cons one rest ih => rw [List.map_cons, wellFormed, ih]

end Tag

end TypedXml.Xml
