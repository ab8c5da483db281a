import TypedXml.Proofs.Xml.Tags
import TypedXml.Xml.Token

/-!
# Splitting what was written into tokens

A document that is written token by token is split into the same tokens again.  Tags end at the
first `>` outside of quotes, and no other one is written in them.  A run of text goes on up to the
next `<`, so two runs must not stand side by side.
-/

set_option autoImplicit false

namespace TypedXml.Xml

namespace Token

/-- Whether a token is a run of text. -/
def isText : Token → Bool
  | .text _ => true
  | _ => false

/-! ## The end of a tag -/

/-- Characters without a `>` outside of quotes, all of whose quotes are closed. -/
def IsTagText (cs : List Char) : Prop :=
  ∀ seen rest, splitTag seen none (cs ++ rest) = splitTag (cs.reverse ++ seen) none rest

/-- Two parts can stand in a tag together if each of them can. -/
theorem isTagText_append {cs ds : List Char} (hcs : IsTagText cs) (hds : IsTagText ds) :
    IsTagText (cs ++ ds) := by
  intro seen rest
  rw [List.append_assoc, hcs, hds, List.reverse_append, List.append_assoc]

/-- A character that is no quote and no `>` can stand in a tag. -/
theorem isTagText_singleton {c : Char} (hclose : c ≠ '>') (hquote : c ≠ '"') (hapos : c ≠ '\'') :
    IsTagText [c] := by
  intro seen rest
  rw [List.singleton_append, splitTag]
  simp [hclose, hquote, hapos]

/-- Characters without quotes and without `>` can stand in a tag. -/
theorem isTagText_of_isUnquoted {cs : List Char} (h : IsUnquoted cs) : IsTagText cs := by
  induction cs with
  | nil =>
    intro seen rest
    rfl
  | cons c cs ih =>
    rw [IsUnquoted, List.forall_mem_cons] at h
    have hfirst := h.1
    simp only [List.mem_cons, List.not_mem_nil, or_false, not_or] at hfirst
    exact isTagText_append (isTagText_singleton hfirst.2.2 hfirst.1 hfirst.2.1) (ih h.2)

/-- The characters of a value are passed up to the quote behind them. -/
theorem splitTag_quoted {value : List Char} (h : '"' ∉ value) (seen rest : List Char) :
    splitTag seen (some '"') (value ++ '"' :: rest) =
      splitTag ('"' :: value.reverse ++ seen) none rest := by
  induction value generalizing seen with
  | nil => rfl
  | cons c value ih =>
    rw [List.mem_cons, not_or] at h
    have hquote : (c == '"') = false := by
      rw [beq_eq_false_iff_ne]
      exact Ne.symm h.1
    rw [List.cons_append, splitTag, hquote]
    simp only [Bool.false_eq_true, if_false]
    rw [ih h.2, List.reverse_cons]
    simp

/-- A value between its quotes can stand in a tag. -/
theorem isTagText_quoted {value : List Char} (h : '"' ∉ value) :
    IsTagText ('"' :: value ++ ['"']) := by
  intro seen rest
  have hopen : splitTag seen none ('"' :: (value ++ '"' :: rest)) =
      splitTag ('"' :: seen) (some '"') (value ++ '"' :: rest) := rfl
  have hsplit : '"' :: value ++ ['"'] ++ rest = '"' :: (value ++ '"' :: rest) := by
    simp
  rw [hsplit, hopen, splitTag_quoted h]
  simp

/-- A written attribute can stand in a tag if its key has no quotes. -/
theorem isTagText_writeAttribute {entry : List Char × List Char} (h : IsUnquoted entry.1) :
    IsTagText (Tag.writeAttribute entry) := by
  have hvalue : '"' ∉ escape entry.2 := not_mem_escape (by decide) (by decide)
  have hblank : IsTagText [' '] := isTagText_singleton (by decide) (by decide) (by decide)
  have hequals : IsTagText ['='] := isTagText_singleton (by decide) (by decide) (by decide)
  have hparts := isTagText_append (isTagText_append hblank (isTagText_of_isUnquoted h))
    (isTagText_append hequals (isTagText_quoted hvalue))
  unfold Tag.writeAttribute
  simpa using hparts

/-- A written tag is whole if its name and its keys have no quotes. -/
theorem isTagText_write {name : List Char} (hname : IsUnquoted name)
    {attributes : List (List Char × List Char)}
    (hkeys : ∀ entry ∈ attributes, IsUnquoted entry.1) :
    IsTagText (Tag.write name attributes) := by
  rw [Tag.write_eq]
  refine isTagText_append (isTagText_of_isUnquoted hname) ?_
  induction attributes with
  | nil =>
    intro seen rest
    rfl
  | cons entry rest ih =>
    rw [List.forall_mem_cons] at hkeys
    rw [List.flatMap_cons]
    exact isTagText_append (isTagText_writeAttribute hkeys.1) (ih hkeys.2)

/-- A whole tag is split off in front of its `>`. -/
theorem splitTag_of_isTagText {cs : List Char} (h : IsTagText cs) (rest : List Char) :
    splitTag [] none (cs ++ '>' :: rest) = some (cs, rest) := by
  rw [h, splitTag]
  simp

/-- A tag is whole if it is split off in front of a `>`. -/
theorem isTagText_iff {cs : List Char} :
    IsTagText cs ↔ splitTag [] none (cs ++ ['>']) = some (cs, []) := by
  refine ⟨fun h => splitTag_of_isTagText h [], ?_⟩
  -- whatever was seen before and whichever quote is open, so that the induction goes through
  suffices hsplit : ∀ (quote : Option Char) (before : List Char),
      splitTag before quote (cs ++ ['>']) = some (before.reverse ++ cs, []) →
        ∀ seen rest, splitTag seen quote (cs ++ rest) = splitTag (cs.reverse ++ seen) none rest by
    intro h
    exact hsplit none [] h
  induction cs with
  | nil =>
    intro quote before h seen rest
    cases quote with
    | none => rfl
    | some quote =>
      simp [splitTag] at h
  | cons c cs ih =>
    intro quote before h seen rest
    have hmoved : before.reverse ++ c :: cs = (c :: before).reverse ++ cs := by simp
    rw [hmoved, List.cons_append] at h
    rw [List.cons_append, List.reverse_cons, List.append_assoc]
    cases quote with
    | some quote =>
      rw [splitTag] at h ⊢
      exact ih _ _ h _ _
    | none =>
      rw [splitTag] at h ⊢
      by_cases hclose : (c == '>') = true
      · rw [if_pos hclose] at h
        cases cs with
        | nil => simp at h
        | cons => simp at h
      · rw [if_neg hclose] at h ⊢
        exact ih _ _ h _ _

/-! ## Single tokens -/

/-- A token that is read as it is written. -/
inductive Readable : Token → Prop
  | opening {tag : List Char} (whole : IsTagText tag) (start : IsTagStart tag)
      (unslashed : tag.getLast? ≠ some '/') : Readable (.opening tag)
  | empty {tag : List Char} (whole : IsTagText tag) (start : IsTagStart tag)
      (nonempty : tag ≠ []) : Readable (.empty tag)
  | closing {name : List Char} (plain : '>' ∉ name) : Readable (.closing name)
  | text {run : List Char} (nonempty : run ≠ []) (plain : '<' ∉ run) : Readable (.text run)
  | instruction {body : List Char} (nonempty : body ≠ []) (plain : '>' ∉ body) :
      Readable (.instruction body)

/-- A `<` begins a tag if none of the characters that begin other markup follows. -/
theorem next_of_isTagStart {cs : List Char} (h : IsTagStart cs) (hne : cs ≠ []) :
    next ('<' :: cs) = (nextTag cs).map some := by
  obtain ⟨first, rest, rfl⟩ := List.exists_cons_of_ne_nil hne
  have hfirst := h first rfl
  unfold next
  split
  · next heq => cases heq
  · next heq =>
    cases heq
    split
    · next heq => cases heq
    · next heq =>
      cases heq
      simp at hfirst
    · next heq =>
      cases heq
      simp at hfirst
    · next heq =>
      cases heq
      simp at hfirst
    · rfl
  · next hlt heq =>
    cases heq
    exact absurd rfl hlt

/-- A whole tag that has no slash at its end is read as a start tag. -/
theorem nextTag_opening {content : List Char} (h : IsTagText content)
    (hlast : content.getLast? ≠ some '/') (cs : List Char) :
    nextTag (content ++ '>' :: cs) = .ok (.opening content, cs) := by
  have hslash : ∀ seen, content.reverse ≠ '/' :: seen := by
    intro seen hreverse
    rw [← List.head?_reverse, hreverse] at hlast
    exact hlast rfl
  unfold nextTag
  rw [splitTag_of_isTagText h]
  simp only

/-- A whole tag with a slash behind it is read as that of an empty element. -/
theorem nextTag_empty {content : List Char} (h : IsTagText content) (cs : List Char) :
    nextTag (content ++ '/' :: '>' :: cs) = .ok (.empty content, cs) := by
  have hslash : IsTagText ['/'] := isTagText_singleton (by decide) (by decide) (by decide)
  have hsplit : content ++ '/' :: '>' :: cs = (content ++ ['/']) ++ '>' :: cs := by
    simp
  unfold nextTag
  rw [hsplit, splitTag_of_isTagText (isTagText_append h hslash)]
  simp only [List.reverse_append, List.reverse_singleton, List.singleton_append,
    List.reverse_reverse]

/-- A tag with attributes ends with a quote. -/
theorem getLast?_write {name : List Char} (hname : name.getLast? ≠ some '/')
    (attributes : List (List Char × List Char)) :
    (Tag.write name attributes).getLast? ≠ some '/' := by
  rw [Tag.write_eq]
  rcases List.eq_nil_or_concat attributes with rfl | ⟨before, entry, rfl⟩
  · rwa [List.flatMap_nil, List.append_nil]
  · rw [List.concat_eq_append, List.flatMap_append, List.flatMap_singleton, Tag.writeAttribute,
      ← List.append_assoc, ← List.append_assoc, List.getLast?_append]
    simp

/-- Characters without `>` are taken up to the one behind them. -/
theorem upToClose_append {cs : List Char} (h : '>' ∉ cs) (rest : List Char) :
    upToClose (cs ++ '>' :: rest) = (cs, rest) := by
  have hopen : ∀ c ∈ cs, (c != '>') = true := by
    intro c hc
    rw [bne_iff_ne]
    rintro rfl
    exact h hc
  unfold upToClose
  rw [List.takeWhile_append_of_pos hopen, List.dropWhile_append_of_pos hopen,
    List.takeWhile_cons_of_neg (by simp), List.dropWhile_cons_of_neg (by simp), List.append_nil]
  rfl

/-- A written end tag is read as it is. -/
theorem next_closing {name : List Char} (h : '>' ∉ name) (cs : List Char) :
    next ((Token.closing name).write ++ cs) = .ok (some (.closing name, cs)) := by
  have hwrite : (Token.closing name).write ++ cs = '<' :: '/' :: (name ++ '>' :: cs) := by
    unfold write
    simp
  rw [hwrite]
  show Except.ok (some (Token.closing (upToClose (name ++ '>' :: cs)).1,
    (upToClose (name ++ '>' :: cs)).2)) = _
  rw [upToClose_append h]

/-- A written instruction is read as it is. -/
theorem next_instruction {body : List Char} (hne : body ≠ []) (h : '>' ∉ body)
    (cs : List Char) :
    next ((Token.instruction body).write ++ cs) = .ok (some (.instruction body, cs)) := by
  have hwrite : (Token.instruction body).write ++ cs =
      '<' :: '?' :: ((body ++ ['?']) ++ '>' :: cs) := by
    unfold write
    simp
  have hclose : '>' ∉ body ++ ['?'] := by
    rw [List.mem_append, List.mem_singleton]
    rintro (hmem | heq)
    · exact h hmem
    · cases heq
  rw [hwrite]
  show (nextInstruction ((body ++ ['?']) ++ '>' :: cs)).map some = _
  unfold nextInstruction
  rw [upToClose_append hclose]
  simp only [List.reverse_append, List.reverse_singleton, List.singleton_append]
  cases hbody : body.reverse with
  | nil => exact absurd (List.reverse_eq_nil_iff.1 hbody) hne
  | cons c rest =>
    have hback : (c :: rest).reverse = body := by
      rw [← hbody, List.reverse_reverse]
    simp [hback, Except.map]

/-- A run of text is read up to a tag or to the end. -/
theorem next_text {run : List Char} (hne : run ≠ []) (h : '<' ∉ run) {cs : List Char}
    (hcs : cs = [] ∨ ∃ rest, cs = '<' :: rest) :
    next ((Token.text run).write ++ cs) = .ok (some (.text run, cs)) := by
  have hopen : ∀ c ∈ run, (c != '<') = true := by
    intro c hc
    rw [bne_iff_ne]
    rintro rfl
    exact h hc
  cases run with
  | nil => exact absurd rfl hne
  | cons first rest =>
    have hfirst : first ≠ '<' := by
      rintro rfl
      exact h List.mem_cons_self
    rw [List.forall_mem_cons] at hopen
    have hsplit : (rest ++ cs).takeWhile (· != '<') = rest ∧
        (rest ++ cs).dropWhile (· != '<') = cs := by
      rw [List.takeWhile_append_of_pos hopen.2, List.dropWhile_append_of_pos hopen.2]
      rcases hcs with rfl | ⟨after, rfl⟩
      · simp
      · simp
    unfold write next
    rw [List.cons_append]
    split
    · next heq => cases heq
    · next heq =>
      cases heq
      exact absurd rfl hfirst
    · next heq =>
      cases heq
      rw [hsplit.1, hsplit.2]

/-- A readable token is taken off the front of a text; a run of text needs a tag behind it. -/
theorem next_write {token : Token} (h : token.Readable) {cs : List Char}
    (hcs : token.isText = true → cs = [] ∨ ∃ rest, cs = '<' :: rest) :
    next (token.write ++ cs) = .ok (some (token, cs)) := by
  cases h with
  | @opening tag whole start unslashed =>
    have hwrite : (Token.opening tag).write ++ cs = '<' :: (tag ++ '>' :: cs) := by
      unfold write
      simp
    have hstart : IsTagStart (tag ++ '>' :: cs) := by
      cases tag with
      | nil =>
        rintro c ⟨⟩
        decide
      | cons first rest => exact isTagStart_append start (List.cons_ne_nil _ _)
    rw [hwrite, next_of_isTagStart hstart (by simp), nextTag_opening whole unslashed]
    rfl
  | @empty tag whole start nonempty =>
    have hwrite : (Token.empty tag).write ++ cs = '<' :: (tag ++ '/' :: '>' :: cs) := by
      unfold write
      simp
    rw [hwrite, next_of_isTagStart (isTagStart_append start nonempty) (by simp),
      nextTag_empty whole]
    rfl
  | closing plain => exact next_closing plain cs
  | text nonempty plain => exact next_text nonempty plain (hcs rfl)
  | instruction nonempty plain => exact next_instruction nonempty plain cs

end Token

/-! ## Whole documents -/

/-- Tokens that are read as they are written: each of them is, and no two runs of text stand side
by side.  `after` tells whether a run stands in front. -/
def Lexable : (after : Bool) → List Token → Prop
  | _, [] => True
  | after, token :: rest =>
    token.Readable ∧ (token.isText = true → after = false) ∧ Lexable token.isText rest

/-- Tokens that are read behind a run of text are read behind a tag as well. -/
theorem Lexable.mono {toks : List Token} {after : Bool} (h : Lexable after toks) :
    Lexable false toks := by
  cases toks with
  | nil => trivial
  | cons token rest => exact ⟨h.1, fun _ => rfl, h.2.2⟩

/-- What follows a run of text begins with a tag. -/
theorem write_start_of_lexable {toks : List Token} (h : Lexable true toks) :
    toks.flatMap Token.write = [] ∨ ∃ rest, toks.flatMap Token.write = '<' :: rest := by
  cases toks with
  | nil => exact Or.inl rfl
  | cons token rest =>
    refine Or.inr ?_
    rw [List.flatMap_cons]
    cases h.1 with
    | opening => exact ⟨_, rfl⟩
    | empty => exact ⟨_, rfl⟩
    | closing => exact ⟨_, rfl⟩
    | text =>
      have hafter := h.2.1 rfl
      cases hafter
    | instruction => exact ⟨_, rfl⟩

/-- The tokens of a text are its first one and those of what is behind it. -/
theorem tokens_of_next {cs rest : List Char} {token : Token}
    (h : Token.next cs = .ok (some (token, rest))) :
    tokens cs = ⟨token :: (tokens rest).list, (tokens rest).fault⟩ := by
  rw [tokens]
  split
  · next heq =>
    rw [h] at heq
    cases heq
  · next heq =>
    rw [h] at heq
    cases heq
  · next heq =>
    rw [h] at heq
    cases heq
    rfl

/-- The empty text has no tokens. -/
theorem tokens_nil : tokens [] = ⟨[], none⟩ := by
  rw [tokens]
  rfl

/-- Tokens that are written one after the other are read as they are. -/
theorem tokens_flatMap_write {toks : List Token} {after : Bool} (h : Lexable after toks) :
    tokens (toks.flatMap Token.write) = ⟨toks, none⟩ := by
  induction toks generalizing after with
  | nil => exact tokens_nil
  | cons token rest ih =>
    rw [List.flatMap_cons]
    have hnext : Token.next (token.write ++ rest.flatMap Token.write) =
        .ok (some (token, rest.flatMap Token.write)) := by
      refine Token.next_write h.1 ?_
      intro htext
      apply write_start_of_lexable
      rw [← htext]
      exact h.2.2
    rw [tokens_of_next hnext, ih h.2.2]

end TypedXml.Xml
