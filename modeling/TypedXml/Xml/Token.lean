import TypedXml.Text.Blank
import TypedXml.Xml.Fault

/-!
# Tokens

A document is a sequence of tags, text runs, character data sections, comments, instructions and
document type declarations.  `Token.next` takes one token off the front of a text, `tokens` all of
them up to the first fault, and `Token.write` writes one.
-/

set_option autoImplicit false

namespace TypedXml.Xml

/-- A piece of a document; its characters are those between its delimiters. -/
inductive Token where
  | opening (tag : List Char)
  | empty (tag : List Char)
  | closing (tag : List Char)
  | text (run : List Char)
  | cdata (run : List Char)
  | comment (body : List Char)
  | instruction (body : List Char)
  | doctype (body : List Char)
  deriving DecidableEq, Repr

namespace Token

/-- A token with its delimiters. -/
def write : Token → List Char
  | .opening tag => '<' :: tag ++ ['>']
  | .empty tag => '<' :: tag ++ ['/', '>']
  | .closing tag => '<' :: '/' :: tag ++ ['>']
  | .text run => run
  | .cdata run => "<![CDATA[".toList ++ run ++ "]]>".toList
  | .comment body => "<!--".toList ++ body ++ "-->".toList
  | .instruction body => '<' :: '?' :: body ++ ['?', '>']
  | .doctype body => "<!DOCTYPE".toList ++ body ++ ['>']

/-- The characters up to a `>` and those behind it, or all of them if there is none. -/
def upToClose (cs : List Char) : List Char × List Char :=
  (cs.takeWhile (· != '>'), (cs.dropWhile (· != '>')).drop 1)

/-- The characters of a tag and those behind it.  A `>` between quotes belongs to the tag; `seen`
holds the characters so far in reverse and `quote` the quote that is open. -/
def splitTag (seen : List Char) (quote : Option Char) :
    List Char → Option (List Char × List Char)
  | [] => none
  | c :: rest =>
    match quote with
    | some q => splitTag (c :: seen) (if c == q then none else some q) rest
    | none =>
      if c == '>' then some (seen.reverse, rest)
      else splitTag (c :: seen) (if c == '"' || c == '\'' then some c else none) rest

/-- The characters up to the first `>` at which the characters so far, in reverse, complete the
markup, and those behind it. -/
def splitMarkup (complete : List Char → Bool) (seen : List Char) :
    List Char → Option (List Char × List Char)
  | [] => none
  | c :: rest =>
    if c == '>' && complete seen then some (seen.reverse, rest)
    else splitMarkup complete (c :: seen) rest

/-- What is left of a list behind a given beginning, where the case of letters does not count. -/
def afterFolded? : List Char → List Char → Option (List Char)
  | [], cs => some cs
  | _ :: _, [] => none
  | p :: ps, c :: cs => if c.toUpper == p then afterFolded? ps cs else none

/-- A comment, from its exclamation mark on, is complete with two hyphens that are not part of its
beginning. -/
def isWholeComment (seen : List Char) : Bool :=
  4 < seen.length && ['-', '-'].isPrefixOf seen

/-- A section of character data is complete with two closing brackets. -/
def isWholeCdata (seen : List Char) : Bool :=
  [']', ']'].isPrefixOf seen

/-- A document type declaration is complete when its inner brackets are balanced. -/
def isWholeDoctype (seen : List Char) : Bool :=
  seen.count '<' == seen.count '>'

/-- The token that complete markup of a kind, from its exclamation mark on, stands for. -/
def ofBang (markup : Markup) (content : List Char) : Except Fault Token :=
  match markup with
  | .comment =>
    match afterFolded? "!--".toList content with
    | some body => .ok (.comment (body.take (body.length - 2)))
    | none => .error (.cutShort .comment)
  | .cdata =>
    match afterFolded? "![CDATA[".toList content with
    | some body => .ok (.cdata (body.take (body.length - 2)))
    | none => .error (.cutShort .cdata)
  | _ =>
    match afterFolded? "!DOCTYPE".toList content with
    | some body =>
      if body.all Text.isMarkupSpace then .error .emptyDoctype else .ok (.doctype body)
    | none => .error (.cutShort .doctype)

/-- The token that begins with `<` and an exclamation mark, and what is behind it. -/
def nextBang (markup : Markup) (complete : List Char → Bool) (rest : List Char) :
    Except Fault (Token × List Char) :=
  match splitMarkup complete ['!'] rest with
  | none => .error (.cutShort markup)
  | some (content, rest) => (ofBang markup content).map (·, rest)

/-- The processing instruction whose characters begin behind `<?`, and what is behind it. -/
def nextInstruction (cs : List Char) : Except Fault (Token × List Char) :=
  let (body, rest) := upToClose cs
  match body.reverse with
  | '?' :: seen@(_ :: _) => .ok (.instruction seen.reverse, rest)
  | _ => .error (.cutShort .instruction)

/-- The tag whose characters begin behind `<`, and what is behind it. -/
def nextTag (cs : List Char) : Except Fault (Token × List Char) :=
  match splitTag [] none cs with
  | none => .error (.cutShort .element)
  | some (content, rest) =>
    match content.reverse with
    | '/' :: seen => .ok (.empty seen.reverse, rest)
    | _ => .ok (.opening content, rest)

/-- The first token of a text and what is behind it; none at the end of the text, where a lone `<`
does not count. -/
def next : List Char → Except Fault (Option (Token × List Char))
  | [] => .ok none
  | '<' :: rest =>
    match rest with
    | [] => .ok none
    | '!' :: rest =>
      match rest with
      | [] => .error (.cutShort .bang)
      | c :: _ =>
        if c == '-' then (nextBang .comment isWholeComment rest).map some
        else if c == '[' then (nextBang .cdata isWholeCdata rest).map some
        else if c == 'D' || c == 'd' then (nextBang .doctype isWholeDoctype rest).map some
        else .error (.unknownBang (Text.Utf8.firstOctet c))
    | '/' :: rest => .ok (some (.closing (upToClose rest).1, (upToClose rest).2))
    | '?' :: rest => (nextInstruction rest).map some
    | rest => (nextTag rest).map some
  | c :: rest =>
    .ok (some (.text (c :: rest.takeWhile (· != '<')), rest.dropWhile (· != '<')))

/-- A tag ends in front of a shorter text. -/
theorem length_splitTag {seen cs content rest : List Char} {quote : Option Char}
    (h : splitTag seen quote cs = some (content, rest)) : rest.length < cs.length := by
  induction cs generalizing seen quote with
  | nil => simp [splitTag] at h
  | cons c cs ih =>
    simp only [splitTag] at h
    split at h
    · exact Nat.lt_succ_of_lt (ih h)
    · split at h
      · simp only [Option.some.injEq, Prod.mk.injEq] at h
        simp [h.2]
      · exact Nat.lt_succ_of_lt (ih h)

/-- Complete markup ends in front of a shorter text. -/
theorem length_splitMarkup {complete : List Char → Bool} {seen cs content rest : List Char}
    (h : splitMarkup complete seen cs = some (content, rest)) : rest.length < cs.length := by
  induction cs generalizing seen with
  | nil => simp [splitMarkup] at h
  | cons c cs ih =>
    simp only [splitMarkup] at h
    split at h
    · simp only [Option.some.injEq, Prod.mk.injEq] at h
      simp [h.2]
    · exact Nat.lt_succ_of_lt (ih h)

/-- What is behind a comment, a section or a document type is shorter than what begins there. -/
theorem length_nextBang {markup : Markup} {complete : List Char → Bool} {cs rest : List Char}
    {token : Token} (h : nextBang markup complete cs = .ok (token, rest)) :
    rest.length < cs.length := by
  simp only [nextBang] at h
  split at h
  · simp at h
  · next content rest' hsplit =>
    cases hbang : ofBang markup content with
    | error fault => simp [hbang, Except.map] at h
    | ok token' =>
      simp only [hbang, Except.map, Except.ok.injEq, Prod.mk.injEq] at h
      rw [← h.2]
      exact length_splitMarkup hsplit

/-- What is behind a `>` is no longer than the whole. -/
theorem length_upToClose (cs : List Char) : (upToClose cs).2.length ≤ cs.length := by
  simp only [upToClose, List.length_drop]
  exact Nat.le_trans (Nat.sub_le _ _) (List.dropWhile_sublist _).length_le

/-- What is behind an instruction is no longer than what begins there. -/
theorem length_nextInstruction {cs rest : List Char} {token : Token}
    (h : nextInstruction cs = .ok (token, rest)) : rest.length ≤ cs.length := by
  have hle := length_upToClose cs
  simp only [nextInstruction] at h
  split at h
  · simp only [Except.ok.injEq, Prod.mk.injEq] at h
    simpa [← h.2] using hle
  · simp at h

/-- What is behind a tag is shorter than what begins there. -/
theorem length_nextTag {cs rest : List Char} {token : Token}
    (h : nextTag cs = .ok (token, rest)) : rest.length < cs.length := by
  simp only [nextTag] at h
  split at h
  · simp at h
  · next content rest' hsplit =>
    have hlt := length_splitTag hsplit
    split at h <;>
    · simp only [Except.ok.injEq, Prod.mk.injEq] at h
      simpa [← h.2] using hlt

/-- Every token takes at least one character. -/
theorem length_next {cs rest : List Char} {token : Token}
    (h : next cs = .ok (some (token, rest))) : rest.length < cs.length := by
  have mapSome : ∀ {r : Except Fault (Token × List Char)},
      r.map some = .ok (some (token, rest)) → r = .ok (token, rest) := by
    intro r hr
    cases r with
    | error fault => simp [Except.map] at hr
    | ok pair => simpa [Except.map] using hr
  unfold next at h
  split at h
  · simp at h
  · split at h
    · simp at h
    · split at h
      · simp at h
      · split at h
        · have := length_nextBang (mapSome h)
          simp only [List.length_cons] at this ⊢
          omega
        · split at h
          · have := length_nextBang (mapSome h)
            simp only [List.length_cons] at this ⊢
            omega
          · split at h
            · have := length_nextBang (mapSome h)
              simp only [List.length_cons] at this ⊢
              omega
            · simp at h
    · next cs' =>
      have := length_upToClose cs'
      simp only [Except.ok.injEq, Option.some.injEq, Prod.mk.injEq] at h
      rw [← h.2]
      simp only [List.length_cons]
      omega
    · have := length_nextInstruction (mapSome h)
      simp only [List.length_cons]
      omega
    · have := length_nextTag (mapSome h)
      simp only [List.length_cons]
      omega
  · next c cs' _ =>
    simp only [Except.ok.injEq, Option.some.injEq, Prod.mk.injEq] at h
    rw [← h.2]
    exact Nat.lt_succ_of_le (List.dropWhile_sublist _).length_le

end Token

/-- The tokens of a text up to its end or its first fault. -/
structure Tokens where
  /-- The tokens, in order. -/
  list : List Token
  /-- The fault that ended the reading, if the text was not read to its end. -/
  fault : Option Fault
  deriving DecidableEq, Repr

/-- Split a text into tokens. -/
def tokens (cs : List Char) : Tokens :=
  match _h : Token.next cs with
  | .error fault => ⟨[], some fault⟩
  | .ok none => ⟨[], none⟩
  | .ok (some (token, rest)) =>
    let more := tokens rest
    ⟨token :: more.list, more.fault⟩
termination_by cs.length
decreasing_by exact Token.length_next _h

end TypedXml.Xml
