import TypedXml.Error
import TypedXml.PrefixTable
import TypedXml.Xml.Depth
import TypedXml.Xml.Tag
import TypedXml.Xml.Token

/-!
# Writing documents

An element tree is turned into tokens and the tokens into text.  Every namespace of the tree gets
one prefix, declared on the root element; indentation puts a line break before every tag that does
not follow text.
-/

set_option autoImplicit false

namespace TypedXml.Xml

namespace Element

/-- The table with prefixes for the namespaces of attribute names. -/
def declareAttributes (table : PrefixTable) (entries : List (Name × String)) : PrefixTable :=
  entries.foldl (fun table entry => match entry.1.space with
    | some uri => table.declare uri none
    | none => table) table

mutual

/-- The table with prefixes for the namespaces of a tree: of each element first its own namespace,
then those of its attributes, then those of its children. -/
def declareSpaces (table : PrefixTable) : Element → PrefixTable
  | ⟨name, preferred, attributes, _, children⟩ =>
    let own := match name.space with
      | some uri => table.declare uri preferred
      | none => table
    declareSpacesAll (declareAttributes own attributes.entries) children

/-- The table with prefixes for the namespaces of a list of trees. -/
def declareSpacesAll (table : PrefixTable) : List Element → PrefixTable
  | [] => table
  | element :: rest => declareSpacesAll (declareSpaces table element) rest

end

/-- The prefixes of a document, for all namespaces of its tree. -/
def prefixes (root : Element) : PrefixTable :=
  declareSpaces PrefixTable.empty root

/-- A name as it is written: the prefix of its namespace and a colon before the local part. -/
def writtenName (table : PrefixTable) (name : Name) : List Char :=
  match name.space.bind table.prefixOf? with
  | some label => label.toList ++ ':' :: name.localName.toList
  | none => name.localName.toList

/-- The namespace declarations of a table, by key and value. -/
def declarations (table : PrefixTable) : List (List Char × List Char) :=
  table.bindings.map fun binding => ("xmlns:".toList ++ binding.2.toList, binding.1.toList)

/-- Attributes by their written names and their values. -/
def writtenAttributes (table : PrefixTable) (attributes : Attributes) :
    List (List Char × List Char) :=
  attributes.entries.map fun entry => (writtenName table entry.1, entry.2.toList)

mutual

/-- The tokens of a tree; `extra` are attributes that are written before its own. -/
def tokens (table : PrefixTable) (extra : List (List Char × List Char)) : Element → List Token
  | ⟨name, _, attributes, text, children⟩ =>
    let written := writtenName table name
    let tag := Tag.write written (extra ++ writtenAttributes table attributes)
    let run := (text.getD "").toList
    if run.isEmpty && children.isEmpty then [.empty tag]
    else
      .opening tag :: (if run.isEmpty then [] else [.text (escape run)]) ++
        tokensAll table children ++ [.closing written]

/-- The tokens of a list of trees, one tree after the other. -/
def tokensAll (table : PrefixTable) : List Element → List Token
  | [] => []
  | element :: rest => tokens table [] element ++ tokensAll table rest

end

end Element

/-- A line break with the indentation of a level. -/
def lineBreak (width level : Nat) : Token :=
  .text ('\n' :: List.replicate (width * level) ' ')

/-- Tokens with line breaks: before every tag but the first, unless it follows text. -/
def indentFrom (width : Nat) : (level : Nat) → (afterTag : Bool) → List Token → List Token
  | _, _, [] => []
  | level, afterTag, token :: rest =>
    let gap (level : Nat) : List Token := if afterTag then [lineBreak width level] else []
    match token with
    | .opening _ => gap level ++ token :: indentFrom width (level + 1) true rest
    | .closing _ => gap (level - 1) ++ token :: indentFrom width (level - 1) true rest
    | .text _ => token :: indentFrom width level false rest
    | _ => gap level ++ token :: indentFrom width level true rest

/-- The XML declaration. -/
def xmlDeclaration : Token :=
  .instruction "xml version=\"1.0\" encoding=\"utf-8\"".toList

/-- The tokens of a document. -/
def documentTokens (options : RenderOptions) (root : Element) : List Token :=
  let table := root.prefixes
  let written := (if options.declaration then [xmlDeclaration] else []) ++
    root.tokens table (Element.declarations table)
  match options.indent with
  | none => written
  | some width => indentFrom width 0 false written

/-- The text of a document. -/
def render (options : RenderOptions) (root : Element) : Except Error String :=
  match options.checkDepth root.depth with
  | .error exceeded => .error (.limit exceeded)
  | .ok () => .ok (String.ofList ((documentTokens options root).flatMap Token.write))

end TypedXml.Xml
