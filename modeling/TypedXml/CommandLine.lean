import TypedXml.FileTree
import TypedXml.Instance.JsonView
import TypedXml.Instance.Validity
import TypedXml.Json.Printer
import TypedXml.Soap

/-!
# Commands

Three commands work on SOAP documents: `inspect` shows what the envelope schema declares,
`validate` checks a document and `decode` prints one as JSON.  A command is read from its arguments
and carried out on the contents of its file without touching the outside.
-/

set_option autoImplicit false

namespace TypedXml.CommandLine

/-- A command with its arguments. -/
inductive Command where
  | inspect (json : Bool)
  | validate (file : String)
  | decode (file : String) (pretty : Bool)
  deriving DecidableEq, Repr

/-- Arguments taken apart: whether the one option is given, and the other arguments in order. -/
structure Arguments where
  option : Bool
  files : List String
  deriving DecidableEq, Repr

/-- Take arguments apart, where the option of a command has the given spellings.  An unknown or
repeated option is refused; behind `--` nothing is an option, and a single hyphen never is one. -/
def scan (spellings : List String) : Arguments → List String → Option Arguments
  | read, [] => some read
  | read, argument :: rest =>
    if argument == "--" then some { read with files := read.files ++ rest }
    else if spellings.contains argument then
      if read.option then none else scan spellings { read with option := true } rest
    else if argument.startsWith "-" && argument != "-" then none
    else scan spellings { read with files := read.files ++ [argument] } rest

/-- The one file that arguments name. -/
def Arguments.file? (arguments : Arguments) : Option String :=
  match arguments.files with
  | [file] => if file.isEmpty then none else some file
  | _ => none

/-- The command that arguments give, none if they are badly used. -/
def Command.parse? : List String → Option Command
  | "inspect" :: rest => do
    let arguments ← scan ["-j", "--json"] ⟨false, []⟩ rest
    if arguments.files.isEmpty then some (.inspect arguments.option) else none
  | "validate" :: rest => do
    let arguments ← scan [] ⟨false, []⟩ rest
    let file ← arguments.file?
    some (.validate file)
  | "decode" :: rest => do
    let arguments ← scan ["-p", "--pretty"] ⟨false, []⟩ rest
    let file ← arguments.file?
    some (.decode file arguments.option)
  | _ => none

/-- The file that a command reads, if it reads one. -/
def Command.file? : Command → Option String
  | .inspect _ => none
  | .validate file => some file
  | .decode file _ => some file

/-- What a command answers: its exit code and what it prints. -/
structure Outcome where
  exit : Nat
  out : String
  err : String
  deriving DecidableEq, Repr

/-- A command that did what it was asked for prints its answer. -/
def Outcome.success (out : String) : Outcome :=
  ⟨0, out, ""⟩

/-- A command that failed prints a message and nothing else. -/
def Outcome.failure (message : String) : Outcome :=
  ⟨1, "", "Error: " ++ message ++ "\n"⟩

/-- What badly used arguments lead to: a line on how to use the commands. -/
def Outcome.badUsage : Outcome :=
  ⟨2, "", "usage: inspect [--json] | validate FILE | decode [--pretty] FILE\n"⟩

/-- The type of an element in an overview: of a sequence without a name, its particles. -/
def describeType : TypeRef → String
  | .complex type =>
    match type.name? with
    | some name => name
    | none =>
      "sequence(" ++ String.intercalate ", " (type.particles.map fun particle =>
        particle.key ++ "[" ++ particle.occurs.text ++ "]") ++ ")"
  | type => type.text

/-- A declared type in an overview: its name and whether it is complex. -/
def describeDefinition (entry : String × TypeDefinition) : String :=
  match entry.2 with
  | .complex _ => entry.1 ++ " (complex)"
  | .simple _ => entry.1 ++ " (simple)"

/-- What a schema declares, as text. -/
def overview (schema : Schema) : String :=
  let elements := schema.elements.map fun decl =>
    "  " ++ decl.name ++ " : " ++ describeType decl.type ++ "\n"
  let types := schema.types.map fun entry => "  " ++ describeDefinition entry ++ "\n"
  "Schema: " ++ schema.text ++ "\n\n=== Global Elements ===\n" ++ String.join elements ++
    (if types.isEmpty then "" else "\n=== Global Types ===\n" ++ String.join types)

/-- What a schema declares, as JSON. -/
def overviewJson (schema : Schema) : Json :=
  .object [
    ("namespace", .object [("uri", .string schema.target.uri),
      ("prefix", .string schema.target.preferredPrefix)]),
    ("elements", .array (schema.elements.map fun decl =>
      .object [("name", .string decl.name), ("type", .string (describeType decl.type)),
        ("occurs", .string decl.occurs.text)])),
    ("types", .array (schema.types.map fun entry => .string (describeDefinition entry)))]

/-- The text in the octets of a file. -/
def fileText (contents : Except FileFault Octets) : Except FileFault String :=
  match contents with
  | .error fault => .error fault
  | .ok bytes =>
    match Text.ofOctets? bytes with
    | some text => .ok text
    | none => .error .notText

/-- The answer for the document in a file, or the failure to read it. -/
def onDocument (contents : Except FileFault Octets) (answer : Instance → Outcome) : Outcome :=
  match fileText contents with
  | .error fault => .failure fault.message
  | .ok text =>
    match Soap.parse text with
    | .error error => .failure error.message
    | .ok node => answer node

/-- The answer to whether an instance is valid. -/
def validity (node : Instance) : Outcome :=
  if Soap.schema.isValid node then .success "✓ Document is valid\n"
  else ⟨1, "✗ Document is invalid\n", ""⟩

/-- The outcome of a command, given the contents of the file that it reads. -/
def Command.run (contents : Except FileFault Octets) : Command → Outcome
  | .inspect false => .success (overview Soap.schema)
  | .inspect true => .success ((overviewJson Soap.schema).pretty ++ "\n")
  | .validate _ => onDocument contents validity
  | .decode _ pretty => onDocument contents fun node =>
    .success ((if pretty then node.toJson.pretty else node.toJson.compact) ++ "\n")

/-- The outcome of a command that is carried out at a place of a file tree. -/
def Command.runAt (place : Place) (command : Command) : Outcome :=
  command.run (match command.file? with
    | some file => place.read file
    | none => .error .missing)

end TypedXml.CommandLine
