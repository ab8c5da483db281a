import TypedXml.Json.Basic
import TypedXml.Text.Quoted

/-!
# Writing JSON

A value is written compactly, or over several lines where every level is indented by two spaces
and an empty list or object stays on its line.
-/

set_option autoImplicit false

namespace TypedXml.Json

/-- A character as it stands inside a JSON string: quotes, backslashes and controls are escaped. -/
def escapeChar (c : Char) : List Char :=
  if c == '"' then ['\\', '"']
  else if c == '\\' then ['\\', '\\']
  else if c == '\n' then ['\\', 'n']
  else if c == '\r' then ['\\', 'r']
  else if c == '\t' then ['\\', 't']
  else if c.toNat == 8 then ['\\', 'b']
  else if c.toNat == 12 then ['\\', 'f']
  else if c.toNat < 16 then ['\\', 'u', '0', '0', '0'] ++ Text.hexNumber c.toNat
  else if c.toNat < 32 then ['\\', 'u', '0', '0'] ++ Text.hexNumber c.toNat
  else [c]

/-- A string as JSON writes it. -/
def quote (s : String) : String :=
  String.ofList ('"' :: s.toList.flatMap escapeChar ++ ['"'])

mutual

/-- The text of a value without white space. -/
def compact : Json → String
  | .null => "null"
  | .bool b => if b then "true" else "false"
  | .number n => String.ofList n.text
  | .string s => quote s
  | .array items => "[" ++ compactItems true items ++ "]"
  | .object members => "\x7b" ++ compactMembers true members ++ "\x7d"

/-- The compact text of list items; `first` tells whether no comma comes first. -/
def compactItems (first : Bool) : List Json → String
  | [] => ""
  | item :: rest => (if first then "" else ",") ++ compact item ++ compactItems false rest

/-- The compact text of object members; `first` tells whether no comma comes first. -/
def compactMembers (first : Bool) : List (String × Json) → String
  | [] => ""
  | (name, value) :: rest =>
    (if first then "" else ",") ++ quote name ++ ":" ++ compact value ++
      compactMembers false rest

end

/-- The line break before the lines of a level, with their indentation. -/
def newLine (level : Nat) : String :=
  String.ofList ('\n' :: List.replicate (2 * level) ' ')

mutual

/-- The text of a value over several lines, at a level of indentation. -/
def prettyAt (level : Nat) : Json → String
  | .null => "null"
  | .bool b => if b then "true" else "false"
  | .number n => String.ofList n.text
  | .string s => quote s
  | .array [] => "[]"
  | .array items => "[" ++ prettyItems (level + 1) true items ++ newLine level ++ "]"
  | .object [] => "\x7b\x7d"
  | .object members =>
    "\x7b" ++ prettyMembers (level + 1) true members ++ newLine level ++ "\x7d"

/-- The lines of list items; `first` tells whether no comma comes first. -/
def prettyItems (level : Nat) (first : Bool) : List Json → String
  | [] => ""
  | item :: rest =>
    (if first then "" else ",") ++ newLine level ++ prettyAt level item ++
      prettyItems level false rest

/-- The lines of object members; `first` tells whether no comma comes first. -/
def prettyMembers (level : Nat) (first : Bool) : List (String × Json) → String
  | [] => ""
  | (name, value) :: rest =>
    (if first then "" else ",") ++ newLine level ++ quote name ++ ": " ++ prettyAt level value ++
      prettyMembers level false rest

end

/-- The text of a value over several lines. -/
def pretty (json : Json) : String :=
  prettyAt 0 json

end TypedXml.Json
