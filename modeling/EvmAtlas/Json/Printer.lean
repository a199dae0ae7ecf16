import EvmAtlas.Json.Value

/-!
# Writing JSON

A value is written without blanks, or with every item and member on a line of its own,
indented by two blanks a level. An empty container stays on its line either way.
-/

namespace EvmAtlas.Json

/-- The characters of a string or key with its quotes. -/
def quoted (raw : List Char) : List Char :=
  '"' :: raw ++ ['"']

mutual

/-- A value without blanks. -/
def compact : Json → List Char
  | .null => ['n', 'u', 'l', 'l']
  | .bool true => ['t', 'r', 'u', 'e']
  | .bool false => ['f', 'a', 'l', 's', 'e']
  | .number text => text
  | .string raw => quoted raw
  | .array items => '[' :: compactItems items
  | .object members => '\x7b' :: compactMembers members

/-- The items of an array and its closing bracket. -/
def compactItems : List Json → List Char
  | [] => [']']
  | [last] => compact last ++ [']']
  | item :: rest => compact item ++ ',' :: compactItems rest

/-- The members of an object and its closing brace. -/
def compactMembers : List (List Char × Json) → List Char
  | [] => ['\x7d']
  | [(key, value)] => quoted key ++ ':' :: compact value ++ ['\x7d']
  | (key, value) :: rest => quoted key ++ ':' :: compact value ++ ',' :: compactMembers rest

end

/-- A new line and the indentation of a level. -/
def newLine (level : Nat) : List Char :=
  '\n' :: List.replicate (2 * level) ' '

mutual

/-- A value at a level of indentation. -/
def indented (level : Nat) : Json → List Char
  | .array [] => ['[', ']']
  | .array items => '[' :: newLine (level + 1) ++ indentedItems level items
  | .object [] => ['\x7b', '\x7d']
  | .object members => '\x7b' :: newLine (level + 1) ++ indentedMembers level members
  | .null => ['n', 'u', 'l', 'l']
  | .bool true => ['t', 'r', 'u', 'e']
  | .bool false => ['f', 'a', 'l', 's', 'e']
  | .number text => text
  | .string raw => quoted raw

/-- The items of an array, each on its line, and its closing bracket. -/
def indentedItems (level : Nat) : List Json → List Char
  | [] => newLine level ++ [']']
  | [last] => indented (level + 1) last ++ newLine level ++ [']']
  | item :: rest =>
      indented (level + 1) item ++ ',' :: newLine (level + 1) ++ indentedItems level rest

/-- The members of an object, each on its line, and its closing brace. -/
def indentedMembers (level : Nat) : List (List Char × Json) → List Char
  | [] => newLine level ++ ['\x7d']
  | [(key, value)] =>
      quoted key ++ ':' :: ' ' :: indented (level + 1) value ++ newLine level ++ ['\x7d']
  | (key, value) :: rest =>
      quoted key ++ ':' :: ' ' :: indented (level + 1) value ++ ',' :: newLine (level + 1)
        ++ indentedMembers level rest

end

def compactText (value : Json) : String :=
  String.ofList value.compact

/-- The text of a value with every item and member on a line of its own. -/
def indentedText (value : Json) : String :=
  String.ofList (value.indented 0)

end EvmAtlas.Json
