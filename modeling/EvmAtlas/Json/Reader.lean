import EvmAtlas.Json.Value

/-!
# Reading JSON

The reader is a machine that takes one character a step. Between steps it knows the
containers that are open, innermost first, and its `Mode`: what it is in the middle of,
or what may come next. A text is JSON if the machine takes all of it and ends with one
complete value.
-/

namespace EvmAtlas.Json

/-- A container whose end has not been read. Items and members are held last first. -/
inductive Opened where
  | array (items : List Json)
  | object (members : List (List Char × Json))
  /-- An object in the middle of a member. -/
  | member (members : List (List Char × Json)) (key : List Char)

/-- How far an escape inside a string has been read. -/
inductive Escape where
  | none
  | slash
  | digits (missing : Nat)

/-- How far a number has been read. -/
inductive NumberPart where
  | minus | zero | whole | point | fraction | exponentMark | exponentSign | exponent

/-- What the reader is in the middle of, or what may come next. -/
inductive Mode where
  /-- A value has to begin. -/
  | value
  /-- The first item of an array, or its end. -/
  | firstItem
  /-- The first key of an object, or its end. -/
  | firstKey
  /-- A key has to begin. -/
  | key
  /-- The colon after a key. -/
  | colon
  /-- What comes after a value inside a container. -/
  | after
  /-- The middle of a word, with the characters still missing. -/
  | word (missing : List Char) (value : Json)
  /-- The middle of a string, last character first. -/
  | string (text : List Char) (escape : Escape) (isKey : Bool)
  /-- The middle of a number, last character first. -/
  | number (text : List Char) (part : NumberPart)
  /-- One complete value. -/
  | done (value : Json)

/-- The reader between two characters. -/
structure Reader where
  opened : List Opened
  mode : Mode

namespace Reader

/-- How many containers may be open at once. -/
def depthLimit : Nat := 10000

/-- The reader before the first character. -/
def start : Reader := ⟨[], .value⟩

/-- White space between tokens. -/
def isSpace (char : Char) : Bool :=
  char == ' ' || char == '\t' || char == '\r' || char == '\n'

/-- Put a complete value where it belongs. -/
def complete (value : Json) : List Opened → Reader
  | [] => ⟨[], .done value⟩
  | .array items :: rest => ⟨.array (value :: items) :: rest, .after⟩
  | .member members key :: rest => ⟨.object ((key, value) :: members) :: rest, .after⟩
  | .object members :: rest => ⟨.object members :: rest, .after⟩

def openContainer (container : Opened) (opened : List Opened) (mode : Mode) : Option Reader :=
  if opened.length < depthLimit then some ⟨container :: opened, mode⟩ else none

/-- The first character of a value. -/
def beginValue (opened : List Opened) (char : Char) : Option Reader :=
  if isSpace char then some ⟨opened, .value⟩
  else if char = '\x7b' then openContainer (.object []) opened .firstKey
  else if char = '[' then openContainer (.array []) opened .firstItem
  else if char = '"' then some ⟨opened, .string [] .none false⟩
  else if char = 't' then some ⟨opened, .word ['r', 'u', 'e'] (.bool true)⟩
  else if char = 'f' then some ⟨opened, .word ['a', 'l', 's', 'e'] (.bool false)⟩
  else if char = 'n' then some ⟨opened, .word ['u', 'l', 'l'] .null⟩
  else if char = '-' then some ⟨opened, .number [char] .minus⟩
  else if char = '0' then some ⟨opened, .number [char] .zero⟩
  else if char.isDigit then some ⟨opened, .number [char] .whole⟩
  else none

/-- A character after a complete value. -/
def afterValue (reader : Reader) (char : Char) : Option Reader :=
  if isSpace char then some reader
  else
    match reader.opened with
    | .array items :: rest =>
        if char = ',' then some ⟨.array items :: rest, .value⟩
        else if char = ']' then some (complete (.array items.reverse) rest)
        else none
    | .object members :: rest =>
        if char = ',' then some ⟨.object members :: rest, .key⟩
        else if char = '\x7d' then some (complete (.object members.reverse) rest)
        else none
    | _ => none

/-- A character inside a string. -/
def inString (opened : List Opened) (text : List Char) (escape : Escape) (isKey : Bool)
    (char : Char) : Option Reader :=
  let more (escape : Escape) : Option Reader :=
    some ⟨opened, .string (char :: text) escape isKey⟩
  match escape with
  | .slash =>
      if char = 'u' then more (.digits 4)
      else if "bfnrt\\/\"".toList.contains char then more .none
      else none
  | .digits missing =>
      if (Hex.value? char).isSome then
        more (if missing ≤ 1 then .none else .digits (missing - 1))
      else none
  | .none =>
      if char = '"' then
        if isKey then
          match opened with
          | .object members :: rest => some ⟨.member members text.reverse :: rest, .colon⟩
          | _ => none
        else some (complete (.string text.reverse) opened)
      else if char = '\\' then more .slash
      else if char.toNat < 0x20 then none
      else more .none

/-- The part of a number after one more character, if the number goes on with it. -/
def NumberPart.next? (part : NumberPart) (char : Char) : Option NumberPart :=
  match part with
  | .minus =>
      if char = '0' then some .zero else if char.isDigit then some .whole else none
  | .zero =>
      if char = '.' then some .point
      else if char = 'e' ∨ char = 'E' then some .exponentMark else none
  | .whole =>
      if char.isDigit then some .whole
      else if char = '.' then some .point
      else if char = 'e' ∨ char = 'E' then some .exponentMark else none
  | .point => if char.isDigit then some .fraction else none
  | .fraction =>
      if char.isDigit then some .fraction
      else if char = 'e' ∨ char = 'E' then some .exponentMark else none
  | .exponentMark =>
      if char = '+' ∨ char = '-' then some .exponentSign
      else if char.isDigit then some .exponent else none
  | .exponentSign => if char.isDigit then some .exponent else none
  | .exponent => if char.isDigit then some .exponent else none

/-- Whether a number may end in a part. -/
def NumberPart.isComplete : NumberPart → Bool
  | .zero | .whole | .fraction | .exponent => true
  | .minus | .point | .exponentMark | .exponentSign => false

/-- A character inside or right after a number. -/
def inNumber (opened : List Opened) (text : List Char) (part : NumberPart) (char : Char) :
    Option Reader :=
  match NumberPart.next? part char with
  | some next => some ⟨opened, .number (char :: text) next⟩
  | none =>
      if NumberPart.isComplete part then
        afterValue (complete (.number text.reverse) opened) char
      else none

/-- Take one character. -/
def step (reader : Reader) (char : Char) : Option Reader :=
  match reader.mode with
  | .value => beginValue reader.opened char
  | .firstItem =>
      if isSpace char then some reader
      else if char = ']' then
        match reader.opened with
        | .array items :: rest => some (complete (.array items.reverse) rest)
        | _ => none
      else beginValue reader.opened char
  | .firstKey =>
      if isSpace char then some reader
      else if char = '"' then some { reader with mode := .string [] .none true }
      else if char = '\x7d' then
        match reader.opened with
        | .object members :: rest => some (complete (.object members.reverse) rest)
        | _ => none
      else none
  | .key =>
      if isSpace char then some reader
      else if char = '"' then some { reader with mode := .string [] .none true }
      else none
  | .colon =>
      if isSpace char then some reader
      else if char = ':' then some { reader with mode := .value }
      else none
  | .after => afterValue reader char
  | .word missing value =>
      match missing with
      | first :: rest =>
          if char = first then
            match rest with
            | [] => some (complete value reader.opened)
            | _ => some { reader with mode := .word rest value }
          else none
      | [] => none
  | .string text escape isKey => inString reader.opened text escape isKey char
  | .number text part => inNumber reader.opened text part char
  | .done _ => if isSpace char then some reader else none

/-- The value of a reader at the end of the text. -/
def finish (reader : Reader) : Option Json :=
  match reader.mode with
  | .done value => some value
  | .number text part =>
      if NumberPart.isComplete part && reader.opened.isEmpty then
        some (.number text.reverse)
      else none
  | _ => none

def run (reader : Reader) : List Char → Option Reader
  | [] => some reader
  | char :: rest =>
      match reader.step char with
      | some next => run next rest
      | none => none

end Reader

/-- The value that a text writes. -/
def read? (text : List Char) : Option Json :=
  (Reader.start.run text).bind Reader.finish

end EvmAtlas.Json
