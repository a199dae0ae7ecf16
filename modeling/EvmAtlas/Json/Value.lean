import EvmAtlas.Text.Hex

/-!
# JSON values

A JSON value as it is written: numbers and strings keep their text, strings with their
escapes, and members keep their order and their repetitions. What a repeated member means
is for the reader of the value to decide.
-/

namespace EvmAtlas

/-- A JSON value as it is written. -/
inductive Json where
  | null
  | bool (value : Bool)
  | number (text : List Char)
  /-- A string by the characters between its quotes. -/
  | string (raw : List Char)
  | array (items : List Json)
  /-- An object by its members, each key as the characters between its quotes. -/
  | object (members : List (List Char × Json))

namespace Json

/-- The four-digit escape of a character. -/
def unicodeEscape (code : Nat) : List Char :=
  '\\' :: 'u' :: (Hex.padded 4 code).toList

/-- A character as it is written inside a string. -/
def escapeChar (char : Char) : List Char :=
  if char = '"' then ['\\', '"']
  else if char = '\\' then ['\\', '\\']
  else if char.toNat < 0x20 then unicodeEscape char.toNat
  else [char]

/-- The string of a text. -/
def text (text : String) : Json :=
  .string (text.toList.flatMap escapeChar)

/-- The number of a natural number. -/
def nat (number : Nat) : Json :=
  .number (Nat.toDigits 10 number)

/-- An object from its members. -/
def members (entries : List (String × Json)) : Json :=
  .object (entries.map fun entry => (entry.1.toList, entry.2))

/-- The character that stands for a code that is none. -/
def replacement : Char := Char.ofNat 0xfffd

/-- The value of four hexadecimal digits, with what follows them. -/
def fourDigits? : List Char → Option (Nat × List Char)
  | a :: b :: c :: d :: rest => (Hex.toNat? [a, b, c, d]).map fun code => (code, rest)
  | _ => none

/-- The character of a single-letter escape. -/
def letterEscape (char : Char) : Char :=
  match char with
  | 'b' => Char.ofNat 8
  | 'f' => Char.ofNat 12
  | 'n' => '\n'
  | 'r' => '\r'
  | 't' => '\t'
  | other => other

/-- The text that the characters between quotes stand for. A pair of surrogate codes is
one character, and a surrogate code alone is none. The rounds bound the number of
characters and escapes. -/
def unescapeRounds : Nat → List Char → List Char
  | 0, _ => []
  | rounds + 1, raw =>
      match raw with
      | [] => []
      | '\\' :: 'u' :: rest =>
          match fourDigits? rest with
          | none => []
          | some (code, after) =>
              if 0xd800 ≤ code ∧ code < 0xdc00 then
                match after with
                | '\\' :: 'u' :: more =>
                    match fourDigits? more with
                    | some (low, beyond) =>
                        if 0xdc00 ≤ low ∧ low < 0xe000 then
                          Char.ofNat (0x10000 + (code - 0xd800) * 0x400 + (low - 0xdc00))
                            :: unescapeRounds rounds beyond
                        else replacement :: unescapeRounds rounds after
                    | none => replacement :: unescapeRounds rounds after
                | _ => replacement :: unescapeRounds rounds after
              else if 0xdc00 ≤ code ∧ code < 0xe000 then
                replacement :: unescapeRounds rounds after
              else Char.ofNat code :: unescapeRounds rounds after
      | '\\' :: letter :: rest => letterEscape letter :: unescapeRounds rounds rest
      | char :: rest => char :: unescapeRounds rounds rest

/-- The text that the characters between quotes stand for. -/
def unescape (raw : List Char) : List Char :=
  unescapeRounds raw.length raw

/-- A letter for the comparison of names without regard to case. Two letters outside
ASCII have an ASCII letter as their other case. -/
def foldChar (char : Char) : Char :=
  if char = Char.ofNat 0x17f then 'S'
  else if char = Char.ofNat 0x212a then 'K'
  else char.toUpper

/-- What a table holds under the name that a key spells, or else under the first name that
differs from it in case only. -/
def select? {α : Type} (table : List (String × α)) (key : List Char) : Option α :=
  let name := unescape key
  match table.find? fun entry => entry.1.toList == name with
  | some entry => some entry.2
  | none =>
      (table.find? fun entry => entry.1.toList.map foldChar == name.map foldChar).map Prod.snd

/-- How to read the value of a member on top of what was read before. -/
abbrev FieldReader (α : Type) := α → Json → Option α

/-- Read one member of an object by a table of its fields. A member that the table does
not know changes nothing. -/
def readMember {α : Type} (fields : List (String × FieldReader α)) (value : α)
    (entry : List Char × Json) : Option α :=
  match select? fields entry.1 with
  | some read => read value entry.2
  | none => some value

end Json

end EvmAtlas
