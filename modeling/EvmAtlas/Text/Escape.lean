import EvmAtlas.Text.Hex

/-!
# Escapes

Between double quotes, a backslash begins an escape: a letter stands for one character, and
a code of four or eight hexadecimal digits stands for the character of that code.
-/

namespace EvmAtlas.Escape

/-- The character that an escape by a code stands for. -/
def charOf? (digits : List Char) : Option Char :=
  (Hex.toNat? digits).bind fun code =>
    if code.isValidChar then some (Char.ofNat code) else none

/-- The character that an escape by a letter stands for. -/
def letter? (letter : Char) : Option Char :=
  match letter with
  | 'b' => some (Char.ofNat 8)
  | 't' => some '\t'
  | 'n' => some '\n'
  | 'f' => some (Char.ofNat 12)
  | 'r' => some '\r'
  | '"' => some '"'
  | '\\' => some '\\'
  | _ => none

/-- Resolve escapes. The rounds bound the number of characters and escapes. -/
def resolveIn? : Nat → List Char → Option (List Char)
  | 0, _ => some []
  | rounds + 1, raw =>
      match raw with
      | [] => some []
      | '\\' :: letter :: rest =>
          let width := if letter = 'u' then 4 else if letter = 'U' then 8 else 0
          let char := if width = 0 then letter? letter else charOf? (rest.take width)
          char.bind fun char => (resolveIn? rounds (rest.drop width)).map (char :: ·)
      | char :: rest => (resolveIn? rounds rest).map (char :: ·)

/-- The text that is meant by characters and escapes, if all escapes have a meaning. -/
def resolve? (raw : List Char) : Option String :=
  (resolveIn? raw.length raw).map String.ofList

end EvmAtlas.Escape
