import EvmAtlas.Text.Printable
import EvmAtlas.Text.Hex

/-!
# Quoted text

Text from outside is quoted where a message repeats it, so that an invisible character
shows. A printable character stands for itself, a control character with a name of its
own takes its short escape, and every other character is written by its code point.
-/

namespace EvmAtlas.Quoted

/-- The short escape of a character that has one. -/
def escape? (char : Char) : Option Char :=
  match char.toNat with
  | 0x07 => some 'a'
  | 0x08 => some 'b'
  | 0x0c => some 'f'
  | 0x0a => some 'n'
  | 0x0d => some 'r'
  | 0x09 => some 't'
  | 0x0b => some 'v'
  | 0x5c => some '\\'
  | 0x22 => some '"'
  | _ => none

/-- One character as it stands between the quotes. -/
def ofChar (char : Char) : String :=
  match escape? char with
  | some letter => "\\" ++ letter.toString
  | none =>
      if isPrintable char then char.toString
      else if char.toNat < 0x80 then "\\x" ++ Hex.padded 2 char.toNat
      else if char.toNat < 0x10000 then "\\u" ++ Hex.padded 4 char.toNat
      else "\\U" ++ Hex.padded 8 char.toNat

/-- A text between double quotes. -/
def ofString (text : String) : String :=
  "\"" ++ String.join (text.toList.map ofChar) ++ "\""

end EvmAtlas.Quoted
