import EvmAtlas.Text.Hex

/-!
# Numerals

A number on a command line is decimal, or has a base of its own: `0x`, `0o` and `0b` begin
a number of base sixteen, eight and two, and a zero in front of other digits means base
eight. Underscores may stand between digits, and after what names the base.
-/

namespace EvmAtlas.Numeral

/-- What stands before a character of a numeral, as far as underscores are concerned. -/
inductive Place where
  | start | digit | underscore | refused
  deriving DecidableEq

/-- The place after one more character. An underscore has to follow a digit, and a digit
has to follow an underscore. -/
def Place.next (place : Place) (char : Char) : Place :=
  match place with
  | .refused => .refused
  | .underscore =>
      if (Hex.value? char).isSome then .digit else .refused
  | .digit => if char = '_' then .underscore else .digit
  | .start => if char = '_' then .refused else .digit

/-- Whether underscores stand only between digits, where the base counts as a digit. -/
def separated (hasBase : Bool) (chars : List Char) : Bool :=
  let final := chars.foldl Place.next (if hasBase then .digit else .start)
  final == .digit || final == .start

/-- The number that digits of a base write, underscores apart. -/
def ofDigits? (base : Nat) (chars : List Char) : Option Nat :=
  (chars.filter (· != '_')).foldlM
    (fun total char => (Hex.value? char).bind fun digit =>
      if digit < base then some (total * base + digit) else none) 0

/-- The base that a letter after a zero names. -/
def baseOf? (letter : Char) : Option Nat :=
  match letter with
  | 'x' | 'X' => some 16
  | 'o' | 'O' => some 8
  | 'b' | 'B' => some 2
  | _ => none

/-- The number that a numeral without a sign writes. -/
def toNat? (chars : List Char) : Option Nat :=
  match chars with
  | [] => none
  | '0' :: letter :: first :: rest =>
      match baseOf? letter with
      | some base =>
          if separated true (first :: rest) then ofDigits? base (first :: rest) else none
      | none =>
          if separated false chars then ofDigits? 8 (letter :: first :: rest) else none
  | '0' :: rest => if separated false chars then ofDigits? 8 rest else none
  | _ => if separated false chars then ofDigits? 10 chars else none

def toUInt64? (text : String) : Option UInt64 :=
  (toNat? text.toList).bind fun number =>
    if number < UInt64.size then some (UInt64.ofNat number) else none

def toInt64? (text : String) : Option Int :=
  let bounded (number : Int) : Option Int :=
    if -0x8000000000000000 ≤ number ∧ number < 0x8000000000000000 then some number else none
  match text.toList with
  | '-' :: digits => (toNat? digits).bind fun number => bounded (-(number : Int))
  | '+' :: digits => (toNat? digits).bind fun number => bounded number
  | digits => (toNat? digits).bind fun number => bounded number

end EvmAtlas.Numeral
