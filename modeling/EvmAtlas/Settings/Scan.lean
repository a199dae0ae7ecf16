import EvmAtlas.Text.Calendar
import EvmAtlas.Text.Decimal
import EvmAtlas.Text.Hex

/-!
# Scanning settings files

A scan takes characters from the front of a text or refuses it. A choice tries its second
scan only if the first one refuses, and then from where the first one began; a scan that
succeeded is never tried again another way.
-/

namespace EvmAtlas

/-- Take something from the front of a text, or refuse it. -/
abbrev Scan := StateT (List Char) Option

namespace Scan

/-- One character that passes a test. -/
def char (test : Char → Bool) : Scan Char := fun input =>
  match input with
  | first :: rest => if test first then some (first, rest) else none
  | [] => none

/-- The longest run of characters that pass a test. -/
def run (test : Char → Bool) : Scan (List Char) := fun input =>
  some (input.takeWhile test, input.dropWhile test)

/-- The longest run of at least one character that passes a test. -/
def run1 (test : Char → Bool) : Scan (List Char) := do
  let first ← char test
  let rest ← run test
  return first :: rest

/-- Exactly these characters. -/
def exactly (text : String) : Scan Unit := fun input =>
  if text.toList.isPrefixOf input then some ((), input.drop text.length) else none

/-- A scan or nothing. -/
def optional (scan : Scan Unit) : Scan Unit :=
  scan <|> pure ()

/-- The characters that a scan takes, with its answer. -/
def withSource {α : Type} (scan : Scan α) : Scan (List Char × α) := fun input =>
  (scan input).map fun (answer, rest) =>
    ((input.take (input.length - rest.length), answer), rest)

def source (scan : Scan Unit) : Scan (List Char) :=
  Prod.fst <$> withSource scan

/-- Replace the rest of the text by a function of it. -/
def skip (rest : List Char → List Char) : Scan Unit := fun input =>
  some ((), rest input)

/-- What is left of the text. -/
def rest : Scan (List Char) := get

/-- How many line ends are left in the text. -/
def linesLeft : Scan Nat := fun input =>
  some (input.countP fun char => char == '\n' || char == '\r', input)

/-- A blank inside a line. -/
def isBlankInLine (char : Char) : Bool :=
  char == ' ' || char == '\t'

/-- A character that ends a line. Each one ends a line of its own. -/
def isLineEnd (char : Char) : Bool :=
  char == '\r' || char == '\n'

def blanks : Scan Unit := do
  let _ ← run isBlankInLine

/-- Blanks and line ends. -/
def space : Scan Unit := do
  let _ ← run fun char => isBlankInLine char || isLineEnd char

def comment : Scan Unit :=
  optional do
    exactly "#"
    let _ ← run fun char => char == '\t' || char ≥ ' '

/-- Decimal digits after a first one, with single underscores between them. -/
def afterDigits : List Char → List Char
  | [] => []
  | first :: rest =>
      if first.isDigit then afterDigits rest
      else
        match rest with
        | second :: more =>
            if first = '_' ∧ second.isDigit then afterDigits more else first :: rest
        | [] => [first]

/-- Decimal digits with single underscores between them. -/
def digits : Scan Unit := do
  let _ ← char Char.isDigit
  skip afterDigits

/-- A whole number. A zero stands alone. -/
def whole : Scan Unit := do
  optional (discard (char fun char => char == '-' || char == '+'))
  let first ← char Char.isDigit
  if first ≠ '0' then skip afterDigits

def exponent : Scan Unit := do
  let _ ← char fun char => char == 'e' || char == 'E'
  optional (discard (char fun char => char == '-' || char == '+'))
  digits

def fraction : Scan Unit := do
  exactly "."
  digits

/-- A number with a fraction or an exponent. -/
def float : Scan Unit := do
  whole
  (do fraction; optional exponent) <|> exponent

/-- A number of exactly so many decimal digits. -/
def fixedDigits (count : Nat) : Scan Nat := fun input =>
  let digits := input.take count
  if digits.length = count then
    (Decimal.toNat? digits).map fun number => (number, input.drop count)
  else none

def date : Scan CalendarDate := do
  let year ← fixedDigits 4
  exactly "-"
  let month ← fixedDigits 2
  exactly "-"
  let day ← fixedDigits 2
  return { year, month, day }

def time : Scan TimeOfDay := do
  let hour ← fixedDigits 2
  exactly ":"
  let minute ← fixedDigits 2
  exactly ":"
  let second ← fixedDigits 2
  optional do
    exactly "."
    let _ ← run1 Char.isDigit
  return { hour, minute, second }

/-- The hours and minutes between a time and universal time. -/
def distance : Scan (Nat × Nat) :=
  (do
    exactly "Z"
    return (0, 0))
  <|> (do
    let _ ← char fun char => char == '-' || char == '+'
    let hour ← fixedDigits 2
    exactly ":"
    let minute ← fixedDigits 2
    return (hour, minute))

/-- The distance of a time from universal time. -/
def timeOffset : Scan TimeOffset := do
  let (text, hour, minute) ← withSource distance
  return { text := String.ofList text, hour, minute }

/-- A date, a date with a time, or a time. -/
def moment : Scan Moment :=
  (do
    let date ← date
    (do
      exactly "T"
      let time ← time
      let offset ← some <$> timeOffset <|> pure none
      return { date := some date, time := some time, offset })
    <|> return { date := some date })
  <|> (do
    let time ← time
    return { time := some time })

/-- A character that stands for itself between double quotes. -/
def isPlain (char : Char) : Bool :=
  char ≥ ' ' && char != '"' && char != '\\'

/-- Plain characters and escapes, and what follows them. -/
def quotedBody : Scan (List Char) := fun input =>
  some (go [] input.length input)
where
  go (taken : List Char) : Nat → List Char → List Char × List Char
    | 0, input => (taken.reverse, input)
    | rounds + 1, input =>
        match escapeOrPlain input with
        | some count => go ((input.take count).reverse ++ taken) rounds (input.drop count)
        | none => (taken.reverse, input)
  /-- The length of the escape or plain character at the front. -/
  escapeOrPlain : List Char → Option Nat
    | [] => none
    | first :: rest =>
        if isPlain first then some 1
        else if first ≠ '\\' then none
        else
          match rest with
          | [] => none
          | letter :: more =>
              let hasDigits (count : Nat) : Bool :=
                (more.take count).length == count
                  && (more.take count).all fun char => (Hex.value? char).isSome
              if "btnfr\"/\\".toList.contains letter then some 2
              else if letter = 'u' ∧ hasDigits 4 then some 6
              else if letter = 'U' ∧ hasDigits 8 then some 10
              else none

end Scan

end EvmAtlas
