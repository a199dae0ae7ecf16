import EvmAtlas.Settings.Scan
import EvmAtlas.Settings.Value
import EvmAtlas.Text.Escape

/-!
# Statements of a settings file

A settings file is a sequence of statements: a table begins, or a key is given a value. A
value between braces is a table of its own, which is opened and closed; in an array, it is
one more table of a list. A statement remembers how many line ends are left after it, which
tells its line.
-/

namespace EvmAtlas

/-- What a statement does. -/
inductive SettingAction where
  /-- A table begins at a path of keys. The name is as it is written. -/
  | table (name : String) (path : List String)
  /-- One more table of a list of tables begins at a path of keys. -/
  | tableItem (name : String) (path : List String)
  | assign (key : String) (value : SettingValue)
  /-- A table begins as the value of a key. -/
  | openTable (key : String)
  /-- One more table of a list of tables begins as the value of a key. -/
  | openItem (key : String)
  /-- The table that was opened last ends. -/
  | close
  /-- A text has an escape without a meaning. -/
  | unreadable

/-- One statement, with the number of line ends left after it. -/
structure Statement where
  action : SettingAction
  linesLeft : Nat

/-- A scan that makes statements. They are kept in reverse order, and those of a scan that
refuses are given up. -/
abbrev StatementScan := StateT (List Statement) Scan

namespace Statement

open Scan

def make (action : SettingAction) : StatementScan Unit := do
  let left ← Scan.linesLeft
  modify (⟨action, left⟩ :: ·)

def orNothing (scan : StatementScan Unit) : StatementScan Unit :=
  scan <|> pure ()

/-- The text that characters and escapes mean. If they mean none, a statement says so. -/
def meant (raw : List Char) : StatementScan String :=
  match Escape.resolve? raw with
  | some text => return text
  | none => do
      make .unreadable
      return ""

/-- A text between double quotes. -/
def quoted : StatementScan String := do
  exactly "\""
  let raw ← quotedBody
  exactly "\""
  meant raw

def key : StatementScan String :=
  (do
    let name ← run1 fun char => char.isAlphanum || char == '-' || char == '_'
    return String.ofList name)
  <|> quoted

/-- Further keys of a table, each after a point. The rounds bound their number. -/
def moreKeys : Nat → StatementScan (List String)
  | 0 => pure []
  | rounds + 1 =>
      (do
        blanks
        exactly "."
        blanks
        let first ← key
        let rest ← moreKeys rounds
        return first :: rest)
      <|> pure []

def keys (rounds : Nat) : StatementScan (List String) := do
  let first ← key
  let rest ← moreKeys rounds
  return first :: rest

/-- The header of a table between the given brackets. -/
def header (rounds : Nat) (opening closing : String)
    (action : String → List String → SettingAction) : StatementScan Unit := do
  exactly opening
  blanks
  let before ← rest
  let path ← keys rounds
  let after ← rest
  blanks
  exactly closing
  make (action (String.ofList (before.take (before.length - after.length))) path)

/-- The text of a string without the line ends it begins with. -/
def dropLineEnds (text : List Char) : List Char :=
  text.dropWhile isLineEnd

/-- A piece of a string over several lines: characters and escapes, or line ends. A line
end after a backslash is left out, with all space that follows. -/
def longPiece : Scan (List Char) :=
  (do
    let raw ← quotedBody
    if raw.isEmpty then failure
    return raw)
  <|> run1 isLineEnd
  <|> (do
    exactly "\\"
    let _ ← run1 isLineEnd
    space
    return [])

/-- The body of a string over several lines between double quotes. -/
def longBody : Nat → Scan (List Char)
  | 0 => pure []
  | rounds + 1 =>
      (do
        let piece ← longPiece
        let rest ← longBody rounds
        return piece ++ rest)
      <|> pure []

/-- The characters before three single quotes, and what follows the quotes. -/
def longPlainText : List Char → Option (List Char × List Char)
  | '\'' :: '\'' :: '\'' :: rest => some ([], rest)
  | char :: rest =>
      if char = '\t' ∨ char ≥ ' ' ∨ isLineEnd char then
        (longPlainText rest).map fun (text, after) => (char :: text, after)
      else none
  | [] => none

/-- The body of a string over several lines between single quotes. -/
def longPlainBody : Scan (List Char) := longPlainText

def string (rounds : Nat) : StatementScan String :=
  (do
    exactly "'''"
    let text ← longPlainBody
    return String.ofList (dropLineEnds text))
  <|> (do
    exactly "'"
    let text ← run fun char => char == '\t' || (char ≥ ' ' && char != '\'')
    exactly "'"
    return String.ofList text)
  <|> (do
    exactly "\"\"\""
    let raw ← longBody rounds
    exactly "\"\"\""
    meant (dropLineEnds raw))
  <|> quoted

/-- A value that holds no other. -/
def scalar (rounds : Nat) : StatementScan SettingValue :=
  (do
    let (source, moment) ← withSource moment
    return .datetime source moment)
  <|> (do return .float (← source float))
  <|> (do return .integer (← source whole))
  <|> (do return .string (← string rounds))
  <|> (do exactly "true"; return .boolean true)
  <|> (do exactly "false"; return .boolean false)

/-- The space and comments around a comma. -/
def gap : Scan Unit := do
  space
  comment
  space

mutual

/-- What is given to a key. The answer is none if it consists of tables, for which there
are statements of their own. Inside an array every table is one of a list. The rounds bound
how deep values are nested, how many items an array has, and how many keys a table. -/
def given (key : String) (inArray : Bool) : Nat → StatementScan (Option SettingValue)
  | 0 => failure
  | rounds + 1 =>
      (do return some (← scalar rounds))
      <|> (do
        exactly "["
        space
        let hasTables ← items key rounds <|> pure false
        space
        exactly "]"
        return if hasTables then none else some .array)
      <|> (do
        exactly "\x7b"
        make (if inArray then .openItem key else .openTable key)
        blanks
        keyValues inArray rounds
        blanks
        exactly "\x7d"
        make .close
        return none)

/-- The items of an array that is given to a key. The answer is whether there are tables
among them. -/
def items (key : String) : Nat → StatementScan Bool
  | 0 => failure
  | rounds + 1 => do
      let first ← given key true rounds
      let hasMore ←
        (do
          gap
          exactly ","
          gap
          items key rounds)
        <|> (do
          space
          optional (exactly ",")
          space
          comment
          return false)
      return first.isNone || hasMore

/-- A key and what is given to it. -/
def keyValue (inArray : Bool) : Nat → StatementScan Unit
  | 0 => failure
  | rounds + 1 => do
      let name ← key
      blanks
      exactly "="
      blanks
      match ← given name inArray rounds with
      | some value => make (.assign name value)
      | none => return

/-- The keys of a value between braces. -/
def keyValues (inArray : Bool) : Nat → StatementScan Unit
  | 0 => pure ()
  | rounds + 1 =>
      orNothing do
        keyValue inArray rounds
        optional do
          blanks
          exactly ","
          blanks
        keyValues inArray rounds

end

/-- The keys of a table. Neither line ends nor comments are needed between them. -/
def tableBody (bound : Nat) : Nat → StatementScan Unit
  | 0 => pure ()
  | rounds + 1 =>
      orNothing do
        space
        keyValue false bound
        blanks
        comment
        tableBody bound rounds

/-- A table with its keys, a single key, or nothing; and then a comment. -/
def paragraph (bound : Nat) : StatementScan Unit :=
  (do
    blanks
    header bound "[" "]" .table <|> header bound "[[" "]]" .tableItem
    blanks
    comment
    tableBody bound bound)
  <|> (do
    blanks
    keyValue false bound
    blanks
    comment)
  <|> (do
    blanks
    comment)

/-- The paragraphs of a file, separated by line ends. -/
def paragraphs (bound : Nat) : Nat → StatementScan Unit
  | 0 => failure
  | rounds + 1 => do
      paragraph bound
      orNothing do
        let _ ← run1 isLineEnd
        paragraphs bound rounds

/-- The statements of a file. At most three rounds go by between two characters, so the
length of the file bounds the rounds. -/
def read? (text : List Char) : Option (List Statement) :=
  let bound := 3 * text.length + 3
  match (paragraphs bound bound).run [] text with
  | some ((_, made), []) => some made.reverse
  | _ => none

end Statement

end EvmAtlas
