import EvmAtlas.Fault
import EvmAtlas.Settings.Statement

/-!
# The tree of a settings file

The statements of a file are gathered into tables within tables. A key is given a value
once, and a table is declared once; a table that is only mentioned on the way to another
one may still be declared. Every node knows the line it comes from.
-/

namespace EvmAtlas

/-- Why a settings file is refused. -/
inductive SettingsFault where
  /-- The file breaks the grammar. -/
  | malformed
  /-- A statement is wrong, possibly about a named setting. -/
  | atLine (line : Nat) (setting : Option String) (text : String)

/-- A fault as it is reported of a file. -/
def SettingsFault.toFault (file : String) : SettingsFault → Fault
  | .malformed => .ofCause .malformedSettings
  | .atLine line setting text =>
      let subject :=
        match setting with
        | some setting => "(" ++ setting ++ ") "
        | none => ""
      .ofText (file ++ ", line " ++ toString line ++ ": " ++ subject ++ text)

/-- A value or a table, with its line. -/
inductive SettingNode where
  | value (line : Nat) (value : SettingValue)
  /-- A table, which may be declared or only mentioned. -/
  | table (line : Nat) (isDeclared : Bool) (members : List (String × SettingNode))
  /-- A list of tables, with the line of the first one. Only the last table can be added
  to, and only its members are kept. -/
  | tables (line : Nat) (members : List (String × SettingNode))

/-- The members of a table, in the order of their first mention. -/
abbrev SettingMembers := List (String × SettingNode)

namespace SettingMembers

/-- Put a node under a name, in place of the one that is there. -/
def put (name : String) (node : SettingNode) : SettingMembers → SettingMembers
  | [] => [(name, node)]
  | entry :: rest =>
      if entry.1 = name then (name, node) :: rest else entry :: put name node rest

/-- Change the members of the table at the end of a path. Tables on the way that are not
there are mentioned from now on. -/
def changeAt (line : Nat) (change : SettingMembers → Except String SettingMembers) :
    List String → SettingMembers → Except String SettingMembers
  | [], members => change members
  | name :: path, members => do
      match members.lookup name with
      | none =>
          let inner ← changeAt line change path []
          return members.put name (.table line false inner)
      | some (.table own isDeclared inner) =>
          let inner ← changeAt line change path inner
          return members.put name (.table own isDeclared inner)
      | some (.tables own inner) =>
          let inner ← changeAt line change path inner
          return members.put name (.tables own inner)
      | some (.value own _) =>
          throw ("key `" ++ name ++ "' is in conflict with line " ++ toString own)

/-- Begin a table. The label stands for the table in a message. -/
def begin (line : Nat) (label name : String) (isDeclared : Bool) (members : SettingMembers) :
    Except String SettingMembers :=
  let conflict (other : String) (own : Nat) : Except String SettingMembers :=
    .error ("table `" ++ label ++ "' is in conflict with " ++ other ++ "line " ++ toString own)
  match members.lookup name with
  | none => .ok (members.put name (.table line isDeclared []))
  | some (.table own true _) => conflict "table in " own
  | some (.table _ false inner) => .ok (members.put name (.table line isDeclared inner))
  | some (.tables own _) => conflict "array table in " own
  | some (.value own _) => conflict "" own

/-- Begin one more table of a list. The label stands for the table in a message. -/
def beginItem (line : Nat) (label name : String) (members : SettingMembers) :
    Except String SettingMembers :=
  let conflict (other : String) (own : Nat) : Except String SettingMembers :=
    .error ("array table `" ++ label ++ "' is in conflict with " ++ other ++ "line "
      ++ toString own)
  match members.lookup name with
  | none => .ok (members.put name (.tables line []))
  | some (.tables own _) => .ok (members.put name (.tables own []))
  | some (.table own _ _) => conflict "table in " own
  | some (.value own _) => conflict "" own

/-- Give a key its value. The line of an earlier value is told in hexadecimal, with a mark
after it, and no line is told of a list of tables. -/
def assign (line : Nat) (name : String) (value : SettingValue) (members : SettingMembers) :
    Except String SettingMembers :=
  let conflict (other : String) : Except String SettingMembers :=
    .error ("key `" ++ name ++ "' is in conflict " ++ other)
  match members.lookup name with
  | none => .ok (members.put name (.value line value))
  | some (.table own _ _) => conflict ("with table in line " ++ toString own)
  | some (.value own _) => conflict ("with line " ++ Hex.ofNat own ++ "d")
  | some (.tables _ _) =>
      .error ("BUG: key `" ++ name ++ "' is in conflict but it's unknown type `[]*ast.Table'")

end SettingMembers

/-- A tree while it is built: its members, the path of the table that keys go to, and the
paths to come back to when tables between braces close. -/
structure SettingTree where
  members : SettingMembers := []
  path : List String := []
  outer : List (List String) := []

namespace SettingTree

/-- Change the members of the table that keys go to. -/
def change (tree : SettingTree) (line : Nat)
    (step : SettingMembers → Except String SettingMembers) : Except String SettingTree := do
  let members ← SettingMembers.changeAt line step tree.path tree.members
  return { tree with members }

/-- Begin a table at a path of keys from the root, and let keys go to it. -/
def beginAt (tree : SettingTree) (line : Nat) (path : List String)
    (begin : String → SettingMembers → Except String SettingMembers) :
    Except String SettingTree := do
  let members ← SettingMembers.changeAt line (begin (path.getLastD "")) path.dropLast
    tree.members
  return { tree with members, path }

/-- Begin a table as the value of a key, and let keys go to it until it is closed. -/
def enter (tree : SettingTree) (line : Nat) (key : String)
    (begin : SettingMembers → Except String SettingMembers) : Except String SettingTree := do
  let changed ← tree.change line begin
  return { changed with path := tree.path ++ [key], outer := tree.path :: tree.outer }

/-- What an action at a line does to the tree. -/
def perform (tree : SettingTree) (line : Nat) : SettingAction → Except String SettingTree
  | .table label path =>
      tree.beginAt line path fun name => SettingMembers.begin line label name true
  | .tableItem label path =>
      tree.beginAt line path fun name => SettingMembers.beginItem line label name
  | .assign key value => tree.change line (SettingMembers.assign line key value)
  | .openTable key => tree.enter line key (SettingMembers.begin line key key false)
  | .openItem key => tree.enter line key (SettingMembers.beginItem line key key)
  | .close =>
      match tree.outer with
      | path :: outer => .ok { tree with path, outer }
      | [] => .ok tree
  | .unreadable => .error "invalid syntax"

/-- Add a statement of a file with a number of line ends. -/
def add (lineEnds : Nat) (tree : SettingTree) (statement : Statement) :
    Except SettingsFault SettingTree :=
  let line := lineEnds + 1 - statement.linesLeft
  (tree.perform line statement.action).mapError (.atLine line none)

end SettingTree

/-- The members of the root table of a settings file. -/
def SettingMembers.read (text : String) : Except SettingsFault SettingMembers :=
  let chars := text.toList
  match Statement.read? chars with
  | none => .error .malformed
  | some statements =>
      (statements.foldlM (SettingTree.add (chars.countP Scan.isLineEnd)) {}).map
        SettingTree.members

end EvmAtlas
