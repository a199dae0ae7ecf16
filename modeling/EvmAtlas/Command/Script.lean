import EvmAtlas.Fault
import EvmAtlas.Bytes

/-!
# Scripts

What a command does to the world is little: it reads and writes whole files, prints, and
asks for the time. A script says what to do and how to go on with the outcome, without
doing anything; `Script.runOn` says what it does on a file system.

`Directory` is a file system to try commands in: a folder with texts, without links, devices, rights
and the paths that lead out of it. What is said of commands is said for every file system.
-/

namespace EvmAtlas

/-- What to do, and how to go on. A file that cannot be read or written has a reason. -/
inductive Script (α : Type) where
  | done (answer : α)
  | readFile (path : String) (next : Except String Bytes → Script α)
  | writeFile (path content : String) (next : Except String Unit → Script α)
  | print (text : String) (next : Script α)
  /-- The time in seconds. -/
  | now (next : UInt64 → Script α)

namespace Script

variable {α β : Type}

/-- Go on with what a script answers. -/
def bind (script : Script α) (rest : α → Script β) : Script β :=
  match script with
  | .done answer => rest answer
  | .readFile path next => .readFile path fun outcome => (next outcome).bind rest
  | .writeFile path content next =>
      .writeFile path content fun outcome => (next outcome).bind rest
  | .print text next => .print text (next.bind rest)
  | .now next => .now fun time => (next time).bind rest

instance : Monad Script where
  pure := .done
  bind := bind

end Script

/-- How whole files are read and written. Where a text cannot be written, a part of it may have
been. -/
structure FileSystem (φ : Type) where
  read : φ → String → Except String Bytes
  write : φ → String → String → Except String Unit × φ

/-- What a script answers on a file system at a time, the files afterwards, and what it
prints. -/
def Script.runOn {φ α : Type} (system : FileSystem φ) (time : UInt64) :
    Script α → φ → α × φ × String
  | .done answer, files => (answer, files, "")
  | .readFile path next, files => (next (system.read files path)).runOn system time files
  | .writeFile path content next, files =>
      let (outcome, after) := system.write files path content
      (next outcome).runOn system time after
  | .print text next, files =>
      let (answer, after, rest) := next.runOn system time files
      (answer, after, text ++ rest)
  | .now next, files => (next time).runOn system time files

/-- The files of a directory, by name. -/
structure Directory where
  files : List (String × String) := []

namespace Directory

/-- The reason for a file that is not there. -/
def missing : String := "no such file or directory"

/-- The reason for a folder in place of a file. -/
def isFolder : String := "is a directory"

/-- The parts of a path that count. -/
def parts (path : String) : List String :=
  ((path.toList.splitOn '/').map String.ofList).filter fun part =>
    !part.isEmpty && part != "."

def read (directory : Directory) (path : String) : Except String String :=
  match directory.files.find? fun file => parts file.1 == parts path with
  | some file => .ok file.2
  | none => .error missing

/-- Whether there is a file below the given parts of a path. -/
def holds (directory : Directory) (folder : List String) : Bool :=
  folder.isEmpty
    || directory.files.any fun file =>
      folder.isPrefixOf (parts file.1) && folder.length < (parts file.1).length

/-- Write a file into a folder that is there. -/
def write (directory : Directory) (path content : String) : Except String Directory :=
  let place := parts path
  if path.isEmpty || !directory.holds place.dropLast then .error missing
  else if directory.holds place then .error isFolder
  else
    .ok { files := directory.files.filter (fun file => parts file.1 != place)
            ++ [(String.intercalate "/" place, content)] }

/-- The files of a directory that an earlier one does not have, or not with the same
content. -/
def changesSince (directory before : Directory) : List (String × String) :=
  directory.files.filter fun file =>
    match before.read file.1 with
    | .ok content => content != file.2
    | .error _ => true

/-- A directory as a file system. -/
def system : FileSystem Directory where
  read directory path := (directory.read path).map String.toUTF8
  write directory path content :=
    match directory.write path content with
    | .ok changed => (.ok (), changed)
    | .error reason => (.error reason, directory)

end Directory

/-- What a script does in a directory. -/
def Script.runIn {α : Type} (time : UInt64) (script : Script α) (directory : Directory) :
    α × Directory × String :=
  script.runOn Directory.system time directory

/-- A script that may fail. -/
abbrev Command := ExceptT Fault Script

namespace Command

/-- What to do for a command, and its outcome. -/
def script {α : Type} (command : Command α) : Script (Except Fault α) :=
  ExceptT.run command

/-- The outcome of opening a file. -/
def opened {α : Type} (path : String) : Except String α → Except Fault α
  | .ok value => .ok value
  | .error reason => .error (.met (.during ("open " ++ path)) (.message reason))

def readFile (path : String) : Command Bytes :=
  ExceptT.mk (.readFile path fun outcome => .done (opened path outcome))

def writeFile (path content : String) : Command Unit :=
  ExceptT.mk (.writeFile path content fun outcome => .done (opened path outcome))

def print (text : String) : Command Unit :=
  ExceptT.mk (.print text (.done (.ok ())))

/-- The time in seconds. -/
def now : Command UInt64 :=
  ExceptT.mk (.now fun time => .done (.ok time))

/-- See a fault from a circumstance around it. -/
def within {α : Type} (command : Command α) (text : String) : Command α :=
  tryCatchThe Fault command fun fault => throw (fault.within (.during text))

/-- The outcome of a command, which may be a fault. -/
def outcome {α : Type} (command : Command α) : Command (Except Fault α) :=
  ExceptT.lift command.script

end Command

end EvmAtlas
