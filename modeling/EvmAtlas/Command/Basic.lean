import EvmAtlas.Command.Actions
import EvmAtlas.Command.Flags
import EvmAtlas.Settings.Read

/-!
# Commands

The command line: which command the arguments name, and with which options. What a command then
does is up to its action. The flags and the settings files that are understood here are what it
takes to run the program, and nothing is proved about them.
-/

namespace EvmAtlas

namespace Flags

def codeOptions (flags : Flags) : CodeOptions where
  code? := flags.get? "code"
  codeFile? := flags.get? "codefile"
  arguments := flags.arguments

/-- The file of the settings, which is named in front of a command. -/
def configFile (global : Flags) : String :=
  global.getD "config" ""

def graphOptions (global flags : Flags) : GraphOptions where
  toCodeOptions := flags.codeOptions
  configFile := global.configFile
  revisit? := flags.get? "revisit"
  out := flags.getD "out" ""

def runOptions (global flags : Flags) : RunOptions :=
  let default : RunOptions := {}
  { toCodeOptions := flags.codeOptions
    configFile := global.configFile
    input := flags.getD "input" default.input
    address := flags.getD "address" default.address
    sender := flags.getD "sender" default.sender
    value := flags.uint64D "value" default.value
    gas := flags.uint64D "gas" default.gas
    stateFile? := flags.get? "state"
    node? := flags.get? "rpc"
    save := flags.getD "save" default.save }

end Flags

def Settings.ofBytes : SettingsReader :=
  fun file content => Settings.read file content.asText

namespace Command

def globalFlags : List (String × FlagKind) :=
  [("config", .text), ("verbosity", .signed)]

def codeFlags : List (String × FlagKind) :=
  [("code", .text), ("codefile", .text)]

def runFlags : List (String × FlagKind) :=
  codeFlags ++ [("input", .text), ("address", .text), ("sender", .text), ("value", .unsigned),
    ("gas", .unsigned), ("state", .text), ("rpc", .text), ("save", .text)]

/-- The commands, with their flags. -/
def table : List (String × List (String × FlagKind) × (Flags → Flags → Command Unit)) :=
  [("disasm", codeFlags, fun _ flags => listCode flags.codeOptions),
    ("cfg", codeFlags ++ [("out", .text), ("revisit", .text)],
      fun global flags => drawGraph Settings.ofBytes (global.graphOptions flags)),
    ("run", runFlags, fun global flags => runCall Settings.ofBytes (global.runOptions flags)),
    ("dumpconfig", [], fun global _ => showSettings Settings.ofBytes global.configFile)]

def perform (arguments : List String) : Command Unit := do
  let global ← ofExcept (Flags.read globalFlags {} arguments)
  match global.arguments with
  | [] => throw (.ofText "missing command")
  | name :: rest =>
      match table.lookup name with
      | none => throw (.ofText ("No help topic for '" ++ name ++ "'"))
      | some (kinds, action) =>
          let flags ← ofExcept (Flags.read kinds {} rest)
          action global flags

end Command

end EvmAtlas
