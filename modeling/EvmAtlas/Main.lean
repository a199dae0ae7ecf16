import Std.Time.DateTime.Timestamp
import EvmAtlas.Command.Basic

/-!
# The program

Performs the command that the arguments name on the files of the system.
-/

namespace EvmAtlas

/-- The reason for a file operation that failed. -/
def fileReason (error : IO.Error) : String :=
  match error with
  | .noFileOrDirectory _ _ _ => Directory.missing
  | .permissionDenied _ _ _ => "permission denied"
  | other => toString other

/-- Do what a script says. -/
def Script.perform {α : Type} : Script α → IO α
  | .done answer => return answer
  | .readFile path next => do
      let outcome ← (IO.FS.readBinFile path).toBaseIO
      (next (outcome.mapError fileReason)).perform
  | .writeFile path content next => do
      let outcome ← (IO.FS.writeFile path content).toBaseIO
      (next (outcome.mapError fileReason)).perform
  | .print text next => do
      IO.print text
      next.perform
  | .now next => do
      let time ← Std.Time.Timestamp.now
      (next (UInt64.ofNat time.toSecondsSinceUnixEpoch.val.toNat)).perform

end EvmAtlas

def main (arguments : List String) : IO UInt32 := do
  match ← (EvmAtlas.Command.perform arguments).script.perform with
  | .ok () => return 0
  | .error fault =>
      IO.eprintln ("evmflow: " ++ fault.text)
      return 1
