import EvmAtlas.Flow.ProgramCache
import EvmAtlas.Machine.Frame

/-!
# Settings

What can be set for a command: how programs are recovered, the limits of the machine, and
where the state of the chain comes from. Settings are written in the form in which they
are read.
-/

namespace EvmAtlas

/-- What can be set for a command. -/
structure Settings where
  recovery : RecoveryConfig := {}
  /-- How many recovered programs are kept. -/
  cacheSize : Int := ProgramCache.defaultCapacity
  machine : MachineConfig := {}
  /-- The node to read the chain from, if not empty. -/
  node : String := ""
  /-- How many seconds a request to the node may take; zero for the default. -/
  nodeTimeout : UInt64 := 0
  /-- The file of a state set, if not empty. -/
  stateFile : String := ""

namespace Settings

def line (name value : String) : String :=
  name ++ " = " ++ value ++ "\n"

/-- The lines of the settings about the state of the chain. Empty ones are left out. -/
def stateLines (settings : Settings) : List String :=
  (if settings.node.isEmpty then [] else [line "RPC" (Quoted.ofString settings.node)])
    ++ (if settings.nodeTimeout = 0 then []
        else [line "RPCTimeout" (toString settings.nodeTimeout.toNat)])
    ++ (if settings.stateFile.isEmpty then []
        else [line "StateSet" (Quoted.ofString settings.stateFile)])

def table (name : String) (lines : List String) : String :=
  "\n[" ++ name ++ "]\n" ++ String.join lines

def text (settings : Settings) : String :=
  line "CacheSize" (toString settings.cacheSize)
    ++ table "Analysis"
      [line "Revisit" (Quoted.ofString settings.recovery.revisit.name),
        line "MaxContexts" (toString settings.recovery.maxContexts)]
    ++ table "VM"
      [line "MaxCallDepth" (toString settings.machine.maxCallDepth),
        line "MemoryLimit" (toString settings.machine.memoryLimit.toNat),
        line "MeterGas" (if settings.machine.meterGas then "true" else "false")]
    ++ match settings.stateLines with
      | [] => ""
      | lines => table "State" lines

end Settings

end EvmAtlas
