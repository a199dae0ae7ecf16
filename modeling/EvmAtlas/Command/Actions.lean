import EvmAtlas.Chain.Overlay
import EvmAtlas.Chain.StateSetJson
import EvmAtlas.Command.Script
import EvmAtlas.Flow.Graph
import EvmAtlas.Flow.Listing
import EvmAtlas.Machine.Run
import EvmAtlas.Settings.Basic

/-!
# Actions

What the commands do: list a program, draw its control-flow graph, run a call, and show the
settings. An action is given its options as they were read from the command line, and how the
content of a settings file is read.
-/

namespace EvmAtlas

/-- The options that name code. -/
structure CodeOptions where
  code? : Option String := none
  codeFile? : Option String := none
  /-- What follows the options. -/
  arguments : List String := []

/-- The options of a graph. -/
structure GraphOptions extends CodeOptions where
  configFile : String := ""
  revisit? : Option String := none
  out : String := ""

/-- The options of a run. -/
structure RunOptions extends CodeOptions where
  configFile : String := ""
  input : String := ""
  address : String := "0x00000000000000000000000000000000000000ca"
  sender : String := "0x00000000000000000000000000000000000000cf"
  value : UInt64 := 0
  gas : UInt64 := 10000000
  stateFile? : Option String := none
  node? : Option String := none
  save : String := ""

/-- How a settings file is read, given its name and its content. -/
abbrev SettingsReader := String → Bytes → Except Fault Settings

namespace Command

/-- The settings in a file, or the defaults without one. -/
def settings (read : SettingsReader) (file : String) : Command Settings := do
  if file.isEmpty then return {}
  let content ← readFile file
  ofExcept (read file content)

def codeFile (path : String) : Command Bytes := do
  let content ← readFile path
  ofExcept (HexInput.readBytes content)

/-- The code that a command is about: from an option, or from the file that an option or the
first argument names. -/
def code (options : CodeOptions) : Command Bytes :=
  match options.code?, options.codeFile?, options.arguments with
  | some text, _, _ => ofExcept (HexInput.read text)
  | none, some path, _ => codeFile path
  | none, none, path :: _ => codeFile path
  | none, none, [] => throw (.ofText "missing --code, --codefile or filename")

def listCode (options : CodeOptions) : Command Unit := do
  print (listing (← code options))

/-- Recover the control-flow graph of a program and draw it. -/
def drawGraph (read : SettingsReader) (options : GraphOptions) : Command Unit := do
  let settings ← settings read options.configFile
  let config ←
    match options.revisit? with
    | some name => do
        let revisit ← ofExcept (RevisitPolicy.ofName name)
        pure { settings.recovery with revisit }
    | none => pure settings.recovery
  let code ← code options.toCodeOptions
  let (recovered, _) := (ProgramCache.empty settings.cacheSize config).request code
  let program ← ofExcept recovered.result
  if options.out.isEmpty then print program.dot else writeFile options.out program.dot

/-- A state set and the writes of an overlay on the chain. -/
abbrev CallState := StateSet × Records

/-- The scheme of the address of a node, in lower case: letters, digits and a few signs in
front of a colon, beginning with a letter. -/
def scheme (address : String) : String :=
  let chars := address.toList
  let isPart (char : Char) : Bool :=
    char.isAlphanum || char == '+' || char == '-' || char == '.'
  match chars.dropWhile isPart with
  | ':' :: _ =>
      if (chars.head?.map Char.isAlpha).getD false then
        String.ofList ((chars.takeWhile isPart).map Char.toLower)
      else ""
  | _ => ""

/-- The chain that a call runs on, and the state set it comes from. Nodes cannot be
reached. Without a state set the chain is empty and its block is now. -/
def openChain (settings : Settings) : Command (Chain CallState × StateSet) := do
  if !settings.node.isEmpty then
    throw (.met (.during ("dialing " ++ settings.node))
      (.message ("no known transport for URL scheme "
        ++ Quoted.ofString (scheme settings.node))))
  else if settings.stateFile.isEmpty then
    return (emptyChain { timestamp := ← now }, {})
  else
    let content ← within (readFile settings.stateFile) "reading state set"
    let set ← within (ofExcept (StateSet.ofBytes content))
      ("decoding state set " ++ settings.stateFile)
    return (StateSet.chain .first, set)

def logLine (log : Log) : String :=
  "log " ++ log.address.text ++ " topics ["
    ++ String.intercalate " " (log.topics.map Word.fullText) ++ "] data " ++ log.data.text
    ++ "\n"

/-- What is printed about a call that ran to its end. -/
def report (config : MachineConfig) (result : CallResult) : String :=
  result.text ++ "\n"
    ++ (if config.meterGas then "gas left: " ++ toString result.gasLeft.toNat ++ "\n" else "")
    ++ String.join (result.logs.map logLine)

/-- The result of a call that ran to its end. -/
def completed : Verdict → Command CallResult
  | .completed result => return result
  | .failed fault => throw fault
  | .crashed _ => throw (.ofText "the machine crashed")
  | .unfinished => throw (.ofText "the call did not end")

/-- Save a state set with the writes of an overlay to a file. -/
def save (path : String) (state : CallState) : Command Unit := do
  let (outcome, committed) := Overlay.commit .second (StateSet.writer .first) state
  ofExcept outcome
  within (writeFile path committed.1.toJson.indentedText) "writing state set"

/-- The account that a run calls. -/
def callee (options : RunOptions) : Address :=
  Address.ofText options.address

/-- The call that a run makes. -/
def requestedCall (options : RunOptions) (input : Bytes) : Call where
  sender := Address.ofText options.sender
  address := callee options
  input := input
  value := some (Word.ofUInt64 options.value)
  gas := options.gas

/-- Report a call that ran to its end, and save the state after it if it returned and a file
is named. -/
def conclude (config : MachineConfig) (path : String) (verdict : Verdict) (state : CallState) :
    Command Unit := do
  let result ← completed verdict
  print (report config result)
  if !path.isEmpty && !result.reverted then save path state

/-- Make the call of a run on an overlay. -/
def makeCall (config : MachineConfig) (options : RunOptions) (base : Chain CallState)
    (state : CallState) (input : Bytes) : Command Unit :=
  let call := requestedCall options input
  let (verdict, after) := evaluate (Overlay.chain .second base) none
    (some { origin := call.sender }) call (some config) manySteps state
  conclude config options.save verdict after

/-- Run a call and report it. The state after a call that returned can be saved. -/
def runCall (read : SettingsReader) (options : RunOptions) : Command Unit := do
  let settings ← settings read options.configFile
  let settings := { settings with
    node := options.node?.getD settings.node
    stateFile := options.stateFile?.getD settings.stateFile }
  let (base, set) ← openChain settings
  let records ←
    match ← outcome (code options.toCodeOptions) with
    | .ok code => pure (({} : Records).note (.code (callee options) code))
    | .error fault =>
        if settings.stateFile.isEmpty && settings.node.isEmpty then throw fault
        else pure {}
  let input ← within (ofExcept (HexInput.read options.input)) "input"
  makeCall settings.machine options base (set, records) input

def showSettings (read : SettingsReader) (file : String) : Command Unit := do
  print (← settings read file).text

end Command

end EvmAtlas
