import EvmAtlas.Settings.Basic
import EvmAtlas.Settings.Tree
import EvmAtlas.Text.Scientific

/-!
# Reading settings

A settings file changes the defaults. Names are compared with regard to case, and a name
that is not known is an error, as is a value of the wrong kind. What is proved of commands holds
for any other way to read such a file as well.
-/

namespace EvmAtlas

/-- A kind of setting: its name in messages, and how a value is read. -/
structure SettingType (α : Type) where
  name : String
  read : SettingValue → Except String α

namespace SettingType

/-- What is said of something that is no setting of a type. -/
def mismatch (found name need : String) : String :=
  "cannot unmarshal TOML " ++ found ++ " into " ++ name
    ++ if need.isEmpty then "" else " (need " ++ need ++ ")"

/-- What is said of a number that cannot be read. -/
def badNumber (reader problem : String) (digits : List Char) : String :=
  "strconv." ++ reader ++ ": parsing " ++ Quoted.ofString (String.ofList digits) ++ ": "
    ++ problem

/-- What is said of a whole number that a type does not have. -/
def outOfRange (name : String) (digits : List Char) : String :=
  "value " ++ String.ofList digits ++ " is out of range for " ++ name

/-- What is said of a moment that does not exist. -/
def badMoment : MomentProblem → String
  | .outOfRange part => part.name ++ " out of range"
  | .extraText text => "extra text: " ++ Quoted.ofString text

/-- A number as it is written without underscores. -/
def withoutUnderscores (source : List Char) : List Char :=
  source.filter (· != '_')

/-- What is wrong with a value whatever it is for: a number too large, or a moment that
does not exist. -/
def problem? : SettingValue → Option String
  | .float source =>
      let digits := withoutUnderscores source
      if (Scientific.ofText digits).isTooLarge then
        some (badNumber "ParseFloat" "value out of range" digits)
      else none
  | .datetime source moment =>
      moment.problem?.map fun problem =>
        "parsing time " ++ Quoted.ofString (String.ofList source) ++ ": " ++ badMoment problem
  | _ => none

/-- What is said of a value that is no setting of a type. What is wrong with the value
itself comes first. -/
def refusal (name : String) (value : SettingValue) : String :=
  match problem? value with
  | some problem => problem
  | none => mismatch value.kind.name name (if value.kind = .array then "slice" else "")

def int : SettingType Int where
  name := "int"
  read
    | .integer source =>
        let digits := withoutUnderscores source
        match Decimal.toSigned? digits with
        | none => .error (badNumber "ParseInt" "invalid syntax" digits)
        | some number =>
            if -0x8000000000000000 ≤ number ∧ number < 0x8000000000000000 then .ok number
            else .error (outOfRange "int" digits)
    | value => .error (refusal "int" value)

/-- An unsigned 64-bit number. A sign is not accepted. -/
def uint64 : SettingType UInt64 where
  name := "uint64"
  read
    | .integer source =>
        let digits := withoutUnderscores source
        match Decimal.toNat? digits with
        | none => .error (badNumber "ParseUint" "invalid syntax" digits)
        | some number =>
            if number < UInt64.size then .ok (UInt64.ofNat number)
            else .error (outOfRange "uint64" digits)
    | value => .error (refusal "uint64" value)

def bool : SettingType Bool where
  name := "bool"
  read
    | .boolean value => .ok value
    | value => .error (refusal "bool" value)

def string : SettingType String where
  name := "string"
  read
    | .string text => .ok text
    | value => .error (refusal "string" value)

/-- A revisit policy by its name. A value that is no string is taken as it is written. -/
def policy : SettingType RevisitPolicy where
  name := "analysis.RevisitPolicy"
  read value :=
    let named (text : String) : Except String RevisitPolicy :=
      (RevisitPolicy.ofName text).mapError Fault.text
    match value with
    | .string text => named text
    | .integer source | .float source | .datetime source _ => named (String.ofList source)
    | .boolean value => named (if value then "true" else "false")
    | .array => .error (mismatch "array" "analysis.RevisitPolicy" "")

end SettingType

/-- How a node changes settings. The first argument names the setting in messages. -/
abbrev SettingReader :=
  String → Settings → SettingNode → Except SettingsFault Settings

/-- A setting that is a single value. -/
def SettingReader.ofType {α : Type} (type : SettingType α)
    (store : Settings → α → Settings) : SettingReader :=
  fun subject settings node =>
    match node with
    | .value line value =>
        match type.read value with
        | .ok value => .ok (store settings value)
        | .error text => .error (.atLine line (some subject) text)
    | .table line _ _ =>
        .error (.atLine line none (SettingType.mismatch "table" type.name "struct or map"))
    | .tables line _ =>
        .error (.atLine line (some subject)
          (SettingType.mismatch "array table" type.name "slice"))

def SettingNode.line : SettingNode → Nat
  | .value line _ | .table line _ _ | .tables line _ => line

/-- A group of settings: its name in messages, where it is documented, and its members. -/
structure SettingGroup where
  name : String
  hint : String := ""
  readers : List (String × SettingReader)

namespace SettingGroup

def readMember (group : SettingGroup) (settings : Settings) (entry : String × SettingNode) :
    Except SettingsFault Settings :=
  match group.readers.lookup entry.1 with
  | some read => read (group.name ++ "." ++ entry.1) settings entry.2
  | none =>
      .error (.atLine entry.2.line none
        ("field '" ++ entry.1 ++ "' is not defined in " ++ group.name ++ group.hint))

def readMembers (group : SettingGroup) (settings : Settings) (members : SettingMembers) :
    Except SettingsFault Settings :=
  members.foldlM group.readMember settings

/-- A setting that is a group of settings. -/
def reader (group : SettingGroup) : SettingReader :=
  fun subject settings node =>
    match node with
    | .table _ _ members => group.readMembers settings members
    | .value line value =>
        .error (.atLine line (some subject) (SettingType.refusal group.name value))
    | .tables line _ =>
        .error (.atLine line (some subject)
          (SettingType.mismatch "array table" group.name "slice"))

/-- Where the settings of a package are documented. -/
def documentation (package : String) : String :=
  ", see https://pkg.go.dev/github.com/practical-formal-methods/evmflow/" ++ package
    ++ "#Config for available fields"

def recovery : SettingGroup where
  name := "analysis.Config"
  hint := documentation "analysis"
  readers :=
    [("Revisit", .ofType .policy fun settings revisit =>
        { settings with recovery := { settings.recovery with revisit } }),
      ("MaxContexts", .ofType .int fun settings maxContexts =>
        { settings with recovery := { settings.recovery with maxContexts } })]

/-- The limits of the machine. -/
def machine : SettingGroup where
  name := "vm.Config"
  hint := documentation "vm"
  readers :=
    [("MaxCallDepth", .ofType .int fun settings maxCallDepth =>
        { settings with machine := { settings.machine with maxCallDepth } }),
      ("MemoryLimit", .ofType .uint64 fun settings memoryLimit =>
        { settings with machine := { settings.machine with memoryLimit } }),
      ("MeterGas", .ofType .bool fun settings meterGas =>
        { settings with machine := { settings.machine with meterGas } })]

/-- Where the state of the chain comes from. -/
def state : SettingGroup where
  name := "main.stateConfig"
  readers :=
    [("RPC", .ofType .string fun settings node => { settings with node }),
      ("RPCTimeout", .ofType .uint64 fun settings nodeTimeout =>
        { settings with nodeTimeout }),
      ("StateSet", .ofType .string fun settings stateFile => { settings with stateFile })]

def all : SettingGroup where
  name := "main.evmflowConfig"
  readers :=
    [("Analysis", recovery.reader),
      ("CacheSize", .ofType .int fun settings cacheSize => { settings with cacheSize }),
      ("VM", machine.reader),
      ("State", state.reader)]

end SettingGroup

/-- The settings that a file makes of the defaults. -/
def Settings.read (file text : String) : Except Fault Settings :=
  ((SettingMembers.read text).bind (SettingGroup.all.readMembers {})).mapError
    (SettingsFault.toFault file)

end EvmAtlas
