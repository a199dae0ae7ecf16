import EvmAtlas.Fault
import EvmAtlas.Text.Numeral

/-!
# Flags

The arguments of a command begin with its flags, each with a value: in the next argument or
after an equals sign. The first argument that is no flag ends them. A flag may be repeated,
and then the last value counts. This much is enough to run the program. It knows no help, and
nothing is proved about it.
-/

namespace EvmAtlas

/-- What the value of a flag has to be. -/
inductive FlagKind where
  | text | signed | unsigned
  deriving DecidableEq, Repr

/-- Whether a value is one of a kind. -/
def FlagKind.accepts (kind : FlagKind) (value : String) : Bool :=
  match kind with
  | .text => true
  | .signed => (Numeral.toInt64? value).isSome
  | .unsigned => (Numeral.toUInt64? value).isSome

/-- The flags that are set, and the arguments after them. -/
structure Flags where
  /-- Names and values, the last one first. -/
  values : List (String × String) := []
  arguments : List String := []
  deriving DecidableEq, Repr

namespace Flags

/-- The name of a flag and the value after an equals sign, if an argument is a flag. -/
def split? (argument : String) : Option (String × Option String) :=
  let named (body : List Char) : Option (String × Option String) :=
    let name := body.takeWhile (· != '=')
    let value :=
      match body.dropWhile (· != '=') with
      | _ :: rest => some (String.ofList rest)
      | [] => none
    some (String.ofList name, value)
  match argument.toList with
  | '-' :: '-' :: first :: rest => named (first :: rest)
  | '-' :: first :: rest => if first = '-' then none else named (first :: rest)
  | _ => none

/-- Set a flag to a value of its kind. -/
def set (flags : Flags) (name value : String) (kind : FlagKind) : Except Fault Flags :=
  if kind.accepts value then .ok { flags with values := (name, value) :: flags.values }
  else
    .error (.ofText ("invalid value " ++ Quoted.ofString value ++ " for flag -" ++ name
      ++ ": parse error"))

/-- Read the flags in front of other arguments. -/
def read (kinds : List (String × FlagKind)) (flags : Flags) :
    List String → Except Fault Flags
  | [] => .ok flags
  | argument :: rest =>
      if argument = "--" then .ok { flags with arguments := rest }
      else
        match split? argument with
        | none => .ok { flags with arguments := argument :: rest }
        | some (name, value) =>
            match kinds.lookup name with
            | none => .error (.ofText ("flag provided but not defined: -" ++ name))
            | some kind =>
                match value with
                | some value =>
                    (flags.set name value kind).bind fun next => read kinds next rest
                | none =>
                    match rest with
                    | value :: more =>
                        (flags.set name value kind).bind fun next => read kinds next more
                    | [] => .error (.ofText ("flag needs an argument: -" ++ name))

/-- The value of a flag that is set. -/
def get? (flags : Flags) (name : String) : Option String :=
  flags.values.lookup name

/-- The value of a flag, or a default. -/
def getD (flags : Flags) (name default : String) : String :=
  (flags.get? name).getD default

/-- The number that is the value of a flag, or a default. -/
def uint64D (flags : Flags) (name : String) (default : UInt64) : UInt64 :=
  ((flags.get? name).bind Numeral.toUInt64?).getD default

end Flags

end EvmAtlas
