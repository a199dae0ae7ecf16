import EvmAtlas.Text.Calendar

/-!
# Values of a settings file

A value is a scalar or an array. Numbers and moments are kept as they are written, because
messages repeat them.
-/

namespace EvmAtlas

/-- The kinds of values. -/
inductive SettingKind where
  | integer | float | datetime | boolean | string | array
  deriving DecidableEq, Repr

def SettingKind.name : SettingKind → String
  | .integer => "integer"
  | .float => "float"
  | .datetime => "datetime"
  | .boolean => "boolean"
  | .string => "string"
  | .array => "array"

inductive SettingValue where
  | integer (source : List Char)
  | float (source : List Char)
  | datetime (source : List Char) (moment : Moment)
  | boolean (value : Bool)
  | string (text : String)
  /-- No setting is an array, so its items are not kept. -/
  | array

def SettingValue.kind : SettingValue → SettingKind
  | .integer _ => .integer
  | .float _ => .float
  | .datetime _ _ => .datetime
  | .boolean _ => .boolean
  | .string _ => .string
  | .array => .array

end EvmAtlas
