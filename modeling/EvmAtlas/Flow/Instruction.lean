import EvmAtlas.Code

/-!
# Decoded instructions

The analysis works on decoded instructions: pushes carry their literal, jumps the
destinations found for them so far, and a conditional jump also the position it falls
through to. A block that runs into a jump destination ends in a marker that has no byte
of its own.
-/

namespace EvmAtlas

/-- What a decoded instruction does. -/
inductive Action where
  /-- An instruction without a payload. -/
  | plain (opcode : Opcode)
  /-- A byte without an instruction. -/
  | invalid (byte : UInt8)
  /-- A push and its literal. -/
  | push (index : Fin 32) (literal : Word)
  /-- A jump and the destinations found for it, ascending. -/
  | jump (destinations : List UInt64)
  /-- A conditional jump, its destinations, and the position it falls through to. -/
  | branch (destinations : List UInt64) (next : UInt64)
  /-- The end of a block right before a jump destination. -/
  | fall (next : UInt64)
  deriving DecidableEq, Repr

/-- A decoded instruction and its position. A fall has the position of the jump
destination it runs into. -/
structure Instruction where
  pc : UInt64
  action : Action
  deriving DecidableEq, Repr

/-- The kinds of decoded instructions that listings tell apart. -/
inductive Kind where
  | plain | push | jump | branch | fall
  deriving DecidableEq, Repr

namespace Kind

def name : Kind → String
  | .plain => "plain"
  | .push => "push"
  | .jump => "jump"
  | .branch => "condjump"
  | .fall => "fallthrough"

def ofNumber? : Nat → Option Kind
  | 0 => some .plain
  | 1 => some .push
  | 2 => some .jump
  | 3 => some .branch
  | 4 => some .fall
  | _ => none

/-- The name of the kind with a given number, or a description of the number. -/
def numberText (number : Nat) : String :=
  match ofNumber? number with
  | some kind => kind.name
  | none => "kind(" ++ toString number ++ ")"

end Kind

/-- Add a position to an ascending list that does not hold it yet. -/
def insertPosition (position : UInt64) : List UInt64 → List UInt64
  | [] => [position]
  | first :: rest =>
      if position < first then position :: first :: rest
      else if position = first then first :: rest
      else first :: insertPosition position rest

/-- Positions between brackets, separated by blanks. -/
def positionsText (positions : List UInt64) : String :=
  "[" ++ String.intercalate " " (positions.map fun position => toString position.toNat) ++ "]"

namespace Instruction

def kind (instruction : Instruction) : Kind :=
  match instruction.action with
  | .plain _ | .invalid _ => .plain
  | .push _ _ => .push
  | .jump _ => .jump
  | .branch _ _ => .branch
  | .fall _ => .fall

/-- The byte that an instruction was decoded from. A fall has none. -/
def byte? (instruction : Instruction) : Option UInt8 :=
  match instruction.action with
  | .plain opcode => some opcode.toByte
  | .invalid byte => some byte
  | .push index _ => some (Opcode.push index).toByte
  | .jump _ => some Opcode.jump.toByte
  | .branch _ _ => some Opcode.jumpi.toByte
  | .fall _ => none

def isFinal (instruction : Instruction) : Bool :=
  match instruction.action with
  | .plain opcode => opcode.isBlockFinal
  | .push _ _ => false
  | .invalid _ | .jump _ | .branch _ _ | .fall _ => true

def arity (instruction : Instruction) : Arity :=
  match instruction.action with
  | .plain opcode => opcode.arity
  | .invalid _ => ⟨0, 0⟩
  | .push _ _ => ⟨0, 1⟩
  | .jump _ => ⟨1, 0⟩
  | .branch _ _ => ⟨2, 0⟩
  | .fall _ => ⟨0, 0⟩

/-- The gas of an instruction whatever its operands. -/
def gas (instruction : Instruction) : UInt64 :=
  match instruction.byte? with
  | some byte => Opcode.byteGas byte
  | none => 0

/-- The jump destinations found for an instruction, ascending. -/
def destinations (instruction : Instruction) : List UInt64 :=
  match instruction.action with
  | .jump found | .branch found _ => found
  | _ => []

/-- The position that control reaches without a jump, where the instruction fixes it. -/
def next? (instruction : Instruction) : Option UInt64 :=
  match instruction.action with
  | .branch _ next | .fall next => some next
  | _ => none

/-- Record a destination found for a jump. -/
def addDestination (instruction : Instruction) (destination : UInt64) : Instruction :=
  match instruction.action with
  | .jump found => { instruction with action := .jump (insertPosition destination found) }
  | .branch found next =>
      { instruction with action := .branch (insertPosition destination found) next }
  | _ => instruction

def text (instruction : Instruction) : String :=
  match instruction.action with
  | .plain opcode => opcode.name
  | .invalid byte => Opcode.byteName byte
  | .push index literal => (Opcode.push index).name ++ " " ++ literal.text
  | .jump found => "JUMP " ++ positionsText found
  | .branch found next => "JUMPI " ++ positionsText found ++ " else " ++ toString next.toNat
  | .fall next => "FALLTHROUGH " ++ toString next.toNat

end Instruction

end EvmAtlas
