import EvmAtlas.Flow.Instruction

/-!
# Abstract stacks

The analysis tracks an operand stack of which it knows some cells. Applying an
instruction computes results from known operands where they depend on nothing else, and
forgets everything it cannot compute. Joining two stacks keeps what both agree on.
-/

namespace EvmAtlas

/-- A cell of an abstract stack: a known value, or one the analysis does not track. -/
abbrev Cell := Option Word

/-- An abstract operand stack, top first. -/
abbrev SymStack := List Cell

namespace Cell

def text : Cell → String
  | some word => word.text
  | none => "?"

/-- What two cells agree on. -/
def join (left right : Cell) : Cell :=
  if left = right then left else none

end Cell

namespace SymStack

def text (stack : SymStack) : String :=
  "[" ++ String.intercalate " " (stack.reverse.map Cell.text) ++ "]"

/-- What two stacks of one height agree on, cell by cell. -/
def join (left right : SymStack) : SymStack :=
  left.zipWith Cell.join right

/-- The values of cells that are all known. -/
def known? (cells : List Cell) : Option (List Word) :=
  cells.mapM id

/-- Exchange the top of a stack with the cell a number of places below it. -/
def swap (depth : Nat) : SymStack → SymStack
  | [] => []
  | top :: rest =>
      match rest[depth - 1]? with
      | some other => other :: rest.set (depth - 1) top
      | none => top :: rest

end SymStack

namespace Opcode

/-- Apply an instruction to an abstract stack that holds its operands. Results that cannot
be computed ahead are unknown. -/
def applySym (opcode : Opcode) (stack : SymStack) : SymStack :=
  match opcode with
  | .dup index => (stack[index.val]?).getD none :: stack
  | .swap index => stack.swap (index.val + 1)
  | _ =>
      let arity := opcode.arity
      let rest := stack.drop arity.pops
      match (SymStack.known? (stack.take arity.pops)).bind opcode.fold? with
      | some result => some result :: rest
      | none => List.replicate arity.pushes none ++ rest

end Opcode

namespace Instruction

/-- The stack that an instruction leaves, given one that holds its operands. -/
def stackAfter (instruction : Instruction) (stack : SymStack) : SymStack :=
  match instruction.action with
  | .plain opcode => opcode.applySym stack
  | .push _ literal => some literal :: stack
  | .invalid _ | .fall _ => stack
  | .jump _ => stack.drop 1
  | .branch _ _ => stack.drop 2

/-- Apply an instruction to an abstract stack. A stack without its operands, and a byte
without an instruction, leave the stack as it was; a stack that grows past the limit is
left grown. -/
def apply (instruction : Instruction) (stack : SymStack) : SymStack × Except Fault Unit :=
  if stack.length < instruction.arity.pops then
    (stack, .error (.met (.needs instruction.text instruction.arity.pops stack.length)
      .stackUnderflow))
  else
    match instruction.action with
    | .invalid byte => (stack, .error (.met (.invalidByte byte) .invalidOpcode))
    | _ =>
        let grown := instruction.stackAfter stack
        if grown.length > stackLimit then
          (grown, .error (.met (.stackHeight grown.length) .stackOverflow))
        else (grown, .ok ())

end Instruction

end EvmAtlas
