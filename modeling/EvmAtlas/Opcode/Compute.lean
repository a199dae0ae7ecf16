import EvmAtlas.Opcode.Basic

/-!
# Computation

The results of the instructions that depend on nothing but their operands. The machine
computes with these functions while it runs, and the analysis computes with the same
ones ahead of a run. The first argument is the top of the stack.
-/

namespace EvmAtlas

/-- The result of an instruction with one operand. -/
def Unary.eval : Unary → Word → Word
  | .iszero, operand => .ofBool (operand == 0)
  | .not, operand => ~~~operand

/-- The result of an instruction with two operands. -/
def Binary.eval : Binary → Word → Word → Word
  | .add, first, second => first + second
  | .mul, first, second => first * second
  | .sub, first, second => first - second
  | .div, first, second => first.udiv second
  | .sdiv, first, second => first.sdiv second
  | .mod, first, second => Word.remainder first second
  | .smod, first, second => Word.signedRemainder first second
  | .exp, first, second => Word.power first second
  | .signextend, first, second => Word.extendSign first second
  | .lt, first, second => .ofBool (first.ult second)
  | .gt, first, second => .ofBool (second.ult first)
  | .slt, first, second => .ofBool (first.slt second)
  | .sgt, first, second => .ofBool (second.slt first)
  | .eq, first, second => .ofBool (first == second)
  | .and, first, second => first &&& second
  | .or, first, second => first ||| second
  | .xor, first, second => first ^^^ second
  | .byte, first, second => Word.byteAt first second
  | .shl, first, second => Word.shiftLeft first second
  | .shr, first, second => Word.shiftRight first second
  | .sar, first, second => Word.shiftRightSigned first second

/-- The result of an instruction with three operands. -/
def Ternary.eval : Ternary → Word → Word → Word → Word
  | .addmod, first, second, third => Word.addModulo first second third
  | .mulmod, first, second, third => Word.mulModulo first second third

namespace Opcode

/-- Whether the result of an instruction depends on its operands alone. -/
def isFoldable : Opcode → Bool
  | .unary _ | .binary _ | .ternary _ => true
  | _ => false

/-- The result of an instruction that depends on its operands alone, from exactly as many
operands as it takes, top of the stack first. -/
def fold? : Opcode → List Word → Option Word
  | .unary operation, [first] => some (operation.eval first)
  | .binary operation, [first, second] => some (operation.eval first second)
  | .ternary operation, [first, second, third] => some (operation.eval first second third)
  | _, _ => none

end Opcode

end EvmAtlas
