import EvmAtlas.Address
import EvmAtlas.Opcode.Name
import EvmAtlas.Text.Quoted

/-!
# Faults

Why an execution, an analysis or a command could not be completed. A fault is one cause
together with the circumstances it was met in, outermost first. The causes are compared
by callers; the wording of both is fixed here and nowhere else.
-/

namespace EvmAtlas

/-- What went wrong. -/
inductive Cause where
  | stackUnderflow
  | stackOverflow
  | invalidOpcode
  | invalidJump
  | controlFlowEscaped
  | unsupportedOpcode (operation : Unsupported)
  | writeProtection
  | readOnlyState
  | outOfGas
  | memoryLimit
  | gasOverflow
  | executionReverted
  | callDepth
  /-- A text that is no JSON, or not the JSON of what was asked for. -/
  | malformedJson
  /-- A settings file that breaks the grammar of settings files. -/
  | malformedSettings
  /-- The worklist of a recovery outlived its bound. -/
  | recoveryExhausted
  /-- Any other cause, by its text. -/
  | message (text : String)
  deriving DecidableEq, Repr

def Cause.text : Cause → String
  | .stackUnderflow => "stack underflow"
  | .stackOverflow => "stack limit reached"
  | .invalidOpcode => "invalid opcode"
  | .invalidJump => "invalid jump destination"
  | .controlFlowEscaped => "jump target not statically known"
  | .unsupportedOpcode operation => "unsupported opcode " ++ operation.name
  | .writeProtection => "write protection"
  | .readOnlyState => "chain state is read-only"
  | .outOfGas => "out of gas"
  | .memoryLimit => "memory limit exceeded"
  | .gasOverflow => "gas uint64 overflow"
  | .executionReverted => "execution reverted"
  | .callDepth => "max call depth exceeded"
  | .malformedJson => "malformed JSON"
  | .malformedSettings => "malformed settings"
  | .recoveryExhausted => "recovery exhausted"
  | .message text => text

/-- A circumstance in which a cause was met. -/
inductive Context where
  /-- The instruction and its position. -/
  | instruction (opcode : Opcode) (pc : UInt64)
  /-- A byte without an instruction and its position. -/
  | invalidByteAt (byte : UInt8) (pc : UInt64)
  /-- A byte without an instruction. -/
  | invalidByte (byte : UInt8)
  /-- The memory that an instruction asked for. -/
  | memoryNeeded (opcode : Opcode) (pc : UInt64) (size : UInt64)
  /-- A stack lower than the operands of an instruction. -/
  | heightBelow (height : Int) (required : Nat)
  /-- A stack too high for the results of an instruction. -/
  | heightAbove (height limit : Int)
  /-- A stack lower than the operands of a decoded instruction. -/
  | needs (subject : String) (required height : Nat)
  /-- The height of a stack. -/
  | stackHeight (height : Nat)
  /-- A jump that found no destination on the stack. -/
  | emptyStack (opcode : Opcode)
  /-- The operands a computation takes and those it was given. -/
  | operands (opcode : Opcode) (required given : Nat)
  /-- A jump destination taken from the stack. -/
  | destination (word : Word)
  /-- A jump destination that heads no block. -/
  | blockDestination (pc : UInt64)
  /-- The position of an instruction. -/
  | position (pc : UInt64)
  /-- The block under analysis. -/
  | block (pc : UInt64)
  /-- Reading the code of an account. -/
  | code (address : Address)
  /-- Reading the balance of an account. -/
  | balance (address : Address)
  /-- Reading the nonce of an account. -/
  | nonce (address : Address)
  /-- Reading a storage slot of an account. -/
  | storage (slot : Word) (address : Address)
  /-- Writing a storage slot of an account. -/
  | store (slot : Word) (address : Address)
  /-- A call made with a number of frames active. -/
  | staticCall (address : Address) (depth : Nat)
  /-- Reading the block of the chain. -/
  | blockInfo
  /-- Any other circumstance, by its text. -/
  | during (text : String)
  deriving DecidableEq, Repr

def Context.text : Context → String
  | .instruction opcode pc => opcode.name ++ " at pc " ++ toString pc.toNat
  | .invalidByteAt byte pc => "opcode " ++ byteText byte ++ " at pc " ++ toString pc.toNat
  | .invalidByte byte => "opcode " ++ byteText byte
  | .memoryNeeded opcode pc size =>
      opcode.name ++ " at pc " ++ toString pc.toNat ++ " needs " ++ toString size.toNat
        ++ " bytes"
  | .heightBelow height required =>
      "stack height " ++ toString height ++ ", required " ++ toString required
  | .heightAbove height limit =>
      "stack height " ++ toString height ++ ", limit " ++ toString limit
  | .needs subject required height =>
      subject ++ " needs " ++ toString required ++ ", have " ++ toString height
  | .stackHeight height => "height " ++ toString height
  | .emptyStack opcode => opcode.name ++ " on empty stack"
  | .operands opcode required given =>
      opcode.name ++ " takes " ++ toString required ++ " operands, got " ++ toString given
  | .destination word => "destination " ++ word.text
  | .blockDestination pc => "destination " ++ toString pc.toNat
  | .position pc => "pc " ++ toString pc.toNat
  | .block pc => "block " ++ toString pc.toNat
  | .code address => "code of " ++ address.text
  | .balance address => "balance of " ++ address.text
  | .nonce address => "nonce of " ++ address.text
  | .storage slot address => "storage " ++ slot.fullText ++ " of " ++ address.text
  | .store slot address => "store " ++ slot.fullText ++ " of " ++ address.text
  | .staticCall address depth =>
      "static call to " ++ address.text ++ " at depth " ++ toString depth
  | .blockInfo => "block info"
  | .during text => text

/-- A cause and the circumstances it was met in, outermost first. -/
structure Fault where
  contexts : List Context
  cause : Cause
  deriving DecidableEq, Repr

namespace Fault

def ofCause (cause : Cause) : Fault :=
  ⟨[], cause⟩

/-- A fault met in one circumstance. -/
def met (context : Context) (cause : Cause) : Fault :=
  ⟨[context], cause⟩

/-- A fault with only a text. -/
def ofText (text : String) : Fault :=
  ⟨[], .message text⟩

/-- The same fault seen from a circumstance around it. -/
def within (fault : Fault) (context : Context) : Fault :=
  { fault with contexts := context :: fault.contexts }

/-- The complete text of a fault: its circumstances and its cause. -/
def text (fault : Fault) : String :=
  String.intercalate ": " (fault.contexts.map Context.text ++ [fault.cause.text])

@[simp] theorem cause_within (fault : Fault) (context : Context) :
    (fault.within context).cause = fault.cause := rfl

end Fault

end EvmAtlas
