import EvmAtlas.Machine.Run
import EvmAtlas.Proofs.Contents

/-!
# Deeds of memory

A `Deed` says which bytes of memory an instruction reads and which it writes, in unbounded
numbers. A `History` is what a frame has done so far; it has a byte for every position, the one
that was last written there or zero. Memory that `Recalls` a history holds just these bytes, and
it reaches in whole words as far as the deeds do. `Machine.deed` is what an instruction does.
-/

namespace EvmAtlas

variable {σ : Type}

theorem Word.size_toBytes (word : Word) : word.toBytes.size = 32 :=
  Array.size_ofFn

/-! ## Histories of memory -/

/-- What an instruction reads from memory, and what it writes to it. -/
structure Deed where
  readAt : Nat := 0
  readSize : Nat := 0
  writtenAt : Nat := 0
  written : Bytes := ByteArray.empty

/-- Whether a deed writes to a position. -/
def Deed.Writes (deed : Deed) (position : Nat) : Prop :=
  deed.writtenAt ≤ position ∧ position < deed.writtenAt + deed.written.size

instance (deed : Deed) (position : Nat) : Decidable (deed.Writes position) :=
  inferInstanceAs (Decidable (_ ∧ _))

/-- Where the furthest byte ends that a deed reads or writes. -/
def Deed.reach (deed : Deed) : Nat :=
  max (Memory.stop deed.writtenAt deed.written.size) (Memory.stop deed.readAt deed.readSize)

theorem Deed.reach_of_read (offset length : Word) :
    Region.reach [⟨offset, length⟩] =
      Deed.reach { readAt := offset.toNat, readSize := length.toNat } :=
  Nat.max_comm _ _

theorem Deed.reach_of_written {offset length : Word} {data : Bytes}
    (size_eq : data.size = length.toNat) :
    Region.reach [⟨offset, length⟩] =
      Deed.reach { writtenAt := offset.toNat, written := data } := by
  rw [Deed.reach, size_eq]
  rfl

/-- What a frame has done, last first. -/
abbrev History := List Deed

namespace History

/-- How far the deeds reach. -/
def reach : History → Nat
  | [] => 0
  | deed :: before => max deed.reach (reach before)

/-- The byte that was last written at a position, zero if none was. -/
def byteAt : History → Nat → UInt8
  | [], _ => 0
  | deed :: before, position =>
      if deed.Writes position then deed.written.byteAt (position - deed.writtenAt)
      else byteAt before position

/-- The bytes of a region, each as it was last written. -/
def window (history : History) (offset size : Nat) : Bytes :=
  Bytes.ofList ((List.range' offset size).map history.byteAt)

end History

namespace Memory

/-- Memory after a deed. -/
def perform (memory : Memory) (deed : Deed) : Memory :=
  memory.write deed.writtenAt deed.written.size deed.written

theorem Holds.write_eq_perform {memory : Memory} {offset length : Word} {data : Bytes}
    (holds : memory.Holds ⟨offset, length⟩) (size_eq : data.size = length.toNat) :
    memory.write offset.low64.toNat data.size data =
      memory.perform { writtenAt := offset.toNat, written := data } := by
  rw [perform]
  rcases holds.bounds with ⟨nothing, -⟩ | ⟨offset_eq, -⟩
  · rw [size_eq, nothing, write, write, if_pos rfl, if_pos rfl]
  · rw [offset_eq]

theorem Holds.copy_eq_perform {memory : Memory} {region : Region} (holds : memory.Holds region)
    (source : Bytes) (start : Nat) :
    memory.write region.offset.low64.toNat region.length.low64.toNat
        (source.window start region.length.low64.toNat) =
      memory.perform
        { writtenAt := region.offset.toNat
          written := source.window start region.length.toNat } := by
  rw [holds.write_eq, perform, Bytes.size_window]

/-- Memory that holds what a history has left in it. -/
structure Recalls (memory : Memory) (history : History) : Prop where
  size_eq : memory.size = wholeWords history.reach
  byteAt_eq : ∀ position, memory.bytes.byteAt position = history.byteAt position

variable {memory : Memory} {history : History}

theorem recalls_empty : Memory.empty.Recalls [] where
  size_eq := rfl
  byteAt_eq _ := rfl

theorem wholeWords_max (first second : Nat) :
    wholeWords (max first second) = max (wholeWords first) (wholeWords second) := by
  unfold wholeWords
  omega

theorem le_wholeWords (size : Nat) : size ≤ wholeWords size := by
  unfold wholeWords
  omega

theorem Recalls.window_eq (recalls : memory.Recalls history) (offset size : Nat) :
    memory.bytes.window offset size = history.window offset size := by
  apply ByteArray.ext
  apply Array.ext'
  change (memory.bytes.window offset size).toList = (History.window history offset size).toList
  rw [Bytes.toList_window, Bytes.stretch]
  exact List.map_congr_left fun position _ => recalls.byteAt_eq position

/-- Memory that was grown for a deed has room for what is written. -/
theorem covers_grow (memory : Memory) {deed : Deed} {size : Nat}
    (size_eq : size = wholeWords deed.reach) :
    (memory.grow size).Covers deed.writtenAt deed.written.size := by
  by_cases nothing : deed.written.size = 0
  · exact .inl nothing
  · right
    have reached : deed.writtenAt + deed.written.size ≤ deed.reach := by
      rw [Deed.reach, stop, if_neg nothing]
      exact Nat.le_max_left _ _
    rw [size_grow, size_eq]
    exact Nat.le_trans (Nat.le_trans reached (le_wholeWords _)) (Nat.le_max_right _ _)

/-- What is found in memory that was grown for a deed, once it is done. -/
theorem byteAt_perform (memory : Memory) {deed : Deed} {size : Nat}
    (size_eq : size = wholeWords deed.reach) (position : Nat) :
    ((memory.grow size).perform deed).bytes.byteAt position =
      if deed.Writes position then deed.written.byteAt (position - deed.writtenAt)
      else memory.bytes.byteAt position := by
  rw [perform, byteAt_write (covers_grow memory size_eq), byteAt_grow]
  rfl

theorem size_perform (memory : Memory) {deed : Deed} {size : Nat}
    (size_eq : size = wholeWords deed.reach) :
    ((memory.grow size).perform deed).size = max memory.size size := by
  rw [perform, size_write (covers_grow memory size_eq), size_grow]

/-- Memory goes on to recall a history with the next deed. -/
theorem Recalls.perform (recalls : memory.Recalls history) {deed : Deed} {size : Nat}
    (size_eq : size = wholeWords deed.reach) :
    ((memory.grow size).perform deed).Recalls (deed :: history) := by
  constructor
  · rw [size_perform memory size_eq, recalls.size_eq, size_eq, ← wholeWords_max, Nat.max_comm]
    rfl
  · intro position
    rw [byteAt_perform memory size_eq, recalls.byteAt_eq]
    rfl

end Memory

/-! ## The deeds of instructions -/

/-- Whether an instruction writes to memory. -/
def Opcode.writesMemory : Opcode → Bool
  | .mstore | .mstore8 | .copy _ | .extcodecopy | .staticcall => true
  | _ => false

namespace Machine

/-- What an instruction of a frame reads and writes. The data of a static call are only known
once the frame has gone on. -/
def deed (chain : Chain σ) (machine : Machine σ) (opcode : Opcode) (after : Machine σ) : Deed :=
  match opcode with
  | .mload =>
      match machine.frame.stack with
      | offset :: _ => { readAt := offset.toNat, readSize := 32 }
      | _ => {}
  | .sha3 | .log _ | .return | .revert =>
      match machine.frame.stack with
      | offset :: length :: _ => { readAt := offset.toNat, readSize := length.toNat }
      | _ => {}
  | .mstore =>
      match machine.frame.stack with
      | offset :: word :: _ => { writtenAt := offset.toNat, written := word.toBytes }
      | _ => {}
  | .mstore8 =>
      match machine.frame.stack with
      | offset :: word :: _ =>
          { writtenAt := offset.toNat, written := Bytes.ofList [word.low64.toUInt8] }
      | _ => {}
  | .copy source =>
      match machine.frame.stack with
      | offset :: dataOffset :: length :: _ =>
          { writtenAt := offset.toNat
            written := (machine.source source).window dataOffset.clamp64.toNat length.toNat }
      | _ => {}
  | .extcodecopy =>
      match machine.frame.stack with
      | account :: offset :: dataOffset :: length :: _ =>
          let code := (chain.code account.toAddress machine.chain).1.toOption.getD ByteArray.empty
          { writtenAt := offset.toNat
            written := code.window dataOffset.clamp64.toNat length.toNat }
      | _ => {}
  | .staticcall =>
      match machine.frame.stack with
      | _ :: _ :: inOffset :: inLength :: outOffset :: outLength :: _ =>
          { readAt := inOffset.toNat
            readSize := inLength.toNat
            writtenAt := outOffset.toNat
            written := after.registers.returnData.window 0 outLength.toNat }
      | _ => {}
  | _ => {}

theorem written_of_quiet (chain : Chain σ) {machine : Machine σ} {opcode : Opcode}
    (quiet : opcode.writesMemory = false) (after : Machine σ) :
    (machine.deed chain opcode after).written = ByteArray.empty := by
  cases opcode with
  | mstore | mstore8 | copy | extcodecopy | staticcall => cases quiet
  | mload | sha3 | log | «return» | revert =>
      unfold deed
      dsimp only
      split
      · rfl
      · rfl
  | _ => rfl

/-- The regions that memory is grown for reach as far as the deed of the instruction. -/
theorem reach_deed (chain : Chain σ) {machine : Machine σ} {opcode : Opcode}
    {regions : List Region} (enough : opcode.arity.pops ≤ machine.frame.stack.length)
    (touched : opcode.regions? machine.frame.stack = some regions) (after : Machine σ) :
    Region.reach regions = (machine.deed chain opcode after).reach := by
  obtain ⟨⟨caller, address, code, input, value, gas, pc, stack, memory⟩, callers, registers,
    state⟩ := machine
  dsimp only at enough touched
  cases opcode with
  | mload =>
      cases stack with
      | nil => cases enough
      | cons =>
          cases touched
          exact Deed.reach_of_read _ _
  | sha3 | log | «return» | revert =>
      rcases stack with _ | ⟨_, _ | ⟨_, _⟩⟩
      case cons.cons =>
        cases touched
        exact Deed.reach_of_read _ _
      all_goals simp [Opcode.arity] at enough
  | mstore =>
      rcases stack with _ | ⟨_, _ | ⟨_, _⟩⟩
      case cons.cons =>
        cases touched
        exact Deed.reach_of_written (Word.size_toBytes _)
      all_goals simp [Opcode.arity] at enough
  | mstore8 =>
      rcases stack with _ | ⟨_, _ | ⟨_, _⟩⟩
      case cons.cons =>
        cases touched
        exact Deed.reach_of_written rfl
      all_goals simp [Opcode.arity] at enough
  | copy source =>
      rcases stack with _ | ⟨_, _ | ⟨_, _ | ⟨_, _⟩⟩⟩
      case cons.cons.cons =>
        cases touched
        exact Deed.reach_of_written (Bytes.size_window _ _ _)
      all_goals simp [Opcode.arity] at enough
  | extcodecopy =>
      rcases stack with _ | ⟨_, _ | ⟨_, _ | ⟨_, _ | ⟨_, _⟩⟩⟩⟩
      case cons.cons.cons.cons =>
        cases touched
        exact Deed.reach_of_written (Bytes.size_window _ _ _)
      all_goals simp [Opcode.arity] at enough
  | staticcall =>
      rcases stack with _ | ⟨_, _ | ⟨_, _ | ⟨_, _ | ⟨_, _ | ⟨_, _ | ⟨_, _⟩⟩⟩⟩⟩⟩
      case cons.cons.cons.cons.cons.cons =>
        cases touched
        simp only [deed, Deed.reach, Bytes.size_window]
        exact congrArg (max _) (Nat.max_zero _)
      all_goals simp [Opcode.arity] at enough
  | _ =>
      cases touched
      rfl

end Machine

end EvmAtlas
