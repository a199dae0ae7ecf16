import EvmAtlas.Proofs.Bounds
import EvmAtlas.Proofs.Returning

/-!
# Copies with zero fill

The instructions that copy to memory read their source as if zeros without end followed it. An
offset is a word: one that is no 64-bit number is clamped to the greatest one, and an offset just
below it wraps around when the length is added to it. `Memory.Receives` says what a copy has to
do in unbounded numbers, and every instruction that copies does that, a static call with the
data of its callee included. What is then in memory is what `Bytes.clipped?` cuts out of the source
in 64-bit numbers.
-/

namespace EvmAtlas

variable {σ : Type}

namespace Bytes

theorem window_eq_window {left right : Bytes} {start other size : Nat}
    (same : ∀ index < size, left.byteAt (start + index) = right.byteAt (other + index)) :
    left.window start size = right.window other size := by
  apply ByteArray.ext
  apply Array.ext'
  change (left.window start size).toList = (right.window other size).toList
  rw [toList_window, toList_window, stretch, stretch, List.range'_eq_map_range,
    List.range'_eq_map_range, List.map_map, List.map_map]
  exact List.map_congr_left fun index inside => same index (List.mem_range.mp inside)

theorem window_clamp64 {bytes : Bytes} (short : bytes.size < 2 ^ 64) (start : Word)
    (size : Nat) : bytes.window start.clamp64.toNat size = bytes.window start.toNat size := by
  by_cases small : start.toNat < UInt64.size
  · rw [Word.clamp64, Word.toUInt64?, if_pos small, Option.getD_some, Word.toNat_low64 small]
  · have last_eq : (UInt64.ofNat (UInt64.size - 1)).toNat = UInt64.size - 1 :=
      UInt64.toNat_ofNat_of_lt' (Nat.sub_lt (by decide) (by decide))
    rw [Word.clamp64, Word.toUInt64?, if_neg small, Option.getD_none, last_eq]
    have wide := Nat.not_lt.mp small
    simp only [UInt64.size] at wide ⊢
    apply window_eq_window
    intro index _
    rw [byteAt, byteAt, dif_neg (by omega), dif_neg (by omega)]

end Bytes

/-- Memory after part of a byte string was copied to a region, with zeros for what lies past the
end of the string. -/
structure Memory.Receives (before : Memory) (offset : Nat) (source : Bytes) (start length : Nat)
    (after : Memory) : Prop where
  covers : after.Covers offset length
  copied : ∀ index < length, after.bytes.byteAt (offset + index) = source.byteAt (start + index)
  kept : ∀ position, position < offset ∨ offset + length ≤ position →
    after.bytes.byteAt position = before.bytes.byteAt position

/-- What was copied is what 64-bit numbers cut out of the source. -/
theorem Memory.Receives.clipped?_eq {before after : Memory} {offset : Nat} {source : Bytes}
    {start length : Word} (receives : before.Receives offset source start.toNat length.toNat after)
    (small : length.toNat < 2 ^ 63) (short : source.size < 2 ^ 64) :
    source.clipped? start.clamp64 length.low64 =
      some (after.bytes.window offset length.toNat) := by
  have low : length.low64.toNat = length.toNat := by
    apply Word.toNat_low64
    simp only [UInt64.size]
    omega
  rw [Bytes.clipped?_eq short _ (by omega), low, Bytes.window_clamp64 short]
  congr 1
  apply Bytes.window_eq_window
  intro index inside
  exact (receives.copied index inside).symm

theorem Memory.receives_of_perform {memory : Memory} {deed : Deed} {size : Nat}
    (size_eq : size = wholeWords deed.reach) {offset : Nat} (offset_eq : deed.writtenAt = offset)
    {source : Bytes} {start length : Nat} (written_eq : deed.written = source.window start length) :
    memory.Receives offset source start length ((memory.grow size).perform deed) := by
  subst offset_eq
  have length_eq : deed.written.size = length := by
    rw [written_eq, Bytes.size_window]
  constructor
  · have covers := covers_grow memory size_eq
    rw [Covers, size_perform memory size_eq, ← size_grow, ← length_eq]
    exact covers
  · intro index inside
    have writes : deed.Writes (deed.writtenAt + index) := ⟨Nat.le_add_right _ _, by omega⟩
    rw [byteAt_perform memory size_eq, if_pos writes, Nat.add_sub_cancel_left, written_eq,
      Bytes.byteAt_window _ inside]
  · intro position outside
    have kept : ¬ deed.Writes position := by
      unfold Deed.Writes
      omega
    rw [byteAt_perform memory size_eq, if_neg kept]

namespace Machine

variable {chain : Chain σ} {environment : Environment} {machine after : Machine σ}
variable {opcode : Opcode} {size : UInt64}

/-- A machine that goes on with less operands and another memory after a copy. -/
structure Copied (machine : Machine σ) (rest : List Word) (offset : Word) (source : Bytes)
    (start length : Word) (after : Machine σ) : Prop where
  callers_eq : after.callers = machine.callers
  stack_eq : after.frame.stack = rest
  receives : machine.frame.memory.Receives offset.toNat source start.toNat length.toNat
    after.frame.memory
  clipped : source.size < 2 ^ 64 → source.clipped? start.clamp64 length.low64 =
    some (after.frame.memory.bytes.window offset.toNat length.toNat)

theorem exists_copied {ready : Machine σ} {offset length : Word}
    (holds : ready.frame.memory.Holds ⟨offset, length⟩) (rest : List Word) (source : Bytes)
    (start : Word) :
    ∃ after, ready.copy rest source offset start length = .running after ∧
      after.callers = ready.callers ∧ after.frame.stack = rest ∧
      after.frame.memory = ready.frame.memory.perform
        { writtenAt := offset.toNat
          written := source.window start.clamp64.toNat length.toNat } := by
  have covers : ready.frame.memory.Covers offset.low64.toNat length.low64.toNat := holds.covers
  unfold copy store
  dsimp only
  rw [if_pos covers]
  exact ⟨_, rfl, rfl, rfl, holds.copy_eq_perform _ _⟩

theorem Cleared.exists_copied (cleared : machine.Cleared environment opcode size)
    (limited : environment.config.memoryLimit.toNat < 2 ^ 63) (chain : Chain σ)
    {offset start length : Word} {rest : List Word} {source : Bytes} (short : source.size < 2 ^ 64)
    (touched : opcode.regions? machine.frame.stack = some [⟨offset, length⟩])
    (deed_eq : machine.deed chain opcode machine =
      { writtenAt := offset.toNat
        written := source.window start.clamp64.toNat length.toNat }) {ready : Machine σ}
    (callers_eq : ready.callers = machine.callers)
    (memory_eq : ready.frame.memory = machine.frame.memory.grow size.toNat) :
    ∃ after, ready.copy rest source offset start length = .running after ∧
      machine.Copied rest offset source start length after := by
  have holds := cleared.holds limited touched _ (.head _)
  have size_eq := cleared.size_eq chain machine
  rw [← memory_eq] at holds
  obtain ⟨after, copied, waits, stack_eq, performed⟩ :=
    Machine.exists_copied holds rest source start
  rw [deed_eq, Bytes.window_clamp64 short] at size_eq
  have receives : machine.frame.memory.Receives offset.toNat source start.toNat length.toNat
      after.frame.memory := by
    rw [performed, memory_eq, Bytes.window_clamp64 short]
    exact Memory.receives_of_perform size_eq rfl rfl
  exact ⟨after, copied, waits.trans callers_eq, stack_eq, receives,
    receives.clipped?_eq holds.length_lt⟩

theorem Resumed.copied {operands : CallOperands} {frame : Frame} {flag : Word} {data : Bytes}
    (resumed : Resumed frame operands.output machine.callers flag data after)
    (cleared : machine.Cleared environment .staticcall size)
    (limited : environment.config.memoryLimit.toNat < 2 ^ 63)
    (asks : Asks (machine.prepared environment.config .staticcall size) operands frame)
    (chain : Chain σ) :
    machine.Copied (flag :: operands.rest) operands.outOffset data 0 operands.outLength after := by
  have stack_eq : machine.frame.stack = operands.stack := asks.stack_eq
  have touched := CallOperands.regions?_eq stack_eq
  have holds := cleared.holds limited touched operands.output (.head _)
  have size_eq := cleared.size_eq chain after
  have performed : after.frame.memory = (machine.frame.memory.grow size.toNat).perform
      (machine.deed chain .staticcall after) := by
    rw [resumed.memory_eq_perform asks holds chain, deed_prepared]
    rfl
  rw [deed_staticcall stack_eq, resumed.returnData_eq] at size_eq performed
  have receives : machine.frame.memory.Receives operands.outOffset.toNat data 0
      operands.outLength.toNat after.frame.memory := by
    rw [performed]
    exact Memory.receives_of_perform size_eq rfl rfl
  refine ⟨resumed.callers_eq, ?_, receives, receives.clipped?_eq holds.length_lt⟩
  rw [resumed.stack_eq, asks.rest_eq]

/-- A static call that was executed copies the data that it came to. -/
theorem Executes.exists_callEnds (executes : machine.Executes chain environment after)
    (cleared : machine.Cleared environment .staticcall size)
    (limited : environment.config.memoryLimit.toNat < 2 ^ 63) {operands : CallOperands}
    (stack_eq : machine.frame.stack = operands.stack) :
    ∃ flag data, machine.CallEnds chain environment operands.callee.toAddress flag data ∧
      machine.Copied (flag :: operands.rest) operands.outOffset data 0 operands.outLength after ∧
      after.registers.returnData = data := by
  cases executes.executed cleared with
  | moves plain => exact absurd rfl plain
  | @calls other frame flag data _ asks ends resumed =>
      obtain rfl : other = operands :=
        CallOperands.eq_of_stack_eq (asks.stack_eq.symm.trans stack_eq)
      exact ⟨flag, data, ends, resumed.copied cleared limited asks chain, resumed.returnData_eq⟩

end Machine

/-- Copies zero-fill. Of the instructions that pass every check, with a limit to memory whose
sizes are also signed numbers, and with sources whose sizes are 64-bit numbers: those that copy
call data, code or return data go on with the bytes of their source in place, in unbounded
numbers, with zeros for what lies past its end, and with all other bytes of memory as they were;
so does the one that copies the code of another account, once the chain has answered; loading
call data gives the word of such bytes. In each case these bytes are what is cut out of the source
in 64-bit numbers and filled with zeros. A static call that does not fail goes on with the data of
its callee in place, and with no data at all, that is with zeros, if it is refused because too
many frames are active. -/
theorem copies_zero_fill (chain : Chain σ) (environment : Environment)
    (limited : environment.config.memoryLimit.toNat < 2 ^ 63) (machine : Machine σ)
    (size : UInt64) :
    (∀ (source : Source) (offset start length : Word) (rest : List Word),
      machine.Cleared environment (.copy source) size →
      machine.frame.stack = offset :: start :: length :: rest →
      (machine.source source).size < 2 ^ 64 →
      ∃ after, machine.step chain environment = .running after ∧
        machine.Copied rest offset (machine.source source) start length after) ∧
    (∀ (account offset start length : Word) (rest : List Word) (code : Bytes) (state : σ),
      machine.Cleared environment .extcodecopy size →
      machine.frame.stack = account :: offset :: start :: length :: rest →
      chain.code account.toAddress machine.chain = (.ok code, state) → code.size < 2 ^ 64 →
      ∃ after, machine.step chain environment = .running after ∧
        machine.Copied rest offset code start length after) ∧
    (∀ (offset : Word) (rest : List Word),
      machine.Cleared environment .calldataload size →
      machine.frame.stack = offset :: rest → machine.frame.input.size < 2 ^ 64 →
      ∃ after, machine.step chain environment = .running after ∧
        after.callers = machine.callers ∧ ∃ data : Bytes,
          after.frame.stack = Word.ofBytes data :: rest ∧ data.size = 32 ∧
          machine.frame.input.clipped? offset.clamp64 32 = some data ∧
          ∀ index < 32, data.byteAt index =
            machine.frame.input.byteAt (offset.toNat + index)) ∧
    (∀ operands : CallOperands, machine.Cleared environment .staticcall size →
      machine.frame.stack = operands.stack →
      (∀ after, machine.Executes chain environment after →
        ∃ flag data, machine.CallEnds chain environment operands.callee.toAddress flag data ∧
          machine.Copied (flag :: operands.rest) operands.outOffset data 0 operands.outLength
            after ∧
          after.registers.returnData = data) ∧
      (environment.config.maxCallDepth ≤ machine.registers.depth →
        ∃ after, machine.step chain environment = .running after ∧
          machine.Copied (0 :: operands.rest) operands.outOffset ByteArray.empty 0
            operands.outLength after)) := by
  refine ⟨?_, ?_, ?_, ?_⟩
  · intro source offset start length rest cleared stack_eq short
    have touched : (Opcode.copy source).regions? machine.frame.stack = some [⟨offset, length⟩] := by
      rw [stack_eq]
      rfl
    have stepped : machine.step chain environment =
        (machine.prepared environment.config (.copy source) size).copy rest
          (machine.source source) offset start length := by
      rw [cleared.step_eq]
      simp only [Machine.execute, Machine.prepared, stack_eq]
      cases source <;> rfl
    rw [stepped]
    apply cleared.exists_copied limited chain short touched
    · unfold Machine.deed
      rw [stack_eq]
    · rfl
    · rfl
  · intro account offset start length rest code state cleared stack_eq asked short
    have touched : Opcode.extcodecopy.regions? machine.frame.stack = some [⟨offset, length⟩] := by
      rw [stack_eq]
      rfl
    have stepped : machine.step chain environment =
        Machine.copy
          { machine.prepared environment.config .extcodecopy size with chain := state } rest code
          offset start length := by
      rw [cleared.step_eq]
      simp only [Machine.execute, Machine.prepared, stack_eq, Machine.ask, asked]
    rw [stepped]
    apply cleared.exists_copied limited chain short touched
    · unfold Machine.deed
      rw [stack_eq]
      dsimp only
      rw [asked]
      rfl
    · rfl
    · rfl
  · intro offset rest cleared stack_eq short
    rw [cleared.step_eq]
    simp only [Machine.execute, Machine.prepared, stack_eq]
    refine ⟨_, rfl, rfl, _, rfl, Bytes.size_window _ _ _,
      Bytes.clipped?_eq short offset.clamp64 (by decide), ?_⟩
    intro index inside
    rw [Bytes.window_clamp64 short, Bytes.byteAt_window _ inside]
  · intro operands cleared stack_eq
    constructor
    · exact fun after executes => executes.exists_callEnds cleared limited stack_eq
    · intro deep
      rcases cleared.refused stack_eq deep with ⟨after, stepped, resumed, -⟩ | ⟨wide, -⟩
      · exact ⟨after, stepped chain,
          resumed.copied cleared limited ⟨stack_eq, rfl, rfl⟩ chain⟩
      · exact absurd limited (Nat.not_lt.mpr wide)

/-- An account that writes a byte of memory and copies two bytes of call data over it, from an
offset from which the second byte is past the greatest 64-bit number. -/
def wrappingAccounts : StateSet :=
  ({} : StateSet).setCode 0
    (Bytes.ofList [0x60, 0xff, 0x60, 0x00, 0x53, 0x60, 0x02, 0x67, 0xff, 0xff, 0xff, 0xff, 0xff,
      0xff, 0xff, 0xff, 0x60, 0x00, 0x37, 0x00])

/-- Both bytes are zero afterwards, although the call data begin with others. -/
theorem wrappingAccounts_zero_fill :
    ∃ machine after, (Interpreter.fresh none none none).Reaches (StateSet.chain .whole)
        { input := Bytes.ofList [0xaa, 0xbb] } 6 wrappingAccounts machine ∧
      machine.frame.stack = [0, 0xffffffffffffffff, 2] ∧
      machine.frame.memory.bytes.byteAt 0 = 0xff ∧
      machine.step (StateSet.chain .whole) (.of none none none) = .running after ∧
      after.frame.memory.bytes.byteAt 0 = 0 ∧ after.frame.memory.bytes.byteAt 1 = 0 := by
  have limited : (Environment.of none none none).config.memoryLimit.toNat < 2 ^ 63 := by
    decide
  have comes : (Machine.run (StateSet.chain .whole) (.of none none none) 6
      (Machine.begin (Environment.of none none none).config {}
        { input := Bytes.ofList [0xaa, 0xbb] } (wrappingAccounts.account 0).code
        wrappingAccounts)).running?.any
      (fun machine => machine.frame.stack == [0, 0xffffffffffffffff, 2] &&
        machine.frame.memory.bytes.byteAt 0 == 0xff && machine.frame.input.size == 2 &&
        machine.fetched? == some (.copy .calldata) &&
        (machine.step (StateSet.chain .whole) (.of none none none)).running?.isSome) = true := by
    decide +kernel
  obtain ⟨machine, ran, seen⟩ := Status.exists_running comes
  simp only [Bool.and_eq_true, beq_iff_eq] at seen
  obtain ⟨⟨⟨⟨stack_eq, byte_eq⟩, input_eq⟩, fetched⟩, runs⟩ := seen
  obtain ⟨opcode, size, cleared⟩ := Machine.cleared_of_step (Status.eq_running_machine runs)
  cases cleared.fetched.symm.trans fetched
  have short : machine.frame.input.size < 2 ^ 64 := by
    rw [input_eq]
    decide
  obtain ⟨after, stepped, copied⟩ := (copies_zero_fill (StateSet.chain .whole)
    (.of none none none) limited machine size).1 .calldata 0 0xffffffffffffffff 2 [] cleared
      stack_eq short
  have zero (index : Nat) (inside : index < 2) : after.frame.memory.bytes.byteAt index = 0 := by
    have found := copied.receives.copied index inside
    have past : ¬ 0xffffffffffffffff + index < machine.frame.input.size := by omega
    rw [show (0 : Word).toNat + index = index from Nat.zero_add index] at found
    rw [found]
    exact dif_neg past
  exact ⟨machine, after, ⟨_, _, rfl, ran⟩, stack_eq, byte_eq, stepped, zero 0 (by decide),
    zero 1 (by decide)⟩

end EvmAtlas
