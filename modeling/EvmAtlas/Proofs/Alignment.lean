import EvmAtlas.Proofs.Trace

/-!
# Where instructions are fetched

The position of a frame is moved in three ways: past an instruction, past a push together with
its immediate bytes, and to the destination of a jump. The map of the code is made from a sweep
of its own. `Code.Visits.isStart` shows that the two agree on where instructions begin: every
position that a frame can come to is one that the sweep meets. A frame therefore never takes an
immediate byte for an instruction, however it jumps, and once it is past the end of its code it
stops.
-/

namespace EvmAtlas

variable {σ : Type}

namespace Code

variable {code : Code} {pc pc' : UInt64} {stack stack' : List Word} {opcode : Opcode}

/-- An instruction of the sweep is followed by another one, right after its immediate bytes.
Only past the end of the code could the position wrap around, and there a stop is read. -/
theorem isStart_after (small : code.size < 2 ^ 63) (aligned : code.bytes.IsStart pc.toNat)
    (fetched : Opcode.ofByte? (code.byteAt pc) = some opcode) (goesOn : opcode ≠ .stop) :
    code.bytes.IsStart (pc + UInt64.ofNat (opcode.immediateSize + 1)).toNat := by
  have inside : pc.toNat < code.size := by
    apply lt_size_of_ofByte?_ne_stop
    rw [fetched]
    simpa using goesOn
  have width : opcode.immediateSize ≤ 32 := by
    cases opcode with
    | push index => exact index.isLt
    | _ => exact Nat.zero_le 32
  have next := aligned.next
  rw [← byteAt, immediateSize, fetched] at next
  rw [Block.toNat_add_ofNat (by omega) (by omega)]
  rwa [Nat.add_assoc, Nat.add_comm 1] at next

theorem isStart_succ (small : code.size < 2 ^ 63) (aligned : code.bytes.IsStart pc.toNat)
    (fetched : Opcode.ofByte? (code.byteAt pc) = some opcode) (goesOn : opcode ≠ .stop)
    (single : opcode.immediateSize = 0) : code.bytes.IsStart (pc + 1).toNat := by
  have next := isStart_after small aligned fetched goesOn
  rwa [single] at next

theorem isStart_of_isJumpDestination {word : Word}
    (lands : code.isJumpDestination word = true) : code.bytes.IsStart word.low64.toNat := by
  cases narrow : word.toUInt64? with
  | none => simp [isJumpDestination, narrow] at lands
  | some pc =>
      obtain ⟨isCode, -⟩ := (isJumpDestination_iff narrow).mp lands
      have low : word.low64 = pc := by
        rw [Word.low64, Word.toNat_eq_of_toUInt64? narrow, UInt64.ofNat_toNat]
      rw [low]
      exact ((isCode_iff pc).mp isCode).2

theorem Moves.isStart (small : code.size < 2 ^ 63) (moves : code.Moves pc stack pc' stack')
    (aligned : code.bytes.IsStart pc.toNat) : code.bytes.IsStart pc'.toNat := by
  cases moves with
  | @straight opcode _ fetched straight =>
      have single : opcode.immediateSize = 0 := by
        cases opcode with
        | push index => cases straight
        | _ => rfl
      refine isStart_succ small aligned fetched ?_ single
      rintro rfl
      cases straight
  | push fetched =>
      have next := isStart_after small aligned fetched (by simp)
      rwa [Opcode.immediateSize, Nat.add_assoc] at next
  | jump _ _ lands => exact isStart_of_isJumpDestination lands
  | branch _ _ _ lands => exact isStart_of_isJumpDestination lands
  | next fetched => exact isStart_succ small aligned fetched (by simp) rfl

/-- A frame comes to instructions of the sweep only. -/
theorem Visits.isStart (small : code.size < 2 ^ 63) (visits : code.Visits pc stack) :
    code.bytes.IsStart pc.toNat := by
  induction visits with
  | entry => exact .zero code.bytes
  | move _ moves ih => exact moves.isStart small ih

end Code

namespace Machine

variable {chain : Chain σ} {environment : Environment} {machine : Machine σ}

/-- All frames of every machine that a run steps from stand where their code can come to. -/
theorem visiting_of_mem_trace {steps : Nat} {status : Status σ}
    (initial : ∀ first, status = .running first → first.Visiting)
    (member : machine ∈ trace chain environment steps status) : machine.Visiting := by
  induction steps generalizing status with
  | zero => cases member
  | succ steps ih =>
      cases status with
      | ended final ending => cases member
      | running first =>
          rcases List.mem_cons.mp member with rfl | later
          · exact initial machine rfl
          · exact ih (fun _ stepped => step_visiting (initial first rfl) stepped) later

/-- A stop ends its frame, without data and at no cost. -/
theorem step_stop (fetched : machine.fetched? = some .stop)
    (low : machine.frame.stack.length ≤ stackLimit) :
    machine.step chain environment =
      machine.finish environment.config (.returned ByteArray.empty) := by
  have fits : Opcode.stop.arity.check machine.frame.stack.length = .ok () :=
    Arity.check_eq_ok_iff.mpr ⟨Nat.zero_le _, low⟩
  have free : charge? environment.config machine.frame .stop = some machine.frame := by
    refine charge?_eq_some_iff.mpr ?_
    have cost_eq : environment.config.cost .stop = 0 := ite_self 0
    rw [cost_eq, UInt64.sub_zero]
    exact ⟨UInt64.zero_le, rfl⟩
  have unlimited : ¬ (0 : UInt64) > environment.config.memoryLimit :=
    UInt64.not_lt.mpr UInt64.zero_le
  have still : machine.frame.memory.grow 0 = machine.frame.memory := by
    rw [Memory.grow, Nat.zero_sub]
    rfl
  unfold fetched? at fetched
  simp only [step, fetched, fits, free, Opcode.writes, Bool.and_false, Bool.false_eq_true,
    if_false, expand, Opcode.regions?]
  rw [show Region.needed? [] = some 0 from rfl]
  simp only [if_neg unlimited, UInt64.toNat_zero, execute, mapMemory_eq, Frame.mapMemory_eq, still]

end Machine

/-- Only instructions are fetched. In every frame of every run, the position at which the next
instruction is fetched is marked as an instruction in the map of the frame's code, and the sweep
of the code from its first byte meets it; or it lies past the end of the code, where a stop is
read that ends the frame. -/
theorem only_instructions_fetched (chain : Chain σ) (interpreter : Interpreter) (call : Call)
    (steps : Nat) (state : σ) :
    ∀ machine ∈ interpreter.trace chain call steps state,
      machine.frame.code.size < 2 ^ 63 →
      (machine.frame.code.isCode machine.frame.pc = true ∧
        machine.frame.code.bytes.IsStart machine.frame.pc.toNat) ∨
      (machine.frame.code.size ≤ machine.frame.pc.toNat ∧ machine.fetched? = some .stop ∧
        machine.step chain interpreter.environment =
          machine.finish interpreter.environment.config (.returned ByteArray.empty)) := by
  intro machine member small
  have visiting : machine.Visiting := by
    unfold Interpreter.trace at member
    split at member
    · cases member
    · exact Machine.visiting_of_mem_trace (fun _ began => Machine.begin_visiting began) member
  have aligned := visiting.running.isStart small
  by_cases inside : machine.frame.pc.toNat < machine.frame.code.size
  · exact .inl ⟨(Code.isCode_iff _).mpr ⟨inside, aligned⟩, aligned⟩
  · have outside := Nat.not_lt.mp inside
    have stops : machine.fetched? = some .stop := Code.ofByte?_past_end outside
    exact .inr ⟨outside, stops, Machine.step_stop stops visiting.running.length_le⟩

/-- Account 0, which jumps over a push of the byte of a jump destination and ends with a push
that is cut short. -/
def hurdlingAccounts : StateSet :=
  ({} : StateSet).setCode 0
    (Bytes.ofList [0x60, 0x05, 0x56, 0x60, 0x5b, 0x5b, 0x61, 0x01])

/-- The positions of the run, of which the last one lies past the end. -/
theorem hurdlingAccounts_fetched :
    ∃ machine ∈ (Interpreter.fresh none none none).trace (StateSet.chain .whole) {} 5
        hurdlingAccounts,
      machine.frame.pc = 9 ∧ machine.fetched? = some .stop ∧
      machine.step (StateSet.chain .whole) (.of none none none) =
        machine.finish (Environment.of none none none).config (.returned ByteArray.empty) := by
  have comes : ((Interpreter.fresh none none none).trace (StateSet.chain .whole) {} 5
      hurdlingAccounts).any
      (fun machine => machine.frame.pc == 9 && machine.frame.code.size == 8) = true := by
    decide +kernel
  obtain ⟨machine, member, seen⟩ := List.any_eq_true.mp comes
  simp only [Bool.and_eq_true, beq_iff_eq] at seen
  obtain ⟨pc_eq, size_eq⟩ := seen
  have small : machine.frame.code.size < 2 ^ 63 := by
    rw [size_eq]
    decide
  rcases only_instructions_fetched (StateSet.chain .whole) (.fresh none none none) {} 5
    hurdlingAccounts machine member small with ⟨isCode, -⟩ | ⟨-, stops, ends⟩
  · have inside := ((Code.isCode_iff _).mp isCode).1
    rw [pc_eq, size_eq] at inside
    exact absurd inside (by decide)
  · exact ⟨machine, member, pc_eq, stops, ends⟩

end EvmAtlas
