import EvmAtlas.Proofs.Termination
import EvmAtlas.Proofs.Windows

/-!
# Trailing zeros

A code goes on with zeros past its end, so zeros that are appended to it change nothing of what
is read. They do change what is counted: the steps of decoding and those of a recovery, and the
positions of the code map. Decoding has steps to spare, and a jump only asks the map for the
position of a jump destination, which is no zero.

A recovery asks a code for two things alone, the block at a position and whether a jump may go
there. `Code.Alike` says that two codes answer alike, and then two recoveries stay in lockstep:
at every stage they differ in nothing but the code they hold.
-/

namespace EvmAtlas

/-! ## Sweeps and blocks -/

namespace Bytes

variable {left right : Bytes}

theorem sweep_congr (same : ∀ position, left.byteAt position = right.byteAt position)
    (count : Nat) : left.sweep count = right.sweep count := by
  induction count with
  | zero => rfl
  | succ count ih => rw [sweep, sweep, ih, same]

theorem isStart_congr (same : ∀ position, left.byteAt position = right.byteAt position)
    (pc : Nat) : left.IsStart pc ↔ right.IsStart pc := by
  simp only [IsStart, sweep_congr same]

end Bytes

namespace Block

variable {code other : Code} {start pc : UInt64}

section Bytes

variable (same : ∀ position, other.bytes.byteAt position = code.bytes.byteAt position)

include same

theorem decodeInstruction_congr (start pc : UInt64) :
    decodeInstruction other start pc = decodeInstruction code start pc := by
  have byte : other.byteAt pc = code.byteAt pc := same _
  have literal (count : Nat) :
      other.immediate (pc + 1) count = code.immediate (pc + 1) count := by
    rw [Code.immediate, Code.immediate, Bytes.window_congr same]
  simp only [decodeInstruction, byte, literal]

theorem decodeFrom_congr (start : UInt64) (steps : Nat) (pc : UInt64) :
    decodeFrom other start steps pc = decodeFrom code start steps pc := by
  induction steps generalizing pc with
  | zero => rfl
  | succ steps ih => simp only [decodeFrom, decodeInstruction_congr same, ih]

end Bytes

/-- Decoding stops by itself: steps beyond the end of the code change nothing. -/
theorem decodeFrom_add (small : code.size < 2 ^ 63) {steps : Nat}
    (enough : code.size ≤ pc.toNat + steps) (extra : Nat) :
    decodeFrom code start (steps + extra) pc = decodeFrom code start steps pc := by
  induction steps generalizing pc with
  | zero =>
      have decoded : decodeInstruction code start pc = (⟨pc, .plain .stop⟩, pc + 1) :=
        decodeInstruction_plain (Code.ofByte?_past_end enough) (by simp) (by simp)
      cases extra with
      | zero => rfl
      | succ extra =>
          simp only [decodeFrom, decoded]
          rfl
  | succ steps ih =>
      rw [Nat.succ_add]
      simp only [decodeFrom]
      split
      · rfl
      · next inner =>
          rw [Bool.not_eq_true] at inner
          have next := (toNat_decodeInstruction_next small inner).2
          rw [ih (by omega)]

/-- Codes that read alike decode into the same blocks. -/
theorem decode_congr (same : ∀ position, other.bytes.byteAt position = code.bytes.byteAt position)
    (small : code.size < 2 ^ 63) (longer : code.size ≤ other.size) (start : UInt64) :
    decode other start = decode code start := by
  have steps : other.size - start.toNat =
      (code.size - start.toNat) +
        (other.size - start.toNat - (code.size - start.toNat)) := by
    omega
  have run : decodeFrom other start (other.size - start.toNat) start =
      decodeFrom code start (code.size - start.toNat) start := by
    rw [decodeFrom_congr same, steps, decodeFrom_add small (by omega)]
  simp only [decode, run]

end Block

/-! ## Codes that a recovery cannot tell apart -/

/-- Whether a recovery finds the same in two codes: the same blocks, which a jump may go to
alike. -/
structure Code.Alike (code other : Code) : Prop where
  decode_eq : ∀ start, Block.decode other start = Block.decode code start
  isCode_eq : ∀ pc, (Block.decode code pc).isJumpDestination = true →
    other.isCode pc = code.isCode pc

theorem Code.Alike.of_byteAt {code other : Code}
    (same : ∀ position, other.bytes.byteAt position = code.bytes.byteAt position)
    (small : code.size < 2 ^ 63) (longer : code.size ≤ other.size) : code.Alike other where
  decode_eq := Block.decode_congr same small longer
  isCode_eq := by
    intro pc begins
    have fetched := Block.isJumpDestination_decode_iff.mp begins
    have inside : pc.toNat < code.size :=
      Code.lt_size_of_ofByte?_ne_stop (by rw [fetched]; simp)
    rw [Bool.eq_iff_iff, isCode_iff, isCode_iff, Bytes.isStart_congr same]
    exact and_congr_left fun _ => iff_of_true (Nat.lt_of_lt_of_le inside longer) inside

namespace Recovery

variable {code other : Code} {config : RecoveryConfig} {visited : List Visit}
variable {pending : List Successor} {recovery : Recovery}

/-- The same recovery, holding another code. -/
def on (recovery : Recovery) (other : Code) : Recovery :=
  { recovery with code := other }

@[simp] theorem code_on (recovery : Recovery) (other : Code) :
    (recovery.on other).code = other := rfl

@[simp] theorem sites_on (recovery : Recovery) (other : Code) :
    (recovery.on other).sites = recovery.sites := rfl

@[simp] theorem queue_on (recovery : Recovery) (other : Code) :
    (recovery.on other).queue = recovery.queue := rfl

theorem revisit_on (recovery : Recovery) (other : Code) (pc : UInt64) (site : Site)
    (stack : SymStack) :
    (recovery.on other).revisit pc site stack = (recovery.revisit pc site stack).on other := by
  simp only [revisit, apply_ite (on · other)]
  cases site.joined[stack.length]? with
  | none => rfl
  | some old =>
      simp only [apply_ite (on · other)]
      rfl

theorem reach_on (alike : code.Alike other) (coherent : Coherent code config recovery)
    (successor : Successor) :
    (recovery.on other).reach successor = (recovery.reach successor).map (on · other) := by
  have decoded := coherent.decoded
  rw [← coherent.code_eq] at alike decoded
  -- The maps differ in length, but are asked only for the position of a jump destination.
  have admitted : (other.isCode successor.pc &&
        (Block.decode recovery.code successor.pc).isJumpDestination) =
      (recovery.code.isCode successor.pc &&
        (Block.decode recovery.code successor.pc).isJumpDestination) := by
    cases begins : (Block.decode recovery.code successor.pc).isJumpDestination with
    | false => simp only [Bool.and_false]
    | true => rw [alike.isCode_eq _ begins]
  simp only [reach, code_on, sites_on, alike.decode_eq, isJumpDestination_site decoded,
    admitted]
  split
  · rfl
  · split
    · rfl
    · rw [revisit_on]
      rfl

theorem foldlM_reach_on (alike : code.Alike other)
    (stage : Stage code config visited pending recovery) :
    pending.foldlM reach (recovery.on other) =
      (pending.foldlM reach recovery).map (on · other) := by
  induction pending generalizing recovery with
  | nil => rfl
  | cons successor rest ih =>
      rw [List.foldlM_cons, List.foldlM_cons, reach_on alike stage.coherent]
      cases reached : recovery.reach successor with
      | error fault => rfl
      | ok next => exact ih (stage.reach reached)

theorem visit_on (alike : code.Alike other) (stage : Stage code config visited [] recovery)
    {visit : Visit} {rest : List Visit} (queued : recovery.queue = visit :: rest) :
    Recovery.visit { recovery.on other with queue := rest } visit =
      (Recovery.visit { recovery with queue := rest } visit).map (on · other) := by
  simp only [Recovery.visit, sites_on]
  cases known : recovery.sites[visit.pc]? with
  | none => rfl
  | some site =>
      dsimp only
      cases transferred : site.block.transfer visit.stack with
      | mk block outcome =>
          cases outcome with
          | error fault => rfl
          | ok successors =>
              have folded := foldlM_reach_on alike (stage.take queued known transferred)
              simp only [on, Except.bind] at folded ⊢
              rw [folded]
              generalize successors.foldlM reach _ = reached
              cases reached <;> rfl

theorem run_on (alike : code.Alike other) (stage : Stage code config visited [] recovery)
    (steps : Nat) :
    (recovery.on other).run steps = (recovery.run steps).map (on · other) := by
  induction steps generalizing visited recovery with
  | zero =>
      simp only [Recovery.run, queue_on]
      rw [apply_ite (Except.map (on · other))]
      rfl
  | succ steps ih =>
      simp only [Recovery.run, queue_on]
      cases queued : recovery.queue with
      | nil => rfl
      | cons first rest =>
          dsimp only
          rw [visit_on alike stage queued]
          cases visits : Recovery.visit { recovery with queue := rest } first with
          | error fault => rfl
          | ok next => exact ih (stage.visit queued visits)

end Recovery

/-- Two codes that a recovery cannot tell apart have the same blocks, or fail alike. A longer
code allows more steps, which are never needed. -/
theorem recover_congr {bytes other : Bytes}
    (alike : (Code.ofBytes bytes).Alike (Code.ofBytes other)) (longer : bytes.size ≤ other.size)
    (config : RecoveryConfig) :
    (recover other config).map Program.blocks = (recover bytes config).map Program.blocks := by
  have entry : (Recovery.start (Code.ofBytes other) config).reach ⟨0, [], false⟩ =
      ((Recovery.start (Code.ofBytes bytes) config).reach ⟨0, [], false⟩).map
        (Recovery.on · (Code.ofBytes other)) :=
    Recovery.reach_on alike Recovery.Stage.start.coherent _
  have bound : Recovery.stepBound (Code.ofBytes bytes) config ≤
      Recovery.stepBound (Code.ofBytes other) config :=
    Nat.mul_le_mul_right _ (Nat.succ_le_succ longer)
  obtain ⟨extra, spare⟩ := Nat.exists_eq_add_of_le bound
  unfold recover
  dsimp only
  rw [entry]
  cases reached : (Recovery.start (Code.ofBytes bytes) config).reach ⟨0, [], false⟩ with
  | error fault => simp only [Except.map, Except.bind]
  | ok entered =>
      have stage := Recovery.Stage.start.reach reached
      have settles := (stage.run_ends (Nat.le_add_left
        (Recovery.stepBound (Code.ofBytes bytes) config) _)).2 extra
      have finished : (entered.on (Code.ofBytes other)).run
            (Recovery.stepBound (Code.ofBytes other) config) =
          (entered.run (Recovery.stepBound (Code.ofBytes bytes) config)).map
            (Recovery.on · (Code.ofBytes other)) := by
        rw [Recovery.run_on alike stage, spare, settles]
      rw [Except.map, ok_bind, ok_bind, finished]
      cases entered.run (Recovery.stepBound (Code.ofBytes bytes) config) <;> rfl

/-- Zeros that follow a code change nothing of what is recovered from it. The recovery finds the
same blocks at the same positions, or fails with the same fault, and every block is decoded
alike. -/
theorem recover_padRight (bytes : Bytes) (count : Nat) (config : RecoveryConfig)
    (small : bytes.size + count < 2 ^ 63) :
    (recover (bytes.padRight count) config).map Program.blocks =
      (recover bytes config).map Program.blocks ∧
    ∀ start, Block.decode (Code.ofBytes (bytes.padRight count)) start =
      Block.decode (Code.ofBytes bytes) start := by
  have longer : bytes.size ≤ (bytes.padRight count).size := by
    rw [Bytes.size_padRight]
    exact Nat.le_add_right _ _
  have alike : (Code.ofBytes bytes).Alike (Code.ofBytes (bytes.padRight count)) :=
    .of_byteAt (bytes.byteAt_padRight count) (Nat.lt_of_add_right_lt small) longer
  exact ⟨recover_congr alike longer config, alike.decode_eq⟩

/-- A conditional jump over a stop to a jump destination, and a push that the code cuts short in
the middle of its literal. -/
def cutCode : Bytes :=
  Bytes.ofList [0x60, 0x01, 0x60, 0x06, 0x57, 0x00, 0x5b, 0x61, 0x5b]

/-- Three more zeros complete the literal of the push and add a stop. The last block reached past
the end of the code before, and stops at the same position. -/
theorem cutCode_padRight :
    ∃ program padded block, recover cutCode {} = .ok program ∧
      recover (cutCode.padRight 3) {} = .ok padded ∧ padded.blocks = program.blocks ∧
      program.block? 6 = some block ∧ block.stop = 11 ∧
      Block.decode (Code.ofBytes (cutCode.padRight 3)) 6 =
        Block.decode (Code.ofBytes cutCode) 6 := by
  have recovers : (recover cutCode {}).toOption.any (fun program =>
      (program.block? 6).any fun block => block.stop == 11) = true := by
    decide +kernel
  obtain ⟨program, recovered, seen⟩ := exists_ok recovers
  simp only [Option.any_eq_true, beq_iff_eq] at seen
  obtain ⟨block, found, stops⟩ := seen
  obtain ⟨same, decoded⟩ := recover_padRight cutCode 3 {} (by decide)
  rw [recovered] at same
  cases outcome : recover (cutCode.padRight 3) {} with
  | error fault =>
      rw [outcome] at same
      cases same
  | ok padded =>
      rw [outcome] at same
      exact ⟨program, padded, block, recovered, rfl, Except.ok.inj same, found, stops,
        decoded 6⟩

end EvmAtlas
