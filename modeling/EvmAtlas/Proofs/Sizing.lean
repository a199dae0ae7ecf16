import EvmAtlas.Proofs.Heights

/-!
# How memory is sized

The size of memory that an instruction needs is computed from words in 64-bit numbers, and every
guard on the way gives it up instead of wrapping around. Taken together the guards are exact: a
size is given up only if it does not fit, as an unbounded number and rounded up to whole words.

A step therefore fails for the size of memory in two cases that are told apart by that number, and
grows memory in all others. No instruction fails in one of these ways while it is executed, since
what it can meet then, `Opcode.Meets`, has other causes, unless the chain answers so.
-/

namespace EvmAtlas

variable {σ : Type}

theorem Word.toUInt64?_eq_none_iff {word : Word} : word.toUInt64? = none ↔ 2 ^ 64 ≤ word.toNat := by
  unfold toUInt64?
  split
  · next narrow => simpa using narrow
  · next wide => simpa using wide

/-! ## Sizes -/

namespace Region

variable {region first second : Region} {regions : List Region}

theorem stop?_eq_none_iff :
    region.stop? = none ↔ 2 ^ 64 ≤ Memory.stop region.offset.toNat region.length.toNat := by
  constructor
  · intro failed
    unfold stop? at failed
    split at failed
    · next wide =>
        rw [Word.toUInt64?_eq_none_iff] at wide
        rw [Memory.stop, if_neg (by omega)]
        omega
    · next length narrow =>
        have length_eq := Word.toNat_eq_of_toUInt64? narrow
        split at failed
        · cases failed
        · next something =>
            have positive : region.length.toNat ≠ 0 := by
              rw [length_eq]
              exact fun nothing => something (UInt64.toNat_inj.mp nothing)
            rw [Memory.stop, if_neg positive]
            split at failed
            · next wide =>
                rw [Word.toUInt64?_eq_none_iff] at wide
                omega
            · next offset narrow =>
                have offset_eq := Word.toNat_eq_of_toUInt64? narrow
                split at failed
                · next wraps =>
                    -- A sum of two such numbers is below one of them only if it wraps around.
                    rw [UInt64.lt_iff_toNat_lt, UInt64.toNat_add] at wraps
                    have := offset.toNat_lt
                    have := length.toNat_lt
                    omega
                · cases failed
  · intro wide
    rw [Option.eq_none_iff_forall_ne_some]
    intro size stops
    have size_eq := toNat_of_stop? stops
    have := size.toNat_lt
    omega

theorem stopAll?_cons_eq_none_iff :
    stopAll? (region :: regions) = none ↔ region.stop? = none ∨ stopAll? regions = none := by
  rw [stopAll?]
  cases region.stop? with
  | none => simp
  | some stop =>
      cases stopAll? regions with
      | none => simp
      | some rest => simp

theorem stopAll?_eq_none_iff : stopAll? regions = none ↔ 2 ^ 64 ≤ reach regions := by
  induction regions with
  | nil => simp [stopAll?, reach]
  | cons region regions ih =>
      have furthest : reach (region :: regions) =
          max (Memory.stop region.offset.toNat region.length.toNat) (reach regions) := rfl
      rw [stopAll?_cons_eq_none_iff, stop?_eq_none_iff, ih, furthest, le_max_iff]

theorem needed?_eq_none_iff :
    needed? regions = none ↔ 2 ^ 64 ≤ Memory.wholeWords (reach regions) := by
  constructor
  · intro failed
    unfold needed? at failed
    split at failed
    · next lost =>
        exact (stopAll?_eq_none_iff.mp lost).trans (Memory.le_wholeWords _)
    · next total all =>
        dsimp only at failed
        split at failed
        · cases failed
        · next wide =>
            rw [toNat_wordCount, toNat_of_stopAll? all] at wide
            rw [Memory.wholeWords, Nat.mul_comm]
            exact Nat.le_of_not_lt wide
  · intro wide
    rw [Option.eq_none_iff_forall_ne_some]
    intro size asked
    have size_eq := toNat_of_needed? asked
    have := size.toNat_lt
    omega

theorem exists_needed? (fits : Memory.wholeWords (reach regions) < 2 ^ 64) :
    ∃ size, needed? regions = some size ∧ size.toNat = Memory.wholeWords (reach regions) := by
  cases asked : needed? regions with
  | none => exact absurd (needed?_eq_none_iff.mp asked) (Nat.not_le.mpr fits)
  | some size => exact ⟨size, rfl, toNat_of_needed? asked⟩

theorem exists_stopAll?_pair {stop other : UInt64} (stops : first.stop? = some stop)
    (otherStops : second.stop? = some other) :
    ∃ size, stopAll? [first, second] = some size ∧
      size.toNat = max stop.toNat other.toNat := by
  cases all : stopAll? [first, second] with
  | none =>
      rw [stopAll?_cons_eq_none_iff, stopAll?_cons_eq_none_iff, stops, otherStops] at all
      simp [stopAll?] at all
  | some size =>
      refine ⟨size, rfl, ?_⟩
      rw [toNat_of_stopAll? all, toNat_of_stop? stops, toNat_of_stop? otherStops]
      exact congrArg _ (Nat.max_zero _)

end Region

/-! ## Faults of execution -/

/-- Whether a fault is not about the size of memory, unless the chain answered with it. -/
def Fault.IsNoSize (fault : Fault) : Prop :=
  fault.isAnswer = false → fault.cause ≠ .gasOverflow ∧ fault.cause ≠ .memoryLimit

theorem Fault.isNoSize_within {fault : Fault} {question : Context}
    (asked : question.isQuestion = true) : (fault.within question).IsNoSize := by
  intro own
  have answer : (fault.within question).isAnswer = true := asked
  rw [answer] at own
  cases own

theorem Opcode.Meets.isNoSize {chain : Chain σ} {code : Code} {stack : List Word}
    {opcode : Opcode} {fault : Fault} (meets : opcode.Meets chain code stack fault) :
    fault.IsNoSize := by
  cases meets with
  | answered _ asked => exact Fault.isNoSize_within asked
  | nowhere | readOnly | unsupported => exact fun _ => ⟨nofun, nofun⟩

namespace Machine

section Relations

variable (config : MachineConfig) (callers : List Suspended)

/-- What executing an instruction comes to, told apart by the fault if there is one. -/
inductive Yields : Status σ → Prop where
  | goesOn {after : Machine σ} : Yields (.running after)
  | halts {last : Machine σ} (reverted : Bool) (data : Bytes) :
      Yields (last.finish config (.ofHalt reverted data))
  | fails {failed : Machine σ} {fault : Fault} (callers_eq : failed.callers = callers)
      (other : fault.IsNoSize) : Yields (failed.fail config fault)
  | crashes {final : Machine σ} {crash : Crash} : Yields (.ended final (.crashed crash))

end Relations

variable {config : MachineConfig} {callers : List Suspended} {machine : Machine σ}

namespace Yields

theorem resume {output : Region} {flag : Word} {data : Bytes} :
    Yields config callers (machine.resume output flag data) := by
  unfold Machine.resume
  dsimp only
  split
  · exact .goesOn
  · exact .crashes

theorem staticCall {chain : Chain σ} {callee : Address} {input : Bytes} {requested : UInt64}
    {output : Region} (callers_eq : machine.callers = callers) :
    Yields config callers (staticCall chain config machine callee input requested output) := by
  unfold Machine.staticCall
  split
  · exact resume
  · split
    · dsimp only
      split
      · exact resume
      · exact .fails callers_eq (Fault.isNoSize_within rfl)
    · rw [enter_eq]
      split
      · exact .halts false ByteArray.empty
      · exact .goesOn

end Yields

/-- Executing an instruction does not fail for the size of memory. -/
theorem execute_yields (chain : Chain σ) (environment : Environment) (machine : Machine σ)
    {opcode : Opcode} (enough : opcode.arity.pops ≤ machine.frame.stack.length) :
    Yields environment.config machine.callers (execute chain environment machine opcode) := by
  have comesTo := execute_comesTo chain environment machine enough
  generalize execute chain environment machine opcode = status at comesTo
  cases comesTo with
  | goesOn => exact .goesOn
  | calls => exact .staticCall rfl
  | halts _ _ reverted data => exact .halts reverted data
  | fails meets => exact .fails rfl meets.isNoSize
  | crashes => exact .crashes

/-- A frame whose instruction is executed stops only with such faults. -/
theorem Yields.isNoSize {failed : Machine σ} {fault : Fault}
    (yields : Yields config callers (failed.fail config fault))
    (waiting : failed.callers = callers) (passes : isAbsorbed fault = false) :
    fault.IsNoSize := by
  obtain ⟨final, around, ended, _⟩ := fail_eq_failed config failed passes
  generalize same : failed.fail config fault = status at yields
  cases yields with
  | goesOn | crashes => cases ended.symm.trans same
  | halts reverted data =>
      obtain ⟨_, _, ending_eq, _⟩ := unwind_eq_failed (same.symm.trans ended)
      exact absurd ending_eq Ending.ofHalt_ne_failed
  | fails callers_eq other =>
      obtain rfl := fault_eq_of_fail (waiting.trans callers_eq.symm) passes same
      exact other

/-! ## Steps -/

/-- The running frame stops for a cause of its own, rather than with an answer of the chain. -/
def StopsFor (chain : Chain σ) (environment : Environment) (machine : Machine σ)
    (cause : Cause) : Prop :=
  ∃ fault, machine.Stops chain environment fault ∧ fault.isAnswer = false ∧ fault.cause = cause

section Step

variable {chain : Chain σ} {environment : Environment} {opcode : Opcode} {charged : Frame}
variable {fault : Fault} {cause : Cause} {regions : List Region}

/-- A frame stops for one cause. -/
theorem Stops.stopsFor_iff (stops : machine.Stops chain environment fault)
    (own : fault.isAnswer = false) (passes : isAbsorbed fault = false) :
    machine.StopsFor chain environment cause ↔ fault.cause = cause := by
  constructor
  · rintro ⟨found, ⟨other, others_eq, otherStep⟩, -, rfl⟩
    obtain ⟨failed, callers_eq, stepped⟩ := stops
    have same := stepped.symm.trans otherStep
    rw [fault_eq_of_fail (callers_eq.trans others_eq.symm) passes same]
  · intro cause_eq
    exact ⟨fault, stops, own, cause_eq⟩

namespace Admits

variable (admits : Admits environment.config machine opcode charged)
variable (touched : opcode.regions? machine.frame.stack = some regions)

include admits touched

theorem stops_gasOverflow (wide : 2 ^ 64 ≤ Memory.wholeWords (Region.reach regions))
    (chain : Chain σ) :
    machine.Stops chain environment
      (.met (.instruction opcode machine.frame.pc) .gasOverflow) := by
  refine ⟨{ machine with frame := charged }, rfl, ?_⟩
  obtain ⟨-, rfl⟩ := charge?_eq_some_iff.mp admits.paid
  rw [admits.step_eq]
  simp only [expand, touched, Region.needed?_eq_none_iff.mpr wide]

theorem stops_memoryLimit (fits : Memory.wholeWords (Region.reach regions) < 2 ^ 64)
    (exceeds : environment.config.memoryLimit.toNat < Memory.wholeWords (Region.reach regions))
    (chain : Chain σ) :
    machine.Stops chain environment
      (.met (.memoryNeeded opcode machine.frame.pc
        (UInt64.ofNat (Memory.wholeWords (Region.reach regions)))) .memoryLimit) := by
  refine ⟨{ machine with frame := charged }, rfl, ?_⟩
  obtain ⟨-, rfl⟩ := charge?_eq_some_iff.mp admits.paid
  obtain ⟨size, needed, size_eq⟩ := Region.exists_needed? fits
  have beyond : size > environment.config.memoryLimit := by
    rw [gt_iff_lt, UInt64.lt_iff_toNat_lt, size_eq]
    exact exceeds
  rw [admits.step_eq, ← size_eq, UInt64.ofNat_toNat]
  simp only [expand, touched, needed, if_pos beyond]

theorem exists_cleared
    (within : Memory.wholeWords (Region.reach regions) ≤ environment.config.memoryLimit.toNat) :
    ∃ size, machine.Cleared environment opcode size ∧
      size.toNat = Memory.wholeWords (Region.reach regions) := by
  obtain ⟨covered, -⟩ := charge?_eq_some_iff.mp admits.paid
  obtain ⟨size, needed, size_eq⟩ := Region.exists_needed?
    (Nat.lt_of_le_of_lt within environment.config.memoryLimit.toNat_lt)
  refine ⟨size, ?_, size_eq⟩
  exact
    { fetched := admits.fetched
      fits := admits.fits
      allowed := admits.allowed
      covered := covered
      needed := Option.bind_eq_some_iff.mpr ⟨regions, touched, needed⟩
      limited := UInt64.le_iff_toNat_le.mpr (size_eq ▸ within) }

/-- An instruction that is executed does not stop for the size of memory. -/
theorem not_stopsFor
    (within : Memory.wholeWords (Region.reach regions) ≤ environment.config.memoryLimit.toNat)
    (sized : cause = .gasOverflow ∨ cause = .memoryLimit) :
    ¬ machine.StopsFor chain environment cause := by
  rintro ⟨fault, ⟨failed, callers_eq, stepped⟩, own, rfl⟩
  obtain ⟨size, cleared, -⟩ := admits.exists_cleared touched within
  have yields := execute_yields chain environment
    (machine.prepared environment.config opcode size) cleared.enough
  rw [← cleared.step_eq, stepped] at yields
  have passes : isAbsorbed fault = false := by
    unfold isAbsorbed
    rcases sized with cause_eq | cause_eq
    · rw [cause_eq]
      rfl
    · rw [cause_eq]
      rfl
  obtain ⟨notOverflow, notLimit⟩ := yields.isNoSize callers_eq passes own
  rcases sized with cause_eq | cause_eq
  · exact notOverflow cause_eq
  · exact notLimit cause_eq

theorem stopsFor_gasOverflow_iff (chain : Chain σ) :
    machine.StopsFor chain environment .gasOverflow ↔
      2 ^ 64 ≤ Memory.wholeWords (Region.reach regions) := by
  rcases Nat.lt_or_ge (Memory.wholeWords (Region.reach regions)) (2 ^ 64) with fits | wide
  · refine iff_of_false ?_ (Nat.not_le.mpr fits)
    by_cases within :
        Memory.wholeWords (Region.reach regions) ≤ environment.config.memoryLimit.toNat
    · exact admits.not_stopsFor touched within (.inl rfl)
    · have stops := admits.stops_memoryLimit touched fits (Nat.lt_of_not_le within) chain
      rw [stops.stopsFor_iff rfl rfl]
      nofun
  · exact iff_of_true
      (((admits.stops_gasOverflow touched wide chain).stopsFor_iff rfl rfl).mpr rfl) wide

theorem stopsFor_memoryLimit_iff (chain : Chain σ) :
    machine.StopsFor chain environment .memoryLimit ↔
      Memory.wholeWords (Region.reach regions) < 2 ^ 64 ∧
        environment.config.memoryLimit.toNat < Memory.wholeWords (Region.reach regions) := by
  rcases Nat.lt_or_ge (Memory.wholeWords (Region.reach regions)) (2 ^ 64) with fits | wide
  · by_cases within :
        Memory.wholeWords (Region.reach regions) ≤ environment.config.memoryLimit.toNat
    · exact iff_of_false (admits.not_stopsFor touched within (.inr rfl))
        fun ⟨_, exceeds⟩ => Nat.not_lt.mpr within exceeds
    · have exceeds := Nat.lt_of_not_le within
      have stops := admits.stops_memoryLimit touched fits exceeds chain
      exact iff_of_true ((stops.stopsFor_iff rfl rfl).mpr rfl) ⟨fits, exceeds⟩
  · have stops := admits.stops_gasOverflow touched wide chain
    refine iff_of_false ?_ fun ⟨fits, _⟩ => Nat.not_lt.mpr wide fits
    rw [stops.stopsFor_iff rfl rfl]
    nofun

end Admits

end Step

end Machine

/-- The sizes of memory are exact. The size for an offset and a length is given up exactly when the
length is not zero and their sum does not fit, and it is their sum otherwise, or zero without a
length, wherever the offset is. A static call needs the greater size of its two regions, which is
given up when one of theirs is. A step that has passed the checks before stops for the size of
memory in two cases: the size does not fit, by itself or in whole words; or it fits in whole words
and exceeds the limit. In all others it executes its instruction, with memory grown to the size in
whole words if it was smaller. -/
theorem memory_sizing_exact :
    (∀ offset length : Word,
      (Region.stop? ⟨offset, length⟩ = none ↔
        0 < length.toNat ∧ 2 ^ 64 ≤ offset.toNat + length.toNat) ∧
      ∀ size, Region.stop? ⟨offset, length⟩ = some size →
        size.toNat = if length.toNat = 0 then 0 else offset.toNat + length.toNat) ∧
    (∀ operands : CallOperands,
      Opcode.staticcall.regions? operands.stack = some [operands.output, operands.input] ∧
      (Region.stopAll? [operands.output, operands.input] = none ↔
        operands.output.stop? = none ∨ operands.input.stop? = none) ∧
      ∀ stop other, operands.output.stop? = some stop → operands.input.stop? = some other →
        ∃ size, Region.stopAll? [operands.output, operands.input] = some size ∧
          size.toNat = max stop.toNat other.toNat) ∧
    ∀ {σ : Type} (chain : Chain σ) (environment : Environment) (machine : Machine σ)
      (opcode : Opcode) (charged : Frame),
      Machine.Admits environment.config machine opcode charged →
      ∃ regions, opcode.regions? machine.frame.stack = some regions ∧
        (machine.StopsFor chain environment .gasOverflow ↔
          2 ^ 64 ≤ Region.reach regions ∨ 2 ^ 64 ≤ Memory.wholeWords (Region.reach regions)) ∧
        (machine.StopsFor chain environment .memoryLimit ↔
          Memory.wholeWords (Region.reach regions) < 2 ^ 64 ∧
          environment.config.memoryLimit.toNat < Memory.wholeWords (Region.reach regions)) ∧
        (Memory.wholeWords (Region.reach regions) ≤ environment.config.memoryLimit.toNat →
          ∃ size, size.toNat = Memory.wholeWords (Region.reach regions) ∧
            machine.step chain environment =
              Machine.execute chain environment
                (machine.prepared environment.config opcode size) opcode ∧
            (machine.prepared environment.config opcode size).frame.memory.size =
              max machine.frame.memory.size (Memory.wholeWords (Region.reach regions))) := by
  refine ⟨?_, ?_, ?_⟩
  · intro offset length
    constructor
    · rw [Region.stop?_eq_none_iff, Memory.stop]
      split
      · next nothing => simp [nothing]
      · next something => simp [Nat.pos_of_ne_zero something]
    · intro size stops
      exact Region.toNat_of_stop? stops
  · intro operands
    refine ⟨CallOperands.regions?_eq rfl, ?_, ?_⟩
    · rw [Region.stopAll?_cons_eq_none_iff, Region.stopAll?_cons_eq_none_iff]
      simp [Region.stopAll?]
    · intro stop other stops otherStops
      exact Region.exists_stopAll?_pair stops otherStops
  · intro σ chain environment machine opcode charged admits
    obtain ⟨regions, touched⟩ :=
      Opcode.exists_regions? (Arity.check_eq_ok_iff.mp admits.fits).1
    refine ⟨regions, touched, ?_, ?_, ?_⟩
    · rw [admits.stopsFor_gasOverflow_iff touched]
      constructor
      · exact .inr
      · rintro (wide | wide)
        · exact wide.trans (Memory.le_wholeWords _)
        · exact wide
    · exact admits.stopsFor_memoryLimit_iff touched chain
    · intro within
      obtain ⟨size, cleared, size_eq⟩ := admits.exists_cleared touched within
      refine ⟨size, size_eq, cleared.step_eq chain, ?_⟩
      rw [← size_eq]
      exact Memory.size_grow machine.frame.memory size.toNat

/-- A machine that is about to store a word at an offset. -/
def storingMachine (offset : Word) : Machine StateSet where
  frame := { Frame.start 0 0 (Bytes.ofList [0x52]) ByteArray.empty 0 0 with stack := [offset, 7] }
  callers := []
  registers := {}
  chain := {}

/-- The last offset at which the size of a word fits in whole words, and the next one. -/
theorem storingMachine_sizing_exact :
    Region.stop? ⟨BitVec.allOnes 256, 0⟩ ≠ none ∧
    (∃ size, Region.stopAll? [⟨64, 32⟩, ⟨0, 100⟩] = some size ∧ size.toNat = 100) ∧
    (storingMachine 0xffffffffffffffc1).StopsFor (StateSet.chain .whole) (.of none none none)
      .gasOverflow ∧
    (storingMachine 0xffffffffffffffc0).StopsFor (StateSet.chain .whole) (.of none none none)
      .memoryLimit ∧
    ((storingMachine 40).prepared (Environment.of none none none).config .mstore
      96).frame.memory.size = 96 := by
  obtain ⟨sizes, calls, steps⟩ := memory_sizing_exact
  have admits (offset : Word) : Machine.Admits (Environment.of none none none).config
      (storingMachine offset) .mstore (storingMachine offset).frame := by
    exact ⟨by rfl, rfl, rfl, rfl⟩
  refine ⟨?_, ?_, ?_, ?_, ?_⟩
  · intro failed
    exact absurd ((sizes _ _).1.mp failed).1 (by decide)
  · exact (calls ⟨0, 0, 0, 100, 64, 32, []⟩).2.2 96 100 (by decide +kernel) (by decide +kernel)
  · obtain ⟨regions, touched, overflows, -, -⟩ := steps (StateSet.chain .whole) _ _ _ _
      (admits 0xffffffffffffffc1)
    cases touched
    exact overflows.mpr (by decide +kernel)
  · obtain ⟨regions, touched, -, exceeds, -⟩ := steps (StateSet.chain .whole) _ _ _ _
      (admits 0xffffffffffffffc0)
    cases touched
    exact exceeds.mpr (by decide +kernel)
  · obtain ⟨regions, touched, -, -, grows⟩ := steps (StateSet.chain .whole) _ _ _ _ (admits 40)
    cases touched
    obtain ⟨size, size_eq, -, grown⟩ := grows (by decide +kernel)
    obtain rfl : size = 96 := UInt64.toNat_inj.mp size_eq
    exact grown

end EvmAtlas
