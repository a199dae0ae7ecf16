import EvmAtlas.Proofs.Returning

/-!
# The memory of a frame over its life

`Interpreter.Lives` follows the frames of a call from their first instruction on, each with the
history of what it has done to memory so far. Every machine that a call comes to runs a frame
with such a life, and the frames that wait in it are about to go on with theirs. Over its life a
frame's memory is the ideal one: every position holds the byte that was last written there, or
zero, although the real memory is grown in whole words and its regions are given by 256-bit
operands.
-/

namespace EvmAtlas

variable {σ : Type}

theorem Machine.memory_of_begin {machine : Machine σ} {config : MachineConfig}
    {registers : Registers} {call : Call} {code : Bytes} {state : σ}
    (began : Machine.begin config registers call code state = .running machine) :
    machine.frame.memory = .empty := by
  unfold Machine.begin at began
  dsimp only at began
  split at began
  · cases began
  · cases began
    rfl

namespace Interpreter

variable (interpreter : Interpreter) (chain : Chain σ) (call : Call) (state : σ)

/-- The frames of a call before each of their instructions, with what they have done so far. -/
inductive Lives : Machine σ → History → Prop where
  /-- The outermost frame begins. -/
  | begins {code : Bytes} {after : σ} {machine : Machine σ}
      (asked : chain.code call.address state = (.ok code, after))
      (began : Machine.begin interpreter.environment.config interpreter.registers call code after =
        .running machine) : Lives machine []
  /-- A callee begins. -/
  | enters {machine inner : Machine σ} {history : History} (lives : Lives machine history)
      (stepped : machine.step chain interpreter.environment = .running inner)
      (deeper : machine.callers.length < inner.callers.length) : Lives inner []
  /-- A frame has executed an instruction. -/
  | goesOn {machine after : Machine σ} {history : History} {opcode : Opcode}
      (lives : Lives machine history) (fetched : machine.fetched? = some opcode)
      (executes : machine.Executes chain interpreter.environment after) :
      Lives after (machine.deed chain opcode after :: history)

/-- A machine whose frames are all alive: the running one, and those that wait for what they
execute. -/
structure Attended (machine : Machine σ) : Prop where
  running : ∃ history, interpreter.Lives chain call state machine history
  waiting : ∀ waiting rest, waiting :: rest <:+ machine.callers →
    ∃ caller history, interpreter.Lives chain call state caller history ∧
      caller.callers = rest ∧ caller.Working chain interpreter.environment (.running machine)

variable {interpreter chain call state}
variable {machine after : Machine σ} {history : History}

theorem Attended.step (attended : interpreter.Attended chain call state machine)
    (stepped : machine.step chain interpreter.environment = .running after) :
    interpreter.Attended chain call state after := by
  obtain ⟨⟨history, lives⟩, waits⟩ := attended
  obtain ⟨opcode, size, cleared⟩ := Machine.cleared_of_step stepped
  have onward (waiting : Suspended) (rest : List Suspended)
      (suffix : waiting :: rest <:+ machine.callers) :
      ∃ caller history, interpreter.Lives chain call state caller history ∧
        caller.callers = rest ∧ caller.Working chain interpreter.environment (.running after) := by
    obtain ⟨caller, history, lives, callers_eq, working⟩ := waits waiting rest suffix
    refine ⟨caller, history, lives, callers_eq, ?_⟩
    rw [← stepped]
    apply working.goesOn
    rw [callers_eq]
    exact suffix.length_le
  rcases Machine.step_callers stepped with callers_eq | ⟨waiting, callers_eq⟩ |
    ⟨waiting, callers_eq⟩
  · constructor
    · exact ⟨_, lives.goesOn cleared.fetched ⟨stepped ▸ .begins, callers_eq⟩⟩
    · rw [callers_eq]
      exact onward
  · -- A callee was entered, and the frame that ran is the first that waits.
    constructor
    · refine ⟨_, lives.enters stepped ?_⟩
      rw [callers_eq]
      exact Nat.lt_succ_self _
    · rw [callers_eq]
      intro other rest suffix
      rcases List.suffix_cons_iff.mp suffix with same | below
      · injection same with _ rest_eq
        subst rest_eq
        exact ⟨machine, history, lives, rfl, stepped ▸ .begins⟩
      · exact onward other rest below
  · -- The first frame that waited goes on, and has executed its static call with that.
    constructor
    · obtain ⟨caller, before, lives, level, working⟩ :=
        onward waiting after.callers (callers_eq ▸ List.suffix_rfl)
      obtain ⟨opcode, size, cleared⟩ := working.exists_cleared rfl
      exact ⟨_, lives.goesOn cleared.fetched ⟨working, level.symm⟩⟩
    · intro other rest suffix
      apply onward other rest
      rw [callers_eq]
      exact suffix.trans (List.suffix_cons _ _)

theorem Reaches.attended {steps : Nat}
    (reaches : interpreter.Reaches chain call steps state machine) :
    interpreter.Attended chain call state machine := by
  apply reaches.induct
  · intro code after machine asked began
    constructor
    · exact ⟨[], .begins asked began⟩
    · rw [Machine.begin_callers began]
      intro waiting rest suffix
      cases List.suffix_nil.mp suffix
  · exact fun _ attended stepped => attended.step stepped

/-- Over its life a frame's memory holds what the frame has left in it, and stays in its
limit. -/
theorem Lives.recalls (lives : interpreter.Lives chain call state machine history)
    (limited : interpreter.environment.config.memoryLimit.toNat < 2 ^ 63) :
    machine.frame.memory.Recalls history ∧
      machine.frame.memory.size ≤ interpreter.environment.config.memoryLimit.toNat := by
  induction lives with
  | begins _ began =>
      rw [Machine.memory_of_begin began]
      exact ⟨Memory.recalls_empty, Nat.zero_le _⟩
  | enters _ stepped deeper =>
      obtain ⟨opcode, size, cleared⟩ := Machine.cleared_of_step stepped
      obtain ⟨-, operands, waiting, enters⟩ := cleared.enters stepped deeper
      rw [enters.fresh]
      exact ⟨Memory.recalls_empty, Nat.zero_le _⟩
  | @goesOn machine after history opcode _ fetched executes ih =>
      obtain ⟨recalls, inside⟩ := ih
      obtain ⟨size, cleared⟩ := executes.exists_cleared fetched
      have size_eq := cleared.size_eq chain after
      rw [(executes.executed cleared).memory_eq cleared limited]
      refine ⟨recalls.perform size_eq, ?_⟩
      rw [Memory.size_perform _ size_eq]
      exact Nat.max_le.mpr ⟨inside, UInt64.le_iff_toNat_le.mp cleared.limited⟩

end Interpreter

/-! ## What instructions read -/

namespace Machine

variable {chain : Chain σ} {environment : Environment} {machine : Machine σ} {history : History}
variable {opcode : Opcode} {size : UInt64}

/-- An instruction that loads a region gets what the history says of it. -/
theorem Cleared.load_eq (cleared : machine.Cleared environment opcode size)
    (limited : environment.config.memoryLimit.toNat < 2 ^ 63)
    (recalls : machine.frame.memory.Recalls history) {regions : List Region}
    (touched : opcode.regions? machine.frame.stack = some regions) {offset length : Word}
    (member : ⟨offset, length⟩ ∈ regions) (use : Bytes → Status σ) :
    (machine.prepared environment.config opcode size).load offset length use =
      use (history.window offset.toNat length.toNat) := by
  have grown : (machine.frame.memory.grow size.toNat).bytes.window offset.toNat length.toNat =
      history.window offset.toNat length.toNat := by
    rw [← recalls.window_eq]
    exact Bytes.window_congr (Memory.byteAt_grow _ _) _ _
  have found : (machine.prepared environment.config opcode size).frame.memory.readWords? offset
      length = some (history.window offset.toNat length.toNat) := by
    rw [← grown]
    exact (cleared.holds limited touched _ member).readWords?_eq
  unfold load
  rw [found]

/-- What a step comes to whose instruction loads one region and goes on from there. -/
theorem Cleared.step_of_load (cleared : machine.Cleared environment opcode size)
    (limited : environment.config.memoryLimit.toNat < 2 ^ 63)
    (recalls : machine.frame.memory.Recalls history) {offset length : Word}
    (touched : opcode.regions? machine.frame.stack = some [⟨offset, length⟩])
    {use : Bytes → Status σ}
    (loads : execute chain environment (machine.prepared environment.config opcode size) opcode =
      (machine.prepared environment.config opcode size).load offset length use) :
    machine.step chain environment = use (history.window offset.toNat length.toNat) := by
  rw [cleared.step_eq, loads]
  exact cleared.load_eq limited recalls touched (.head _) use

variable (chain environment machine history) in
/-- What a machine does with the bytes that its instruction reads, each of them the one that was
last written at its position. -/
structure ReadsBack (opcode : Opcode) : Prop where
  loaded : opcode = .mload → ∀ offset rest, machine.frame.stack = offset :: rest →
    ∃ after, machine.step chain environment = .running after ∧
      after.callers = machine.callers ∧
      after.frame.stack = Word.ofBytes (history.window offset.toNat 32) :: rest
  hashed : opcode = .sha3 → ∀ offset length rest,
    machine.frame.stack = offset :: length :: rest →
    ∃ after, machine.step chain environment = .running after ∧
      after.callers = machine.callers ∧
      after.frame.stack = keccak (history.window offset.toNat length.toNat) :: rest
  logged : ∀ topics, opcode = .log topics → ∀ offset length rest,
    machine.frame.stack = offset :: length :: rest →
    ∃ after, machine.step chain environment = .running after ∧
      after.callers = machine.callers ∧
      after.registers.logs =
        ⟨machine.frame.address, rest.take topics.val, history.window offset.toNat length.toNat,
          environment.block.number⟩ :: machine.registers.logs
  returned : opcode = .return → ∀ offset length rest,
    machine.frame.stack = offset :: length :: rest →
    ∃ last : Machine σ, last.callers = machine.callers ∧
      machine.step chain environment = last.finish environment.config
        (.returned (history.window offset.toNat length.toNat))
  reverted : opcode = .revert → ∀ offset length rest,
    machine.frame.stack = offset :: length :: rest →
    ∃ last : Machine σ, last.callers = machine.callers ∧
      machine.step chain environment = last.finish environment.config
        (.reverted (history.window offset.toNat length.toNat))
  /-- A callee finds its input. -/
  passed : opcode = .staticcall → ∀ operands : CallOperands,
    machine.frame.stack = operands.stack → ∀ inner,
    machine.step chain environment = .running inner →
    machine.callers.length < inner.callers.length →
    inner.frame.input = history.window operands.inOffset.toNat operands.inLength.toNat

/-- A static call that enters a callee passes on the input that it was given. -/
theorem input_of_staticCall {config : MachineConfig} {ready inner : Machine σ} {callee : Address}
    {input : Bytes} {requested : UInt64} {output : Region}
    (called : staticCall chain config ready callee input requested output = .running inner)
    (deeper : ready.callers.length < inner.callers.length) : inner.frame.input = input := by
  have level : inner.callers ≠ ready.callers := by
    intro same
    rw [same] at deeper
    exact Nat.lt_irrefl _ deeper
  unfold staticCall at called
  split at called
  · exact absurd (resumed_of_running called).callers_eq level
  · dsimp only at called
    split at called
    · split at called
      · exact absurd (resumed_of_running called).callers_eq level
      · next passes =>
          obtain ⟨final, total, failed, -⟩ := fail_eq_failed config _ (Bool.eq_false_iff.mpr passes)
          rw [failed] at called
          cases called
    · rw [enter_eq] at called
      split at called
      · obtain ⟨_, _, _, _, waits, -, resumed⟩ := resumed_of_unwind called
        cases waits
        exact absurd resumed.callers_eq level
      · cases called
        rfl

/-- An instruction that passed every check reads what the history says. -/
theorem Cleared.readsBack (cleared : machine.Cleared environment opcode size)
    (limited : environment.config.memoryLimit.toNat < 2 ^ 63)
    (recalls : machine.frame.memory.Recalls history) :
    machine.ReadsBack chain environment history opcode where
  loaded := by
    rintro rfl offset rest stack_eq
    let ready := machine.prepared environment.config .mload size
    have loads : execute chain environment ready .mload =
        ready.load offset 32 fun data => ready.next (Word.ofBytes data :: rest) := by
      simp only [execute, ready, prepared, stack_eq]
    rw [cleared.step_of_load limited recalls (congrArg _ stack_eq) loads]
    exact ⟨_, rfl, rfl, rfl⟩
  hashed := by
    rintro rfl offset length rest stack_eq
    let ready := machine.prepared environment.config .sha3 size
    have loads : execute chain environment ready .sha3 =
        ready.load offset length fun data => ready.next (keccak data :: rest) := by
      simp only [execute, ready, prepared, stack_eq]
    rw [cleared.step_of_load limited recalls (congrArg _ stack_eq) loads]
    exact ⟨_, rfl, rfl, rfl⟩
  logged := by
    rintro topics rfl offset length rest stack_eq
    have enough := cleared.enough
    rw [stack_eq] at enough
    have topped : ¬ rest.length < topics.val :=
      Nat.not_lt.mpr (Nat.le_of_succ_le_succ (Nat.le_of_succ_le_succ enough))
    let ready := machine.prepared environment.config (.log topics) size
    have loads : execute chain environment ready (.log topics) =
        ready.load offset length fun data =>
          next { ready with
            registers := { ready.registers with
              logs := ⟨ready.frame.address, rest.take topics.val, data,
                environment.block.number⟩ :: ready.registers.logs } }
            (rest.drop topics.val) := by
      simp only [execute, ready, prepared, stack_eq, if_neg topped]
    rw [cleared.step_of_load limited recalls (congrArg _ stack_eq) loads]
    exact ⟨_, rfl, rfl, rfl⟩
  returned := by
    rintro rfl offset length rest stack_eq
    let ready := machine.prepared environment.config .return size
    let last : Machine σ := { ready with frame := { ready.frame with stack := rest } }
    have loads : execute chain environment ready .return =
        ready.load offset length fun data => last.finish environment.config (.returned data) := by
      simp only [execute, ready, last, prepared, stack_eq]
    rw [cleared.step_of_load limited recalls (congrArg _ stack_eq) loads]
    exact ⟨last, rfl, rfl⟩
  reverted := by
    rintro rfl offset length rest stack_eq
    let ready := machine.prepared environment.config .revert size
    let last : Machine σ := { ready with frame := { ready.frame with stack := rest } }
    have loads : execute chain environment ready .revert =
        ready.load offset length fun data => last.finish environment.config (.reverted data) := by
      simp only [execute, ready, last, prepared, stack_eq]
    rw [cleared.step_of_load limited recalls (congrArg _ stack_eq) loads]
    exact ⟨last, rfl, rfl⟩
  passed := by
    rintro rfl operands stack_eq inner running deeper
    have touched := CallOperands.regions?_eq stack_eq
    rw [cleared.step_eq_staticCall stack_eq,
      cleared.load_eq limited recalls touched (.tail _ (.head _))] at running
    exact input_of_staticCall running deeper

end Machine

/-- The memory of a frame is an unbounded array of bytes that begins with zeros. With a limit to
memory whose sizes are also signed numbers, every machine that a call comes to runs a frame with
a history. Over the life of a frame its memory has a size in whole words, within the limit, and
just as large as it takes to hold what was read or written; it holds at every position the byte
that was last written there, or zero. An instruction that is executed never makes it smaller and
changes no byte outside the region that it writes. And an instruction that does not fail the
machine uses, where it reads memory, the bytes that were last written. -/
theorem memory_recalls_last_written (chain : Chain σ) (interpreter : Interpreter) (call : Call)
    (state : σ) (limited : interpreter.environment.config.memoryLimit.toNat < 2 ^ 63) :
    (∀ steps machine, interpreter.Reaches chain call steps state machine →
      ∃ history, interpreter.Lives chain call state machine history) ∧
    ∀ machine history, interpreter.Lives chain call state machine history →
      machine.frame.memory.size % 32 = 0 ∧
      machine.frame.memory.size ≤ interpreter.environment.config.memoryLimit.toNat ∧
      machine.frame.memory.size = 32 * ((history.reach + 31) / 32) ∧
      (∀ position, machine.frame.memory.bytes.byteAt position = history.byteAt position) ∧
      (∀ opcode after, machine.fetched? = some opcode →
        machine.Executes chain interpreter.environment after →
        machine.frame.memory.size ≤ after.frame.memory.size ∧
        ∀ position, ¬ (machine.deed chain opcode after).Writes position →
          after.frame.memory.bytes.byteAt position =
            machine.frame.memory.bytes.byteAt position) ∧
      ((machine.step chain interpreter.environment).FailedOutright ∨
        ∃ opcode, machine.fetched? = some opcode ∧
          machine.ReadsBack chain interpreter.environment history opcode) := by
  constructor
  · exact fun steps machine reaches => reaches.attended.running
  · intro machine history lives
    obtain ⟨recalls, inside⟩ := lives.recalls limited
    refine ⟨?_, inside, recalls.size_eq, recalls.byteAt_eq, ?_, ?_⟩
    · rw [recalls.size_eq, Memory.wholeWords, Nat.mul_mod_right]
    · intro opcode after fetched executes
      obtain ⟨recallsAfter, -⟩ := (lives.goesOn fetched executes).recalls limited
      constructor
      · rw [recalls.size_eq, recallsAfter.size_eq, History.reach, Memory.wholeWords_max]
        exact Nat.le_max_right _ _
      · intro position outside
        rw [recalls.byteAt_eq, recallsAfter.byteAt_eq, History.byteAt, if_neg outside]
    · rcases Machine.exists_cleared chain interpreter.environment machine with
        failed | ⟨opcode, size, cleared⟩
      · exact .inl failed
      · exact .inr ⟨opcode, cleared.fetched, cleared.readsBack limited recalls⟩

/-- An account that writes the last byte of a word of memory and loads the word. -/
def writingAccounts : StateSet :=
  ({} : StateSet).setCode 0
    (Bytes.ofList [0x60, 0x07, 0x60, 0x1f, 0x53, 0x60, 0x00, 0x51, 0x00])

/-- The byte is found again in the word, and memory has grown by this word alone. -/
theorem writingAccounts_recall :
    ∃ machine history after,
      (Interpreter.fresh none none none).Lives (StateSet.chain .whole) {} writingAccounts machine
        history ∧
      machine.frame.memory.size = 32 ∧ history.byteAt 31 = 7 ∧
      machine.step (StateSet.chain .whole) (.of none none none) = .running after ∧
      after.frame.stack = [Word.ofBytes (history.window 0 32)] ∧ after.frame.stack = [7] := by
  have limited : (Interpreter.fresh none none none).environment.config.memoryLimit.toNat <
      2 ^ 63 := by
    decide
  obtain ⟨attended, recalled⟩ := memory_recalls_last_written (StateSet.chain .whole)
    (Interpreter.fresh none none none) {} writingAccounts limited
  have comes : (Machine.run (StateSet.chain .whole) (.of none none none) 4
      (Machine.begin (Environment.of none none none).config {} {}
        (writingAccounts.account 0).code writingAccounts)).running?.any
      (fun machine => machine.frame.memory.size == 32 &&
        machine.frame.memory.bytes.byteAt 31 == 7 && machine.fetched? == some .mload &&
        machine.frame.stack == [0] &&
        (machine.step (StateSet.chain .whole) (.of none none none)).running?.any
          fun after => after.frame.stack == [7]) = true := by
    decide +kernel
  obtain ⟨machine, ran, seen⟩ := Status.exists_running comes
  simp only [Bool.and_eq_true, beq_iff_eq] at seen
  obtain ⟨⟨⟨⟨size_eq, byte_eq⟩, fetched⟩, stack_eq⟩, loads⟩ := seen
  obtain ⟨after, stepped, loaded⟩ := Status.exists_running loads
  obtain ⟨history, lives⟩ := attended 4 machine ⟨_, _, rfl, ran⟩
  obtain ⟨-, -, -, bytes_eq, -, reads⟩ := recalled machine history lives
  rcases reads with ⟨final, fault, failed, -⟩ | ⟨opcode, same, readsBack⟩
  · cases stepped.symm.trans failed
  · cases same.symm.trans fetched
    obtain ⟨other, again, -, word_eq⟩ := readsBack.loaded rfl 0 [] stack_eq
    cases again.symm.trans stepped
    exact ⟨machine, history, after, lives, size_eq, (bytes_eq 31).symm.trans byte_eq, again,
      word_eq, by simpa using loaded⟩

end EvmAtlas
