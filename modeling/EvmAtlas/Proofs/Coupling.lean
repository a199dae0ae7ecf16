import EvmAtlas.Machine.Run

/-!
# Coupled machines

Two machines whose running frames differ in their gas at most read the same instructions,
find the same operands, and differ in what they do only as far as they differ in what is
around their frames. `Coupling` lists what a relation between such machines has to be closed
under. An instruction then keeps the relation: `Coupling.execute` goes through the
instructions once, for every relation of this kind.
-/

namespace EvmAtlas

variable {σ τ : Type}

namespace Machine

/-- A machine with its frame at another position, with another stack and another memory. -/
def place (machine : Machine σ) (stack : List Word) (pc : UInt64) (memory : Memory) :
    Machine σ :=
  { machine with frame := { machine.frame with stack, pc, memory } }

/-- Questions that have one answer on the chains of two related machines, and leave the
machines related. -/
def AnswersBoth (near : Machine σ → Machine τ → Prop) {α : Type} (left : Access σ α)
    (right : Access τ α) : Prop :=
  ∀ ⦃machine : Machine σ⦄ ⦃twin : Machine τ⦄, near machine twin →
    ∃ answer state other, left machine.chain = (answer, state) ∧
      right twin.chain = (answer, other) ∧
      near { machine with chain := state } { twin with chain := other }

/-- What a relation between machines has to be closed under to be kept by instructions. The
machines `near` are about to execute an instruction, and the statuses `close` are what they
come to. -/
structure Coupling (chain : Chain σ) (twinChain : Chain τ) (config twinConfig : MachineConfig)
    (near : Machine σ → Machine τ → Prop) (close : Status σ → Status τ → Prop) : Prop where
  memoryLimit_eq : twinConfig.memoryLimit = config.memoryLimit
  /-- The running frames are the same but for their gas. -/
  frame_eq : ∀ {machine twin}, near machine twin →
    twin.frame = { machine.frame with gas := twin.frame.gas }
  returnData_eq : ∀ {machine twin}, near machine twin →
    twin.registers.returnData = machine.registers.returnData
  moves : ∀ {machine twin}, near machine twin → ∀ stack pc memory,
    near (machine.place stack pc memory) (twin.place stack pc memory)
  goesOn : ∀ {machine twin}, near machine twin → close (.running machine) (.running twin)
  ends : ∀ {machine twin}, near machine twin → ∀ ending,
    close (machine.finish config ending) (twin.finish twinConfig ending)
  crashes : ∀ {machine twin}, near machine twin → ∀ crash,
    close (.ended machine (.crashed crash)) (.ended twin (.crashed crash))
  nonce : ∀ address, AnswersBoth near (chain.nonce address) (twinChain.nonce address)
  balance : ∀ address, AnswersBoth near (chain.balance address) (twinChain.balance address)
  code : ∀ address, AnswersBoth near (chain.code address) (twinChain.code address)
  storage : ∀ address slot,
    AnswersBoth near (chain.storage address slot) (twinChain.storage address slot)
  calls : ∀ {machine twin}, near machine twin → ∀ callee input requested output,
    close (staticCall chain config machine callee input requested output)
      (staticCall twinChain twinConfig twin callee input requested output)

namespace Coupling

variable {chain : Chain σ} {twinChain : Chain τ} {environment : Environment}
variable {config twinConfig : MachineConfig}
variable {near : Machine σ → Machine τ → Prop} {close : Status σ → Status τ → Prop}
variable {machine : Machine σ} {twin : Machine τ}

theorem exists_twin_eq (coupling : Coupling chain twinChain config twinConfig near close)
    (together : near machine twin) :
    ∃ gas callers registers state,
      twin = ⟨{ machine.frame with gas }, callers, registers, state⟩ := by
  obtain ⟨frame, callers, registers, state⟩ := twin
  have frame_eq := coupling.frame_eq together
  exact ⟨frame.gas, callers, registers, state,
    congrArg (Machine.mk · callers registers state) frame_eq⟩

section Parts

variable (coupling : Coupling chain twinChain config twinConfig near close)
variable (together : near machine twin)

include coupling together

theorem advance (stack : List Word) (size : UInt64) :
    close (machine.advance stack size) (twin.advance stack size) := by
  obtain ⟨gas, callers, registers, state, rfl⟩ := coupling.exists_twin_eq together
  exact coupling.goesOn (coupling.moves together _ _ machine.frame.memory)

theorem goto (stack : List Word) (pc : UInt64) :
    close (machine.goto stack pc) (twin.goto stack pc) := by
  obtain ⟨gas, callers, registers, state, rfl⟩ := coupling.exists_twin_eq together
  exact coupling.goesOn (coupling.moves together _ _ machine.frame.memory)

theorem store (stack : List Word) (offset size : Nat) (data : Bytes) :
    close (machine.store stack offset size data) (twin.store stack offset size data) := by
  obtain ⟨gas, callers, registers, state, rfl⟩ := coupling.exists_twin_eq together
  unfold Machine.store
  dsimp only
  split
  · exact coupling.goesOn (coupling.moves together _ _ _)
  · exact coupling.crashes together _

theorem load {offset length : Word} {use : Bytes → Status σ} {twinUse : Bytes → Status τ}
    (used : ∀ data, close (use data) (twinUse data)) :
    close (machine.load offset length use) (twin.load offset length twinUse) := by
  obtain ⟨gas, callers, registers, state, rfl⟩ := coupling.exists_twin_eq together
  unfold Machine.load
  dsimp only
  split
  · exact coupling.crashes together _
  · exact used _

theorem ask {α : Type} {access : Access σ α} {twinAccess : Access τ α} {context : Context}
    {use : α → Machine σ → Status σ} {twinUse : α → Machine τ → Status τ}
    (alike : AnswersBoth near access twinAccess)
    (used : ∀ answer state other,
      near { machine with chain := state } { twin with chain := other } →
      close (use answer { machine with chain := state })
        (twinUse answer { twin with chain := other })) :
    close (machine.ask config access context use)
      (twin.ask twinConfig twinAccess context twinUse) := by
  obtain ⟨answer, state, other, asked, twinAsked, together⟩ := alike together
  unfold Machine.ask
  rw [asked, twinAsked]
  cases answer with
  | ok answer => exact used answer state other together
  | error fault => exact coupling.ends together _

theorem codeHash {address : Address} {use : Word → Machine σ → Status σ}
    {twinUse : Word → Machine τ → Status τ}
    (used : ∀ hash state other, near { machine with chain := state } { twin with chain := other } →
      close (use hash { machine with chain := state })
        (twinUse hash { twin with chain := other })) :
    close (machine.codeHash chain config address use)
      (twin.codeHash twinChain twinConfig address twinUse) := by
  apply coupling.ask together (coupling.code address)
  intro code state other together
  split
  · exact used _ _ _ together
  · apply coupling.ask together (coupling.nonce address)
    intro nonce state other together
    apply coupling.ask together (coupling.balance address)
    intro balance state other together
    split
    · exact used _ _ _ together
    · exact used _ _ _ together

end Parts

/-- An instruction that does not write keeps two machines related. If it reads the gas of its
frame, the frames have to agree on that. -/
theorem execute (coupling : Coupling chain twinChain environment.config twinConfig near close)
    (together : near machine twin) {opcode : Opcode} (reads : opcode.writes = false)
    (silent : opcode = .reading .gas → twin.frame.gas = machine.frame.gas) :
    close (execute chain environment machine opcode)
      (execute twinChain { environment with config := twinConfig } twin opcode) := by
  have data_eq := coupling.returnData_eq together
  obtain ⟨gas, waiting, twinRegisters, twinState, rfl⟩ := coupling.exists_twin_eq together
  obtain ⟨frame, callers, registers, state⟩ := machine
  obtain ⟨caller, address, code, input, value, held, pc, stack, memory⟩ := frame
  dsimp only at data_eq silent
  -- With its operands at hand, an instruction is the same on both sides but for what the
  -- coupling provides for.
  cases opcode with
  | sstore | log => cases reads
  | stop | unsupported => exact coupling.ends together _
  | jumpdest | push => exact coupling.advance together _ _
  | reading word =>
      have same : read { environment with config := twinConfig }
          (⟨⟨caller, address, code, input, value, gas, pc, stack, memory⟩, waiting,
            twinRegisters, twinState⟩ : Machine τ) word =
          read environment
            (⟨⟨caller, address, code, input, value, held, pc, stack, memory⟩, callers,
              registers, state⟩ : Machine σ) word := by
        cases word with
        | gas => exact congrArg Word.ofUInt64 (silent rfl)
        | returndatasize => exact congrArg (fun data => BitVec.ofNat 256 data.size) data_eq
        | _ => rfl
      simp only [Machine.execute, same]
      exact coupling.advance together _ _
  | unary | calldataload | pop =>
      cases stack with
      | nil => exact coupling.crashes together _
      | cons => exact coupling.advance together _ _
  | binary =>
      rcases stack with _ | ⟨_, _ | _⟩
      · exact coupling.crashes together _
      · exact coupling.crashes together _
      · exact coupling.advance together _ _
  | ternary =>
      rcases stack with _ | ⟨_, _ | ⟨_, _ | _⟩⟩
      · exact coupling.crashes together _
      · exact coupling.crashes together _
      · exact coupling.crashes together _
      · exact coupling.advance together _ _
  | sha3 =>
      rcases stack with _ | ⟨_, _ | _⟩
      · exact coupling.crashes together _
      · exact coupling.crashes together _
      · exact coupling.load together fun data => coupling.advance together _ _
  | mload =>
      cases stack with
      | nil => exact coupling.crashes together _
      | cons => exact coupling.load together fun data => coupling.advance together _ _
  | copy source =>
      have same : Machine.source
          (⟨⟨caller, address, code, input, value, gas, pc, stack, memory⟩, waiting,
            twinRegisters, twinState⟩ : Machine τ) source =
          Machine.source
            (⟨⟨caller, address, code, input, value, held, pc, stack, memory⟩, callers,
              registers, state⟩ : Machine σ) source := by
        cases source with
        | returndata => exact data_eq
        | _ => rfl
      simp only [Machine.execute, same]
      rcases stack with _ | ⟨_, _ | ⟨_, _ | _⟩⟩
      · exact coupling.crashes together _
      · exact coupling.crashes together _
      · exact coupling.crashes together _
      · exact coupling.store together _ _ _ _
  | mstore | mstore8 =>
      rcases stack with _ | ⟨_, _ | _⟩
      · exact coupling.crashes together _
      · exact coupling.crashes together _
      · exact coupling.store together _ _ _ _
  | balance =>
      cases stack with
      | nil => exact coupling.crashes together _
      | cons =>
          simp only [Machine.execute]
          apply coupling.ask together (coupling.balance _)
          intro answer state other together
          exact coupling.advance together _ _
  | extcodesize =>
      cases stack with
      | nil => exact coupling.crashes together _
      | cons =>
          simp only [Machine.execute]
          apply coupling.ask together (coupling.code _)
          intro answer state other together
          exact coupling.advance together _ _
  | extcodecopy =>
      rcases stack with _ | ⟨_, _ | ⟨_, _ | ⟨_, _ | _⟩⟩⟩
      case cons.cons.cons.cons =>
        simp only [Machine.execute]
        apply coupling.ask together (coupling.code _)
        intro answer state other together
        exact coupling.store together _ _ _ _
      all_goals exact coupling.crashes together _
  | extcodehash =>
      cases stack with
      | nil => exact coupling.crashes together _
      | cons =>
          simp only [Machine.execute]
          apply coupling.codeHash together
          intro hash state other together
          exact coupling.advance together _ _
  | sload =>
      cases stack with
      | nil => exact coupling.crashes together _
      | cons =>
          simp only [Machine.execute]
          apply coupling.ask together (coupling.storage _ _)
          intro answer state other together
          exact coupling.advance together _ _
  | jump =>
      cases stack with
      | nil => exact coupling.crashes together _
      | cons =>
          simp only [Machine.execute]
          split
          · exact coupling.goto together _ _
          · exact coupling.ends together _
  | jumpi =>
      rcases stack with _ | ⟨_, _ | _⟩
      · exact coupling.crashes together _
      · exact coupling.crashes together _
      · simp only [Machine.execute]
        split
        · exact coupling.advance together _ _
        · split
          · exact coupling.goto together _ _
          · exact coupling.ends together _
  | dup index =>
      simp only [Machine.execute]
      split
      · exact coupling.advance together _ _
      · exact coupling.crashes together _
  | swap index =>
      simp only [Machine.execute]
      split
      · exact coupling.advance together _ _
      · exact coupling.crashes together _
  | staticcall =>
      rcases stack with _ | ⟨_, _ | ⟨_, _ | ⟨_, _ | ⟨_, _ | ⟨_, _ | ⟨_, rest⟩⟩⟩⟩⟩⟩
      case cons.cons.cons.cons.cons.cons =>
        apply coupling.load together
        intro input
        exact coupling.calls (coupling.moves together rest pc memory) _ _ _ _
      all_goals exact coupling.crashes together _
  | «return» | revert =>
      rcases stack with _ | ⟨_, _ | _⟩
      · exact coupling.crashes together _
      · exact coupling.crashes together _
      · apply coupling.load together
        intro data
        exact coupling.ends (coupling.moves together _ pc memory) _

/-- Growing the memory for an instruction and executing it. What the instructions that write
do is left to the relation. -/
theorem expand (coupling : Coupling chain twinChain environment.config twinConfig near close)
    (together : near machine twin) {opcode : Opcode}
    (writing : opcode.writes = true → ∀ {machine twin}, near machine twin →
      close (Machine.execute chain environment machine opcode)
        (Machine.execute twinChain { environment with config := twinConfig } twin opcode))
    (silent : opcode = .reading .gas → twin.frame.gas = machine.frame.gas) :
    close (expand chain environment machine opcode)
      (expand twinChain { environment with config := twinConfig } twin opcode) := by
  obtain ⟨gas, waiting, twinRegisters, twinState, rfl⟩ := coupling.exists_twin_eq together
  unfold Machine.expand
  dsimp only
  rw [coupling.memoryLimit_eq]
  split
  · exact coupling.crashes together _
  · split
    · exact coupling.ends together _
    · split
      · exact coupling.ends together _
      · next size _ _ =>
          have grown := coupling.moves together machine.frame.stack machine.frame.pc
            (machine.frame.memory.grow size.toNat)
          cases writes : opcode.writes with
          | true => exact writing writes grown
          | false => exact coupling.execute grown writes silent

end Coupling

end Machine

end EvmAtlas
