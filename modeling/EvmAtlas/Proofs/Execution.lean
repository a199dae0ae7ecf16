import EvmAtlas.Proofs.Decode
import EvmAtlas.Proofs.Deeds
import EvmAtlas.Proofs.Question
import EvmAtlas.Proofs.Refinement

/-!
# What executing an instruction comes to

Once the stack of an instruction is checked, executing it comes to one of five things. The frame
goes on, it makes a static call, it halts, it fails, or it finds memory that does not reach as far
as it should. `Machine.ComesTo` lists them with all that they say about the frame, the shared
registers and the chain, and `execute_comesTo` goes through the instructions once. What other
modules say about instructions, each from its own point of view, follows from this list.
-/

namespace EvmAtlas

variable {σ : Type}

/-! ## Stacks -/

namespace Arity

variable {arity : Arity} {height : Nat}

theorem check_eq_ok_iff :
    arity.check height = .ok () ↔
      arity.pops ≤ height ∧ height + arity.pushes ≤ stackLimit + arity.pops := by
  unfold check
  dsimp only
  split
  · simp only [reduceCtorEq, false_iff]
    omega
  · split
    · simp only [reduceCtorEq, false_iff]
      omega
    · simp only [true_iff]
      omega

end Arity

namespace Opcode

/-- Whether an instruction ends its frame. -/
def isHalt : Opcode → Bool
  | .stop | .return | .revert => true
  | _ => false

theorem fold?_eq_none {opcode : Opcode} (unfolded : opcode.isFoldable = false)
    (operands : List Word) : opcode.fold? operands = none := by
  rw [Option.eq_none_iff_forall_ne_some]
  intro result folds
  rw [isFoldable_of_fold? folds] at unfolded
  cases unfolded

/-- A stack on which the results of an instruction have taken the place of its operands. -/
structure Replaces (opcode : Opcode) (before after : List Word) : Prop where
  length_eq : after.length = before.length - opcode.arity.pops + opcode.arity.pushes
  /-- What was below the operands is below the results. -/
  below_eq : after.drop opcode.arity.pushes = before.drop opcode.arity.pops

theorem Replaces.of_results {opcode : Opcode} {before after : List Word} (results : List Word)
    (pushes : results.length = opcode.arity.pushes)
    (after_eq : after = results ++ before.drop opcode.arity.pops) :
    opcode.Replaces before after where
  length_eq := by
    rw [after_eq, List.length_append, List.length_drop, pushes, Nat.add_comm]
  below_eq := by
    rw [after_eq, ← pushes, List.drop_left]

/-- A stack that passed the check of an instruction is not too high once its operands are
replaced. -/
theorem Replaces.length_le {opcode : Opcode} {before after : List Word}
    (replaced : opcode.Replaces before after)
    (fits : opcode.arity.check before.length = .ok ()) : after.length ≤ stackLimit := by
  obtain ⟨enough, room⟩ := Arity.check_eq_ok_iff.mp fits
  rw [replaced.length_eq]
  omega

/-- A duplication takes and leaves every cell down to the one that it copies. -/
theorem replaces_dup {index : Fin 16} {stack : List Word} (enough : index.val < stack.length)
    (word : Word) : (Opcode.dup index).Replaces stack (word :: stack) where
  length_eq := by
    have same : stack.length - (index.val + 1) + (index.val + 1) = stack.length :=
      Nat.sub_add_cancel enough
    exact congrArg Nat.succ same.symm
  below_eq := List.drop_succ_cons

/-- An exchange takes and leaves every cell down to the one that comes to the top. -/
theorem replaces_swap {index : Fin 16} {rest : List Word} (enough : index.val < rest.length)
    (top other : Word) :
    (Opcode.swap index).Replaces (top :: rest) (other :: rest.set index.val top) where
  length_eq := by
    have same : rest.length + 1 - (index.val + 2) + (index.val + 2) = rest.length + 1 :=
      Nat.sub_add_cancel (Nat.succ_le_succ enough)
    rw [List.length_cons, List.length_set]
    exact same.symm
  below_eq := List.drop_set_of_lt (Nat.lt_succ_self index.val)

end Opcode

namespace SymStack

/-- The words that an instruction without access to deeper cells leaves, given its operands
and its results. -/
theorem describes_results {opcode : Opcode} (operands rest results : List Word)
    (plain : (∀ index, opcode ≠ .dup index) ∧ ∀ index, opcode ≠ .swap index)
    (pops : operands.length = opcode.arity.pops)
    (pushes : results.length = opcode.arity.pushes)
    (folds : ∀ result, opcode.fold? operands = some result → results = [result]) :
    Describes (opcode.applySym ((operands ++ rest).map some)) (results ++ rest) := by
  have taken : ((operands ++ rest).map some).take opcode.arity.pops = operands.map some := by
    rw [List.map_append, List.take_append_of_le_length (by simp [pops]),
      List.take_of_length_le (by simp [pops])]
  have dropped : ((operands ++ rest).map some).drop opcode.arity.pops = rest.map some := by
    rw [List.map_append, List.drop_append_of_le_length (by simp [pops]),
      List.drop_of_length_le (by simp [pops]), List.nil_append]
  unfold Opcode.applySym
  split
  · next index => exact (plain.1 index rfl).elim
  · next index => exact (plain.2 index rfl).elim
  · dsimp only
    rw [taken, dropped, known?_map_some, Option.bind_some]
    unfold Describes
    rw [List.map_append]
    split
    · next result folded =>
        rw [folds result folded]
        exact .refl _
    · refine .append ?_ (.refl _)
      have unknown := Refines.replicate_unknown (results.map some)
      rwa [List.length_map, pushes] at unknown

theorem swap_map_some {depth : Nat} {words swapped : List Word}
    (swaps : Machine.swap? depth words = some swapped) :
    SymStack.swap depth (words.map some) = swapped.map some := by
  cases words with
  | nil => simp [Machine.swap?] at swaps
  | cons top rest =>
      simp only [Machine.swap?] at swaps
      split at swaps
      · next other lookup =>
          cases swaps
          simp [swap, List.getElem?_map, lookup, List.map_set]
      · simp at swaps

end SymStack

/-- Where an instruction that goes on leads its frame, and the stack that it leaves. -/
inductive Opcode.Leads (code : Code) (pc : UInt64) (stack : List Word) :
    Opcode → UInt64 → List Word → Prop where
  | straight {opcode : Opcode} {after : List Word} (straight : opcode.isStraight = true)
      (described : SymStack.Describes (opcode.applySym (stack.map some)) after)
      (replaced : opcode.Replaces stack after) : Leads code pc stack opcode (pc + 1) after
  | push (index : Fin 32) :
      Leads code pc stack (.push index) (pc + UInt64.ofNat (index.val + 2))
        (code.immediate (pc + 1) (index.val + 1) :: stack)
  | jump {destination : Word} {rest : List Word} (operands : stack = destination :: rest)
      (lands : code.isJumpDestination destination = true) :
      Leads code pc stack .jump destination.low64 rest
  | branch {destination condition : Word} {rest : List Word}
      (operands : stack = destination :: condition :: rest) (holds : condition ≠ 0)
      (lands : code.isJumpDestination destination = true) :
      Leads code pc stack .jumpi destination.low64 rest
  | next {destination : Word} {rest : List Word} (operands : stack = destination :: 0 :: rest) :
      Leads code pc stack .jumpi (pc + 1) rest

namespace Opcode.Leads

variable {code : Code} {pc after : UInt64} {stack left : List Word} {opcode : Opcode}

theorem results (straight : opcode.isStraight = true)
    (plain : (∀ index, opcode ≠ .dup index) ∧ ∀ index, opcode ≠ .swap index)
    (operands rest results : List Word) (shape : stack = operands ++ rest)
    (pops : operands.length = opcode.arity.pops) (pushes : results.length = opcode.arity.pushes)
    (folds : ∀ result, opcode.fold? operands = some result → results = [result]) :
    Leads code pc stack opcode (pc + 1) (results ++ rest) := by
  subst shape
  refine .straight straight ?_ (.of_results results pushes ?_)
  · exact SymStack.describes_results operands rest results plain pops pushes folds
  · rw [← pops, List.drop_left]

/-- An instruction that replaces its operands by results that are not computed ahead. -/
theorem replaced (straight : opcode.isStraight = true)
    (plain : (∀ index, opcode ≠ .dup index) ∧ ∀ index, opcode ≠ .swap index)
    (unfolded : opcode.isFoldable = false) (operands rest results : List Word)
    (shape : stack = operands ++ rest) (pops : operands.length = opcode.arity.pops)
    (pushes : results.length = opcode.arity.pushes) :
    Leads code pc stack opcode (pc + 1) (results ++ rest) := by
  refine .results straight plain operands rest results shape pops pushes ?_
  intro result folds
  rw [fold?_eq_none unfolded] at folds
  cases folds

theorem dup {index : Fin 16} (enough : index.val < stack.length) :
    Leads code pc stack (.dup index) (pc + 1) (stack[index.val] :: stack) := by
  refine .straight rfl ?_ (replaces_dup enough _)
  simp only [applySym, List.getElem?_map, List.getElem?_eq_getElem enough, Option.map_some,
    Option.getD_some]
  exact .refl _

theorem swap {index : Fin 16} {top : Word} {rest : List Word}
    (enough : index.val < rest.length) :
    Leads code pc (top :: rest) (.swap index) (pc + 1)
      (rest[index.val] :: rest.set index.val top) := by
  refine .straight rfl ?_ (replaces_swap enough top _)
  have swaps : Machine.swap? (index.val + 1) (top :: rest) =
      some (rest[index.val] :: rest.set index.val top) := by
    simp only [Machine.swap?, Nat.add_sub_cancel, List.getElem?_eq_getElem enough]
  simp only [applySym, SymStack.swap_map_some swaps]
  exact .refl _

theorem replaces (leads : opcode.Leads code pc stack after left) :
    opcode.Replaces stack left := by
  cases leads with
  | straight _ _ replaced => exact replaced
  | push index => exact .of_results [_] rfl rfl
  | jump operands =>
      subst operands
      exact .of_results [] rfl rfl
  | branch operands =>
      subst operands
      exact .of_results [] rfl rfl
  | next operands =>
      subst operands
      exact .of_results [] rfl rfl

theorem lasts (leads : opcode.Leads code pc stack after left) : opcode.isHalt = false := by
  cases leads with
  | straight straight =>
      cases opcode with
      | stop | «return» | revert => cases straight
      | _ => rfl
  | push | jump | branch | next => rfl

end Opcode.Leads

/-! ## Calls -/

/-- The operands of a static call, and what is below them on the stack. -/
structure CallOperands where
  gas : Word
  callee : Word
  inOffset : Word
  inLength : Word
  outOffset : Word
  outLength : Word
  rest : List Word

namespace CallOperands

def stack (operands : CallOperands) : List Word :=
  operands.gas :: operands.callee :: operands.inOffset :: operands.inLength ::
    operands.outOffset :: operands.outLength :: operands.rest

theorem eq_of_stack_eq {operands other : CallOperands} (same : operands.stack = other.stack) :
    operands = other := by
  cases operands
  cases other
  simp only [stack, List.cons.injEq] at same
  obtain ⟨rfl, rfl, rfl, rfl, rfl, rfl, rfl⟩ := same
  rfl

/-- Where the data of the call go. -/
def output (operands : CallOperands) : Region :=
  ⟨operands.outOffset, operands.outLength⟩

/-- Where the data come from that are passed to the callee. -/
def input (operands : CallOperands) : Region :=
  ⟨operands.inOffset, operands.inLength⟩

theorem regions?_eq {operands : CallOperands} {stack : List Word}
    (stack_eq : stack = operands.stack) :
    Opcode.staticcall.regions? stack = some [operands.output, operands.input] :=
  congrArg _ stack_eq

end CallOperands

theorem Opcode.Leads.call (code : Code) (pc : UInt64) (operands : CallOperands) (flag : Word) :
    Leads code pc operands.stack .staticcall (pc + 1) (flag :: operands.rest) :=
  .replaced rfl (by simp) rfl
    [operands.gas, operands.callee, operands.inOffset, operands.inLength, operands.outOffset,
      operands.outLength] operands.rest [flag] rfl rfl rfl

/-- A machine that has taken the operands of a static call. -/
def Machine.taken (machine : Machine σ) (operands : CallOperands) : Machine σ :=
  { machine with frame := { machine.frame with stack := operands.rest } }

/-! ## Faults -/

/-- Whether a circumstance is a question to the chain. A fault that the chain answered
with carries the question as its outermost circumstance. -/
def Context.isQuestion : Context → Bool
  | .code _ | .balance _ | .nonce _ | .storage _ _ | .store _ _ => true
  | _ => false

/-- Whether a question or a write of a chain can fail with a fault. -/
inductive Chain.FailsWith (chain : Chain σ) (fault : Fault) : Prop where
  | answers {question : Question} {state after : σ}
      (asked : chain.ask question state = (.error fault, after)) : FailsWith chain fault
  | writes {writer : ChainWriter σ} {write : Write} {state after : σ}
      (accepts : chain.writer = some writer)
      (written : writer.perform write state = (.error fault, after)) : FailsWith chain fault

/-- The faults that an instruction can meet once its stack, its right to write, its gas and its
memory are checked. -/
inductive Opcode.Meets (chain : Chain σ) (code : Code) (stack : List Word) :
    Opcode → Fault → Prop where
  | answered {opcode : Opcode} {fault : Fault} {question : Context}
      (straight : opcode.isStraight = true) (asked : question.isQuestion = true)
      (failed : chain.FailsWith fault) : Meets chain code stack opcode (fault.within question)
  | nowhere {opcode : Opcode} {destination : Word} {rest : List Word}
      (jumps : opcode = .jump ∨ opcode = .jumpi) (operands : stack = destination :: rest)
      (nowhere : code.isJumpDestination destination = false) :
      Meets chain code stack opcode (.met (.destination destination) .invalidJump)
  | readOnly (refuses : chain.writer = none) :
      Meets chain code stack .sstore (.ofCause .readOnlyState)
  | unsupported (operation : Unsupported) :
      Meets chain code stack (.unsupported operation) (.ofCause (.unsupportedOpcode operation))

/-- How a frame ends that halts, by returning or by reverting. -/
def Ending.ofHalt (reverted : Bool) (data : Bytes) : Ending :=
  if reverted then .reverted data else .returned data

theorem Ending.ofHalt_ne_crashed {reverted : Bool} {data : Bytes} {crash : Crash} :
    Ending.ofHalt reverted data ≠ .crashed crash := by
  cases reverted with
  | true => nofun
  | false => nofun

theorem Ending.ofHalt_ne_failed {reverted : Bool} {data : Bytes} {fault : Fault} :
    Ending.ofHalt reverted data ≠ .failed fault := by
  cases reverted with
  | true => nofun
  | false => nofun

/-! ## Executing an instruction -/

namespace Machine

/-- Whether memory holds every region that an instruction touches. -/
def HoldsFor (machine : Machine σ) (opcode : Opcode) : Prop :=
  ∀ regions, opcode.regions? machine.frame.stack = some regions →
    ∀ region ∈ regions, machine.frame.memory.Holds region

/-- A machine whose frame has gone on, with the logs and the state of the chain that it left. -/
def moved (machine : Machine σ) (pc : UInt64) (stack : List Word) (memory : Memory)
    (logs : List Log) (state : σ) : Machine σ :=
  ⟨{ machine.frame with pc, stack, memory }, machine.callers, { machine.registers with logs },
    state⟩

/-- A machine that has asked its chain some questions. -/
def asked (chain : Chain σ) (machine : Machine σ) (questions : List Question) : Machine σ :=
  { machine with chain := chain.afterAsking questions machine.chain }

section Relations

variable (chain : Chain σ) (config : MachineConfig) (machine : Machine σ)

/-- What an instruction leaves outside of its frame: nothing but the questions that it asked, a
log, or a stored word. -/
inductive Traces : Opcode → List Log → σ → Prop where
  | questions {opcode : Opcode} (questions : List Question) :
      Traces opcode machine.registers.logs (chain.afterAsking questions machine.chain)
  | log {topics : Fin 5} {log : Log} (own : log.address = machine.frame.address) :
      Traces (.log topics) (log :: machine.registers.logs) machine.chain
  | store {writer : ChainWriter σ} (accepts : chain.writer = some writer) (slot value : Word) :
      Traces .sstore machine.registers.logs
        (writer.setStorage machine.frame.address slot value machine.chain).2

/-- What executing an instruction comes to. -/
inductive ComesTo (opcode : Opcode) : Status σ → Prop where
  | goesOn {pc : UInt64} {stack : List Word} {memory : Memory} {logs : List Log} {state : σ}
      (plain : opcode ≠ .staticcall)
      (leads : opcode.Leads machine.frame.code machine.frame.pc machine.frame.stack pc stack)
      (performed : machine.HoldsFor opcode → ∀ after,
        memory = machine.frame.memory.perform (machine.deed chain opcode after))
      (traces : Traces chain machine opcode logs state) :
      ComesTo opcode (.running (machine.moved pc stack memory logs state))
  | calls (operands : CallOperands) (data : Bytes) (isCall : opcode = .staticcall)
      (stack_eq : machine.frame.stack = operands.stack) :
      ComesTo opcode (staticCall chain config (machine.taken operands)
        operands.callee.toAddress data operands.gas.clamp64 operands.output)
  | halts {stack : List Word} (halting : opcode.isHalt = true)
      (replaced : opcode.Replaces machine.frame.stack stack) (reverted : Bool) (data : Bytes) :
      ComesTo opcode (finish config
        { machine with frame := { machine.frame with stack } } (.ofHalt reverted data))
  | fails {fault : Fault} {state : σ}
      (meets : opcode.Meets chain machine.frame.code machine.frame.stack fault)
      (traces : Traces chain machine opcode machine.registers.logs state) :
      ComesTo opcode (fail config { machine with chain := state } fault)
  /-- Memory does not reach as far as it should. -/
  | crashes (tight : ¬ machine.HoldsFor opcode) (questions : List Question) :
      ComesTo opcode (.ended (machine.asked chain questions) (.crashed .memory))

end Relations

namespace ComesTo

variable {chain : Chain σ} {config : MachineConfig} {machine : Machine σ} {opcode : Opcode}

/-- An instruction that writes nothing to memory goes on, with nothing left but questions. -/
theorem keeps (questions : List Question) (quiet : opcode.writesMemory = false)
    {pc : UInt64} {stack : List Word}
    (leads : opcode.Leads machine.frame.code machine.frame.pc machine.frame.stack pc stack) :
    ComesTo chain config machine opcode ((machine.asked chain questions).goto stack pc) := by
  refine .goesOn ?_ leads (fun _ after => ?_) (.questions questions)
  · rintro rfl
    cases quiet
  · rw [Memory.perform, written_of_quiet chain quiet]
    rfl

theorem store (questions : List Question) (plain : opcode ≠ .staticcall) {stack : List Word}
    (leads : opcode.Leads machine.frame.code machine.frame.pc machine.frame.stack
      (machine.frame.pc + 1) stack) {offset size : Nat} {data : Bytes}
    (covers : machine.HoldsFor opcode → machine.frame.memory.Covers offset size)
    (performed : machine.HoldsFor opcode → ∀ after, machine.frame.memory.write offset size data =
      machine.frame.memory.perform (machine.deed chain opcode after)) :
    ComesTo chain config machine opcode
      ((machine.asked chain questions).store stack offset size data) := by
  unfold Machine.store
  split
  · exact .goesOn plain leads performed (.questions questions)
  · next outside => exact .crashes (fun wide => outside (covers wide)) questions

theorem load {offset length : Word}
    (holds : machine.HoldsFor opcode → machine.frame.memory.Holds ⟨offset, length⟩)
    {use : Bytes → Status σ} (used : ∀ data, ComesTo chain config machine opcode (use data)) :
    ComesTo chain config machine opcode (machine.load offset length use) := by
  unfold Machine.load
  split
  · next missing =>
      refine .crashes (fun wide => ?_) []
      obtain ⟨data, found⟩ := (holds wide).exists_readWords?
      rw [found] at missing
      cases missing
  · exact used _

/-- An instruction that asks a question, after others that it asked before. -/
theorem ask (questions : List Question) (question : Question) {context : Context}
    {use : question.Answer → Machine σ → Status σ} (straight : opcode.isStraight = true)
    (asks : context.isQuestion = true)
    (used : ∀ answer,
      (chain.ask question (chain.afterAsking questions machine.chain)).1 = .ok answer →
      ComesTo chain config machine opcode
        (use answer (machine.asked chain (questions ++ [question])))) :
    ComesTo chain config machine opcode
      ((machine.asked chain questions).ask config (chain.ask question) context use) := by
  have later : chain.afterAsking (questions ++ [question]) machine.chain =
      (chain.ask question (chain.afterAsking questions machine.chain)).2 := by
    simp [Chain.afterAsking]
  unfold Machine.asked at used
  rw [later] at used
  rcases answered : chain.ask question (chain.afterAsking questions machine.chain) with
    ⟨fault | answer, after⟩
  · have traces : Traces chain machine opcode machine.registers.logs
        (chain.afterAsking (questions ++ [question]) machine.chain) :=
      .questions _
    rw [later, answered] at traces
    simp only [Machine.ask, Machine.asked, answered]
    exact .fails (.answered straight asks (.answers answered)) traces
  · rw [answered] at used
    simp only [Machine.ask, Machine.asked, answered]
    exact used answer rfl

theorem write {writer : ChainWriter σ} (accepts : chain.writer = some writer) {slot value : Word}
    {rest : List Word} {context : Context} (asks : context.isQuestion = true)
    (shape : machine.frame.stack = slot :: value :: rest) :
    ComesTo chain config machine .sstore
      (machine.ask config (writer.setStorage machine.frame.address slot value) context
        fun _ after => after.next rest) := by
  have traces : Traces chain machine .sstore machine.registers.logs
      (writer.setStorage machine.frame.address slot value machine.chain).2 :=
    .store accepts slot value
  rcases written : writer.setStorage machine.frame.address slot value machine.chain with
    ⟨fault | _, after⟩
  · rw [written] at traces
    have failed : writer.perform (.storage machine.frame.address slot value) machine.chain =
        (.error fault, after) :=
      written
    simp only [Machine.ask, written]
    exact .fails (.answered rfl asks (.writes accepts failed)) traces
  · rw [written] at traces
    simp only [Machine.ask, written]
    refine .goesOn (by simp) ?_ (fun _ _ => rfl) traces
    exact .replaced rfl (by simp) rfl [slot, value] rest [] shape rfl rfl

end ComesTo

/-- Executing an instruction whose operands are on the stack. -/
theorem execute_comesTo (chain : Chain σ) (environment : Environment) (machine : Machine σ)
    {opcode : Opcode} (enough : opcode.arity.pops ≤ machine.frame.stack.length) :
    ComesTo chain environment.config machine opcode
      (execute chain environment machine opcode) := by
  obtain ⟨⟨caller, address, code, input, value, gas, pc, stack, memory⟩, callers, registers,
    state⟩ := machine
  dsimp only at enough
  -- A stack without the operands contradicts `enough`.
  cases opcode with
  | stop => exact .halts rfl (.of_results [] rfl rfl) false ByteArray.empty
  | unsupported operation => exact .fails (.unsupported operation) (.questions [])
  | jumpdest => exact .keeps [] rfl (.replaced rfl (by simp) rfl [] stack [] rfl rfl rfl)
  | reading => exact .keeps [] rfl (.replaced rfl (by simp) rfl [] stack [_] rfl rfl rfl)
  | push index => exact .keeps [] rfl (.push index)
  | unary operation =>
      cases stack with
      | nil => cases enough
      | cons first rest =>
          exact .keeps [] rfl
            (.results rfl (by simp) [first] rest [_] rfl rfl rfl (by simp [Opcode.fold?]))
  | binary operation =>
      rcases stack with _ | ⟨first, _ | ⟨second, rest⟩⟩
      case cons.cons =>
        exact .keeps [] rfl
          (.results rfl (by simp) [first, second] rest [_] rfl rfl rfl (by simp [Opcode.fold?]))
      all_goals simp [Opcode.arity] at enough
  | ternary operation =>
      rcases stack with _ | ⟨first, _ | ⟨second, _ | ⟨third, rest⟩⟩⟩
      case cons.cons.cons =>
        exact .keeps [] rfl
          (.results rfl (by simp) [first, second, third] rest [_] rfl rfl rfl
            (by simp [Opcode.fold?]))
      all_goals simp [Opcode.arity] at enough
  | calldataload =>
      cases stack with
      | nil => cases enough
      | cons offset rest =>
          exact .keeps [] rfl (.replaced rfl (by simp) rfl [offset] rest [_] rfl rfl rfl)
  | pop =>
      cases stack with
      | nil => cases enough
      | cons word rest =>
          exact .keeps [] rfl (.replaced rfl (by simp) rfl [word] rest [] rfl rfl rfl)
  | sha3 =>
      rcases stack with _ | ⟨offset, _ | ⟨length, rest⟩⟩
      case cons.cons =>
        apply ComesTo.load
        · intro wide
          exact wide _ rfl _ (.head _)
        · intro data
          exact .keeps [] rfl (.replaced rfl (by simp) rfl [offset, length] rest [_] rfl rfl rfl)
      all_goals simp [Opcode.arity] at enough
  | mload =>
      cases stack with
      | nil => cases enough
      | cons offset rest =>
          apply ComesTo.load
          · intro wide
            exact wide _ rfl _ (.head _)
          · intro data
            exact .keeps [] rfl (.replaced rfl (by simp) rfl [offset] rest [_] rfl rfl rfl)
  | copy source =>
      rcases stack with _ | ⟨offset, _ | ⟨dataOffset, _ | ⟨length, rest⟩⟩⟩
      case cons.cons.cons =>
        refine .store [] (by simp)
          (.replaced rfl (by simp) rfl [offset, dataOffset, length] rest [] rfl rfl rfl) ?_ ?_
        · intro wide
          exact (wide _ rfl _ (.head _)).covers
        · intro wide _
          exact (wide _ rfl _ (.head _)).copy_eq_perform _ _
      all_goals simp [Opcode.arity] at enough
  | mstore =>
      rcases stack with _ | ⟨offset, _ | ⟨word, rest⟩⟩
      case cons.cons =>
        refine .store [] (by simp)
          (.replaced rfl (by simp) rfl [offset, word] rest [] rfl rfl rfl) ?_ ?_
        · intro wide
          exact (wide _ rfl _ (.head _)).covers
        · intro wide _
          rw [← word.size_toBytes]
          exact (wide _ rfl _ (.head _)).write_eq_perform word.size_toBytes
      all_goals simp [Opcode.arity] at enough
  | mstore8 =>
      rcases stack with _ | ⟨offset, _ | ⟨word, rest⟩⟩
      case cons.cons =>
        have one : (Bytes.ofList [word.low64.toUInt8]).size = 1 := rfl
        refine .store [] (by simp)
          (.replaced rfl (by simp) rfl [offset, word] rest [] rfl rfl rfl) ?_ ?_
        · intro wide
          exact (wide _ rfl _ (.head _)).covers
        · intro wide _
          exact (wide _ rfl _ (.head _)).write_eq_perform one
      all_goals simp [Opcode.arity] at enough
  | balance =>
      cases stack with
      | nil => cases enough
      | cons word rest =>
          simp only [execute]
          refine .ask [] (.balance word.toAddress) rfl rfl fun balance _ => ?_
          exact .keeps _ rfl (.replaced rfl (by simp) rfl [word] rest [_] rfl rfl rfl)
  | extcodesize =>
      cases stack with
      | nil => cases enough
      | cons word rest =>
          simp only [execute]
          refine .ask [] (.code word.toAddress) rfl rfl fun code _ => ?_
          exact .keeps _ rfl (.replaced rfl (by simp) rfl [word] rest [_] rfl rfl rfl)
  | extcodecopy =>
      rcases stack with _ | ⟨word, _ | ⟨offset, _ | ⟨dataOffset, _ | ⟨length, rest⟩⟩⟩⟩
      case cons.cons.cons.cons =>
        simp only [execute]
        refine .ask [] (.code word.toAddress) rfl rfl fun code answered => ?_
        refine .store _ (by simp)
          (.replaced rfl (by simp) rfl [word, offset, dataOffset, length] rest [] rfl rfl rfl)
          ?_ ?_
        · intro wide
          exact (wide _ rfl _ (.head _)).covers
        · intro wide _
          have answered : (chain.code word.toAddress state).1 = .ok code := answered
          simp only [deed, answered]
          exact (wide _ rfl _ (.head _)).copy_eq_perform _ _
      all_goals simp [Opcode.arity] at enough
  | extcodehash =>
      cases stack with
      | nil => cases enough
      | cons word rest =>
          simp only [execute, codeHash]
          refine .ask [] (.code word.toAddress) rfl rfl fun code _ => ?_
          split
          · exact .keeps _ rfl (.replaced rfl (by simp) rfl [word] rest [_] rfl rfl rfl)
          · refine .ask _ (.nonce word.toAddress) rfl rfl fun nonce _ => ?_
            refine .ask _ (.balance word.toAddress) rfl rfl fun balance _ => ?_
            split
            · exact .keeps _ rfl (.replaced rfl (by simp) rfl [word] rest [_] rfl rfl rfl)
            · exact .keeps _ rfl (.replaced rfl (by simp) rfl [word] rest [_] rfl rfl rfl)
  | sload =>
      cases stack with
      | nil => cases enough
      | cons slot rest =>
          simp only [execute]
          refine .ask [] (.storage address slot) rfl rfl fun value _ => ?_
          exact .keeps _ rfl (.replaced rfl (by simp) rfl [slot] rest [_] rfl rfl rfl)
  | sstore =>
      rcases stack with _ | ⟨slot, _ | ⟨word, rest⟩⟩
      case cons.cons =>
        simp only [execute]
        cases accepts : chain.writer with
        | none => exact .fails (.readOnly accepts) (.questions [])
        | some writer =>
            exact .write accepts rfl rfl
      all_goals simp [Opcode.arity] at enough
  | jump =>
      cases stack with
      | nil => cases enough
      | cons destination rest =>
          simp only [execute]
          split
          · next lands => exact .keeps [] rfl (.jump rfl lands)
          · next nowhere =>
              exact .fails (.nowhere (.inl rfl) rfl (by simpa using nowhere)) (.questions [])
  | jumpi =>
      rcases stack with _ | ⟨destination, _ | ⟨condition, rest⟩⟩
      case cons.cons =>
        simp only [execute]
        split
        · next fails =>
            subst fails
            exact .keeps [] rfl (.next rfl)
        · next holds =>
            split
            · next lands => exact .keeps [] rfl (.branch rfl holds lands)
            · next nowhere =>
                exact .fails (.nowhere (.inr rfl) rfl (by simpa using nowhere)) (.questions [])
      all_goals simp [Opcode.arity] at enough
  | dup index =>
      have inside : index.val < stack.length := enough
      simp only [execute, List.getElem?_eq_getElem inside]
      exact .keeps [] rfl (.dup inside)
  | swap index =>
      cases stack with
      | nil => cases enough
      | cons top rest =>
          have inside : index.val < rest.length := Nat.le_of_succ_le_succ enough
          simp only [execute, swap?, Nat.add_sub_cancel, List.getElem?_eq_getElem inside]
          exact .keeps [] rfl (.swap inside)
  | log topics =>
      rcases stack with _ | ⟨offset, _ | ⟨length, rest⟩⟩
      case cons.cons =>
        have topped : topics.val ≤ rest.length :=
          Nat.le_of_succ_le_succ (Nat.le_of_succ_le_succ enough)
        simp only [execute, if_neg (Nat.not_lt.mpr topped)]
        apply ComesTo.load
        · intro wide
          exact wide _ rfl _ (.head _)
        · intro data
          refine .goesOn (by simp) ?_ (fun _ _ => rfl) (.log rfl)
          refine .replaced rfl (by simp) rfl (offset :: length :: rest.take topics.val)
            (rest.drop topics.val) [] ?_ ?_ rfl
          · simp
          · simp [Opcode.arity, topped]
      all_goals simp [Opcode.arity] at enough
  | staticcall =>
      rcases stack with _ | ⟨callGas, _ | ⟨callee, _ | ⟨inOffset, _ | ⟨inLength, _ |
        ⟨outOffset, _ | ⟨outLength, rest⟩⟩⟩⟩⟩⟩
      case cons.cons.cons.cons.cons.cons =>
        apply ComesTo.load
        · intro wide
          exact wide _ rfl _ (.tail _ (.head _))
        · intro data
          let operands : CallOperands :=
            ⟨callGas, callee, inOffset, inLength, outOffset, outLength, rest⟩
          exact .calls operands data rfl rfl
      all_goals simp [Opcode.arity] at enough
  | «return» =>
      rcases stack with _ | ⟨offset, _ | ⟨length, rest⟩⟩
      case cons.cons =>
        apply ComesTo.load
        · intro wide
          exact wide _ rfl _ (.head _)
        · exact .halts rfl (.of_results [] rfl rfl) false
      all_goals simp [Opcode.arity] at enough
  | revert =>
      rcases stack with _ | ⟨offset, _ | ⟨length, rest⟩⟩
      case cons.cons =>
        apply ComesTo.load
        · intro wide
          exact wide _ rfl _ (.head _)
        · exact .halts rfl (.of_results [] rfl rfl) true
      all_goals simp [Opcode.arity] at enough

end Machine

end EvmAtlas
