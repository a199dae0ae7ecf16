import EvmAtlas.Proofs.Lockstep
import EvmAtlas.Proofs.Retention

/-!
# Isolation of static calls

The frame of a static call shares its machine with the frames that wait for it, but it cannot
tell that they are there. `Mirrors` relates a machine inside a static call to a machine that
runs the same call on its own: the frames above the static call wait in both, only that the
first of them has to impose the restriction to reading where the call is on its own, and all
of them are less deep by the depth of the caller. The chains may be in different states, as
long as they have only been read and give the same answers.
-/

namespace EvmAtlas

variable {σ : Type}

namespace Chain

/-- The states that a chain can come to by being read. -/
inductive Reads (chain : Chain σ) (base : σ) : σ → Prop where
  | nothing : Reads chain base base
  | block {state : σ} (before : Reads chain base state) : Reads chain base (chain.block state).2
  | nonce {state : σ} (before : Reads chain base state) (address : Address) :
      Reads chain base (chain.nonce address state).2
  | balance {state : σ} (before : Reads chain base state) (address : Address) :
      Reads chain base (chain.balance address state).2
  | code {state : σ} (before : Reads chain base state) (address : Address) :
      Reads chain base (chain.code address state).2
  | storage {state : σ} (before : Reads chain base state) (address : Address) (slot : Word) :
      Reads chain base (chain.storage address slot state).2

/-- Whether a chain gives the same answers for as long as it is only read. -/
def Steady (chain : Chain σ) (base : σ) : Prop :=
  ∀ later, chain.Reads base later → chain.answers later = chain.answers base

theorem Keeps.steady {chain : Chain σ} (keeps : chain.Keeps) (base : σ) : chain.Steady base := by
  intro later reads
  induction reads with
  | nothing => rfl
  | block before ih => exact (keeps.block _).trans ih
  | nonce before address ih => exact (keeps.nonce address _).trans ih
  | balance before address ih => exact (keeps.balance address _).trans ih
  | code before address ih => exact (keeps.code address _).trans ih
  | storage before address slot ih => exact (keeps.storage address slot _).trans ih

end Chain

/-- The frames above a static call that wait in a machine, and in one that runs the call on its
own. The frame at the bottom is not read-only there, and no frame above the call lifts the
restriction here. -/
inductive Above (floor : List Suspended) :
    Bool → List Suspended → List Suspended → Prop where
  | outermost : Above floor false floor []
  | waiting {readOnly : Bool} {waiting : Suspended} {callers others : List Suspended}
      (keeps : waiting.liftsReadOnly = false) (rest : Above floor readOnly callers others) :
      Above floor true (waiting :: callers)
        ({ waiting with liftsReadOnly := !readOnly } :: others)

theorem Above.length_eq {floor callers others : List Suspended} {readOnly : Bool}
    (above : Above floor readOnly callers others) :
    callers.length = floor.length + others.length := by
  induction above with
  | outermost => rfl
  | waiting keeps rest ih => rw [List.length_cons, List.length_cons, ih, Nat.add_assoc]

/-- Limits for a machine that has fewer frames to begin with. -/
def MachineConfig.shallower (config : MachineConfig) (depth : Nat) : MachineConfig :=
  { config with maxCallDepth := config.maxCallDepth - depth }

/-- The same environment with such limits. -/
def Environment.shallower (environment : Environment) (depth : Nat) : Environment :=
  { environment with config := environment.config.shallower depth }

namespace Machine

section Mirrors

-- The chain, its state before the static call, the caller and the frames that wait for it,
-- and the depth of the caller.
variable (chain : Chain σ) (base : σ) (floor : List Suspended) (depth : Nat)

/-- A machine inside a static call, and one that runs the call on its own and keeps a record of
its writes. -/
structure Mirrors (machine : Machine σ) (twin : Machine (σ × List Write)) : Prop where
  frame_eq : twin.frame = machine.frame
  returnData_eq : twin.registers.returnData = machine.registers.returnData
  readOnly_eq : machine.registers.readOnly = true
  depth_eq : machine.registers.depth = twin.callers.length + 1 + depth
  twinDepth_eq : twin.registers.depth = twin.callers.length + 1
  above : Above floor twin.registers.readOnly machine.callers twin.callers
  logs_eq : twin.registers.logs = []
  unwritten : twin.chain.2 = []
  reads : chain.Reads base machine.chain
  twinReads : chain.Reads base twin.chain.1

/-- Statuses of which the second one follows the first one for as long as that is inside the
static call. -/
def Follows (status : Status σ) (twin : Status (σ × List Write)) : Prop :=
  ∀ inner, status = .running inner → floor.length ≤ inner.callers.length →
    ∃ other, twin = .running other ∧ Mirrors chain base floor depth inner other

end Mirrors

variable {chain : Chain σ} {base : σ} {floor : List Suspended} {depth : Nat}
variable {machine : Machine σ} {twin : Machine (σ × List Write)}
variable {config : MachineConfig} {environment : Environment}

theorem Follows.of_ended {final : Machine σ} {ending : Ending}
    {status : Status (σ × List Write)} :
    Follows chain base floor depth (.ended final ending) status := by
  intro inner running
  cases running

theorem Follows.of_failedOutright {status : Status σ} {twin : Status (σ × List Write)}
    (failed : status.FailedOutright) : Follows chain base floor depth status twin := by
  obtain ⟨final, fault, rfl, -⟩ := failed
  exact .of_ended

namespace Mirrors

theorem exists_twin_eq (mirrors : Mirrors chain base floor depth machine twin) :
    ∃ callers registers state, twin = ⟨machine.frame, callers, registers, state⟩ := by
  obtain ⟨frame, callers, registers, state⟩ := twin
  exact ⟨callers, registers, state, congrArg (Machine.mk · callers registers state)
    mirrors.frame_eq⟩

theorem goesOn (mirrors : Mirrors chain base floor depth machine twin) :
    Follows chain base floor depth (.running machine) (.running twin) := by
  intro inner running _
  cases running
  exact ⟨twin, rfl, mirrors⟩

/-- A question to the chain has one answer in all states that it can come to. -/
theorem answers {α : Type} (access : Access σ α)
    (steady : ∀ later, chain.Reads base later → (access later).1 = (access base).1)
    (stays : ∀ later, chain.Reads base later → chain.Reads base (access later).2) :
    AnswersBoth (Mirrors chain base floor depth) access (access.noting []) := by
  intro machine twin mirrors
  refine ⟨(access base).1, (access machine.chain).2, ((access twin.chain.1).2, []), ?_, ?_,
    { mirrors with unwritten := rfl
                   reads := stays _ mirrors.reads
                   twinReads := stays _ mirrors.twinReads }⟩
  · rw [← steady _ mirrors.reads]
  · rw [← steady _ mirrors.twinReads, Access.noting, mirrors.unwritten]
    rfl

theorem resume (mirrors : Mirrors chain base floor depth machine twin) (output : Region)
    (flag : Word) (data : Bytes) :
    Follows chain base floor depth (machine.resume output flag data)
      (twin.resume output flag data) := by
  have given := mirrors
  obtain ⟨callers, registers, state, rfl⟩ := mirrors.exists_twin_eq
  unfold Machine.resume
  dsimp only
  split
  · exact goesOn { given with frame_eq := rfl, returnData_eq := rfl }
  · exact .of_ended

/-- Once a frame above the static call has ended, the frame that waited for it runs in both
machines. -/
theorem back {waiting : Suspended} {callers others : List Suspended} {readOnly : Bool}
    (mirrors : Mirrors chain base floor depth machine twin)
    (others_eq : twin.callers = { waiting with liftsReadOnly := !readOnly } :: others)
    (restricted : twin.registers.readOnly = true) (keeps : waiting.liftsReadOnly = false)
    (rest : Above floor readOnly callers others) :
    Mirrors chain base floor depth (machine.back config waiting callers)
      (twin.back (config.shallower depth) { waiting with liftsReadOnly := !readOnly }
        others) := by
  have depth_eq := mirrors.depth_eq
  have twinDepth_eq := mirrors.twinDepth_eq
  rw [others_eq, List.length_cons] at depth_eq twinDepth_eq
  refine { mirrors with frame_eq := ?_, readOnly_eq := ?_, depth_eq := ?_, twinDepth_eq := ?_,
                        above := ?_ }
  · rw [Machine.back, Machine.back, mirrors.frame_eq]
    rfl
  · rw [Machine.back, Registers.leave, mirrors.readOnly_eq, keeps]
    rfl
  · change machine.registers.depth - 1 = others.length + 1 + depth
    omega
  · change twin.registers.depth - 1 = others.length + 1
    omega
  · rw [Machine.back, Machine.back, Registers.leave, restricted, Bool.true_and, Bool.not_not]
    exact rest

theorem finish (mirrors : Mirrors chain base floor depth machine twin) (ending : Ending) :
    Follows chain base floor depth (machine.finish config ending)
      (twin.finish (config.shallower depth) ending) := by
  have above := mirrors.above
  unfold Machine.finish
  generalize callers_eq : machine.callers = callers at above
  generalize others_eq : twin.callers = others at above
  generalize restricted : twin.registers.readOnly = readOnly at above
  cases above with
  | outermost =>
      -- The frame of the static call itself has ended, which leads out of the call.
      intro inner unwound inside
      obtain ⟨suspended, flag, suffix, -⟩ := unwind_eq_running unwound
      have shorter := suffix.length_le
      rw [List.length_cons] at shorter
      omega
  | @waiting readOnly waiting callers others keeps rest =>
      have back : Mirrors chain base floor depth (machine.back config waiting callers) _ :=
        mirrors.back others_eq restricted keeps rest
      apply unwind_together
      · intro flag data
        exact back.resume _ flag data
      · intro fault passes
        apply Follows.of_failedOutright
        apply fail_failedOutright config (machine.back config waiting callers)
        exact passes
      · intro crash
        exact .of_ended

/-- A static call from inside a static call restricts nothing further, where the machine that
runs the call on its own may have to. -/
theorem enter (mirrors : Mirrors chain base floor depth machine twin) (callee : Address)
    (code input : Bytes) (gas : UInt64) (output : Region) :
    Follows chain base floor depth (machine.enter config callee code input gas output)
      (twin.enter (config.shallower depth) callee code input gas output) := by
  have opened : Mirrors chain base floor depth (machine.opened callee code input gas output)
      (twin.opened callee code input gas output) := by
    have given := mirrors
    obtain ⟨callers, registers, state, rfl⟩ := mirrors.exists_twin_eq
    refine { given with frame_eq := rfl, returnData_eq := rfl, readOnly_eq := rfl,
                        depth_eq := ?_, twinDepth_eq := ?_, above := ?_ }
    · have depth_eq : machine.registers.depth = callers.length + 1 + depth := given.depth_eq
      change machine.registers.depth + 1 = callers.length + 1 + 1 + depth
      omega
    · exact congrArg (· + 1) given.twinDepth_eq
    · refine .waiting ?_ given.above
      rw [given.readOnly_eq]
      rfl
  apply enter_together
  · exact opened.finish _
  · exact opened.goesOn

theorem staticCall (steady : chain.Steady base)
    (mirrors : Mirrors chain base floor depth machine twin) (callee : Address) (input : Bytes)
    (requested : UInt64) (output : Region) :
    Follows chain base floor depth
      (staticCall chain config machine callee input requested output)
      (staticCall chain.recorded (config.shallower depth) twin callee input requested
        output) := by
  have refused : (twin.registers.depth : Int) ≥ (config.shallower depth).maxCallDepth ↔
      (machine.registers.depth : Int) ≥ config.maxCallDepth := by
    rw [mirrors.depth_eq, mirrors.twinDepth_eq]
    change ((twin.callers.length + 1 : Nat) : Int) ≥ config.maxCallDepth - depth ↔ _
    omega
  have gas_eq : twin.frame.gas = machine.frame.gas := congrArg Frame.gas mirrors.frame_eq
  obtain ⟨answer, state, other, asked, twinAsked, after⟩ :=
    answers (chain.code callee)
      (fun later reads => congrFun (congrArg Answers.code (steady later reads)) callee)
      (fun later reads => reads.code callee) mirrors
  have twinAsked : chain.recorded.code callee twin.chain = (answer, other) := twinAsked
  unfold Machine.staticCall
  rw [asked, twinAsked, if_congr refused rfl rfl]
  dsimp only
  split
  · exact mirrors.resume _ _ _
  · cases answer with
    | error fault =>
        dsimp only
        split
        · exact after.resume _ _ _
        · exact after.finish _
    | ok code =>
        rw [gas_eq]
        exact after.enter callee code input _ output

end Mirrors

/-- Instructions cannot tell a static call from a call, as long as nothing is written. -/
theorem mirrors_coupling (steady : chain.Steady base) :
    Coupling chain chain.recorded config (config.shallower depth)
      (Mirrors chain base floor depth) (Follows chain base floor depth) where
  memoryLimit_eq := rfl
  frame_eq := by
    intro machine twin mirrors
    rw [mirrors.frame_eq]
  returnData_eq := Mirrors.returnData_eq
  moves := by
    intro machine twin mirrors stack pc memory
    refine { mirrors with frame_eq := ?_ }
    rw [place, place, mirrors.frame_eq]
  goesOn := Mirrors.goesOn
  ends := Mirrors.finish
  crashes := fun _ _ => .of_ended
  nonce := fun address => Mirrors.answers _
    (fun later reads => congrFun (congrArg Answers.nonce (steady later reads)) address)
    (fun later reads => reads.nonce address)
  balance := fun address => Mirrors.answers _
    (fun later reads => congrFun (congrArg Answers.balance (steady later reads)) address)
    (fun later reads => reads.balance address)
  code := fun address => Mirrors.answers _
    (fun later reads => congrFun (congrArg Answers.code (steady later reads)) address)
    (fun later reads => reads.code address)
  storage := fun address slot => Mirrors.answers _
    (fun later reads =>
      congrFun (congrFun (congrArg Answers.storage (steady later reads)) address) slot)
    (fun later reads => reads.storage address slot)
  calls := fun mirrors => mirrors.staticCall steady

/-- The instruction that a machine inside a static call executes is one that the other machine
executes as well, and it does not write. -/
theorem Mirrors.admits (mirrors : Mirrors chain base floor depth machine twin)
    {opcode : Opcode} {charged : Frame}
    (admits : Admits environment.config machine opcode charged) :
    opcode.writes = false ∧
      Admits (environment.shallower depth).config twin opcode charged := by
  have reads : opcode.writes = false := by
    have allowed := admits.allowed
    rwa [mirrors.readOnly_eq, Bool.true_and] at allowed
  obtain ⟨callers, registers, state, rfl⟩ := mirrors.exists_twin_eq
  exact ⟨reads, admits.fetched, admits.fits, by rw [reads, Bool.and_false], admits.paid⟩

theorem step_follows (steady : chain.Steady base)
    (mirrors : Mirrors chain base floor depth machine twin) :
    Follows chain base floor depth (machine.step chain environment)
      (twin.step chain.recorded (environment.shallower depth)) := by
  rcases exists_admits chain environment machine with failed | ⟨opcode, charged, admits⟩
  · exact .of_failedOutright failed
  · obtain ⟨reads, twinAdmits⟩ := mirrors.admits admits
    rw [admits.step_eq, twinAdmits.step_eq]
    apply (mirrors_coupling steady).expand
    · exact { mirrors with frame_eq := rfl }
    · intro writes
      rw [reads] at writes
      cases writes
    · intro _
      rfl

end Machine

end EvmAtlas
