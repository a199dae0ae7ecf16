import Mathlib.Algebra.BigOperators.Group.Finset.Piecewise
import Mathlib.Algebra.Order.BigOperators.Group.Finset
import EvmAtlas.Proofs.Coverage

/-!
# Recovery ends

A recovery queues only finitely many visits. Its positions lie inside the code or right
behind it, and its stacks stay below the limit. A position under the skip policy is queued
once. Under the merge policy the `weight` of a site grows with every visit that is queued
for it: a stack that is told apart adds one, a first join adds one, and a join that changes
forgets at least one more cell. The weight is bounded by the limit on stacks and by the
number of cells that joins can forget, so the step bound of a recovery is never reached.
-/

namespace EvmAtlas

/-! ## Positions -/

namespace Block

variable {code : Code} {start pc next : UInt64}

theorem next?_le_size (goesOn : (decodeInstruction code start pc).1.next? = some next) :
    next.toNat ≤ code.size := by
  rcases decodeInstruction_next? goesOn with ⟨fetched, rfl⟩ | ⟨fetched, rfl⟩
  · have inside := Code.lt_size_of_ofByte?_ne_stop (by rw [fetched]; simp)
    exact (toNat_add_one_le _).trans inside
  · exact (Code.lt_size_of_ofByte?_ne_stop (by rw [fetched]; simp)).le

theorem next?_decodeFrom_le_size {steps : Nat}
    (goesOn : (decodeFrom code start steps pc).2.1.next? = some next) :
    next.toNat ≤ code.size := by
  induction steps generalizing pc with
  | zero => simp [decodeFrom, Instruction.next?] at goesOn
  | succ steps ih =>
      simp only [decodeFrom] at goesOn
      split at goesOn
      · exact next?_le_size goesOn
      · exact ih goesOn

end Block

namespace Recovery

variable {code : Code} {config : RecoveryConfig} {visited : List Visit}
variable {pending : List Successor} {recovery next : Recovery} {successor : Successor}
variable {pc : UInt64}

namespace Stage

theorem toNat_le_size (stage : Stage code config visited pending recovery) :
    (∀ (pc : UInt64) (site : Site), recovery.sites[pc]? = some site → pc.toNat ≤ code.size) ∧
      ∀ successor ∈ pending, successor.jumped = false → successor.pc.toNat ≤ code.size := by
  induction stage with
  | start =>
      refine ⟨by simp [Recovery.start], ?_⟩
      intro successor member _
      rw [List.mem_singleton] at member
      rw [member]
      exact Nat.zero_le _
  | take before _ known transferred ih =>
      refine ⟨?_, ?_⟩
      · intro pc found recorded
        obtain ⟨old, oldKnown, _⟩ := known_of_recorded known recorded
        exact ih.1 pc old oldKnown
      · intro successor member straight
        have outcome := before.transfer_decode known transferred
        obtain ⟨_, _, leaves⟩ := Block.transfer_outcome_eq_ok_iff.mp outcome
        exact Block.next?_decodeFrom_le_size (leaves.next?_of_not_jumped member straight)
  | @reach _ successor _ _ _ before reached ih =>
      obtain ⟨lands, admits⟩ := before.reach_cases reached
      refine ⟨?_, fun other member => ih.2 other (.tail _ member)⟩
      intro pc site known
      rcases admits.known_or_new known with ⟨old, oldKnown, _⟩ | ⟨rfl, _, _⟩
      · exact ih.1 pc old oldKnown
      · cases jumped : successor.jumped with
        | false => exact ih.2 successor (.head _) jumped
        | true => exact ((Code.isCode_iff _).mp (lands jumped).1).1.le

theorem length_le (stage : Stage code config visited pending recovery) :
    (∀ visit ∈ visited ++ recovery.queue, visit.stack.length ≤ stackLimit) ∧
      ∀ successor ∈ pending, successor.stack.length ≤ stackLimit := by
  have low := stage.carries (fun _ stack => stack.length ≤ stackLimit) (Nat.zero_le _)
    (fun visit successor low => by
      rintro ⟨successors, transferred, member⟩
      exact Block.length_le_of_transfer low transferred member)
    (fun pc stack queued refines _ low => by rwa [← refines.length_eq])
  refine ⟨?_, low.2.2⟩
  intro visit member
  rcases List.mem_append.mp member with member | member
  · exact low.1 visit member
  · exact low.2.1 visit member

end Stage

end Recovery

/-! ## Weights -/

namespace Site

variable {config : RecoveryConfig} {site grown : Site} {stack queued : SymStack}

/-- What the join of one height counts for: itself and the cells it has forgotten. -/
def joinWeight (site : Site) (height : Nat) : Nat :=
  (site.joined[height]?).elim 0 fun joined => joined.unknowns + 1

/-- How often a site can have been queued. -/
def weight (site : Site) : Nat :=
  site.contexts.length + ∑ height ∈ Finset.range (stackLimit + 1), site.joinWeight height

theorem joinWeight_le (filed : site.WellFiled) (height : Nat) :
    site.joinWeight height ≤ height + 1 := by
  unfold joinWeight
  cases lookup : site.joined[height]? with
  | none => exact Nat.zero_le _
  | some joined =>
      have forgotten := joined.unknowns_le_length
      rw [filed height joined lookup] at forgotten
      exact Nat.succ_le_succ forgotten

/-- Filing a heavier join makes a site heavier. -/
theorem weight_lt_of_insert {joined : SymStack} (low : stack.length ≤ stackLimit)
    (heavier : site.joinWeight stack.length < joined.unknowns + 1) :
    site.weight < weight { site with joined := site.joined.insert stack.length joined } := by
  have inserted (height : Nat) :
      joinWeight { site with joined := site.joined.insert stack.length joined } height =
        if stack.length = height then joined.unknowns + 1 else site.joinWeight height := by
    simp only [joinWeight, Std.TreeMap.getElem?_insert, compare_eq_iff_eq]
    split <;> rfl
  apply Nat.add_lt_add_left
  refine Finset.sum_lt_sum ?_ ⟨stack.length, Finset.mem_range.mpr (by omega), ?_⟩
  · intro height _
    rw [inserted]
    split
    · next here => exact here ▸ heavier.le
    · exact Nat.le_refl _
  · rw [inserted, if_pos rfl]
    exact heavier

/-- A site grows heavier with every stack that it is queued with. -/
theorem Grows.weight_lt (filed : site.WellFiled) (low : stack.length ≤ stackLimit)
    (grows : site.Grows config stack grown queued) : site.weight < grown.weight := by
  cases grows with
  | told => exact Nat.add_lt_add_right (Nat.lt_succ_self _) _
  | joined _ first =>
      apply weight_lt_of_insert low
      simp [joinWeight, first]
  | @widened old _ lookup different =>
      apply weight_lt_of_insert low
      have above : old.Refines (old.join stack) :=
        SymStack.refines_join_left (filed _ _ lookup)
      simpa [joinWeight, lookup] using above.unknowns_lt different

end Site

namespace Recovery

variable {code : Code} {config : RecoveryConfig} {visited : List Visit}
variable {pending : List Successor} {recovery next : Recovery} {successor : Successor}
variable {pc : UInt64} {site : Site}

/-- How many visits to one position a recovery makes at most. -/
def visitBound (config : RecoveryConfig) : Nat :=
  match config.revisit with
  | .skip => 1
  | .merge =>
      (max 1 config.maxContexts).toNat +
        ∑ height ∈ Finset.range (stackLimit + 1), (height + 1)

/-- The visits to a position that were made or are queued. -/
def visitsTo (pc : UInt64) (visits : List Visit) : Nat :=
  visits.countP (·.pc == pc)

namespace Stage

/-- A position is queued with a bounded number of stacks of its own; under the skip policy
with one and no joins. -/
theorem contexts_le (stage : Stage code config visited pending recovery)
    (known : recovery.sites[pc]? = some site) :
    (config.revisit = .skip → site.weight ≤ 1) ∧
      (site.contexts.length : Int) ≤ max 1 config.maxContexts := by
  induction stage generalizing site with
  | start => simp [Recovery.start] at known
  | take _ _ oldKnown _ ih =>
      obtain ⟨old, known, same⟩ := known_of_recorded oldKnown known
      have bounded := ih known
      rw [same]
      exact bounded
  | reach before reached ih =>
      cases (before.reach_cases reached).2 with
      | fresh _ =>
          rw [sites_enqueue] at known
          split at known
          · cases known
            simp [Site.weight, Site.joinWeight]
          · exact ih known
      | absorbed => exact ih known
      | grown oldKnown merges grows =>
          rw [sites_enqueue] at known
          split at known
          · next here =>
              cases known
              obtain ⟨_, bounded⟩ := ih (here ▸ oldKnown)
              rw [before.coherent.config_eq] at merges grows
              refine ⟨fun skips => by simp [merges] at skips, ?_⟩
              cases grows with
              | told _ room =>
                  simp only [List.length_cons]
                  omega
              | joined => exact bounded
              | widened => exact bounded
          · exact ih known

theorem weight_le (stage : Stage code config visited pending recovery)
    (known : recovery.sites[pc]? = some site) : site.weight ≤ visitBound config := by
  obtain ⟨skipped, bounded⟩ := stage.contexts_le known
  unfold visitBound
  cases policy : config.revisit with
  | skip => exact skipped policy
  | merge =>
      refine Nat.add_le_add (by omega) (Finset.sum_le_sum fun height _ => ?_)
      exact Site.joinWeight_le (stage.coherent.filed _ _ known) height

theorem known_of_queued (stage : Stage code config visited pending recovery) {visit : Visit}
    (member : visit ∈ visited ++ recovery.queue) :
    ∃ site, recovery.sites[visit.pc]? = some site := by
  rcases List.mem_append.mp member with member | member
  · exact stage.known_of_visited member
  · exact stage.coherent.queued visit member

theorem visitsTo_eq_zero (stage : Stage code config visited pending recovery)
    (unknown : recovery.sites[pc]? = none) : visitsTo pc (visited ++ recovery.queue) = 0 := by
  rw [visitsTo, List.countP_eq_zero]
  intro visit member here
  rw [beq_iff_eq] at here
  obtain ⟨site, known⟩ := stage.known_of_queued member
  rw [here, unknown] at known
  cases known

/-- The weight of a site counts the visits that were queued for it. -/
theorem visitsTo_le_weight (stage : Stage code config visited pending recovery)
    (known : recovery.sites[pc]? = some site) :
    visitsTo pc (visited ++ recovery.queue) ≤ site.weight := by
  induction stage generalizing site with
  | start => simp [Recovery.start] at known
  | @take visited _ visit rest _ _ _ _ queued oldKnown _ ih =>
      obtain ⟨old, known, same⟩ := known_of_recorded oldKnown known
      have before := ih known
      rw [queued] at before
      rw [same]
      have moved : visitsTo pc (visit :: visited ++ rest) =
          visitsTo pc (visited ++ visit :: rest) := List.perm_middle.symm.countP_eq _
      rw [moved]
      exact before
  | @reach visited successor _ recovery _ before reached ih =>
      have low := before.length_le.2 successor (.head _)
      -- Only the position that was reached may have one more visit, and then it is heavier.
      have enqueued (queued : SymStack) : visitsTo pc (visited ++
          (recovery.queue ++ [⟨successor.pc, queued⟩])) =
          visitsTo pc (visited ++ recovery.queue) + if successor.pc = pc then 1 else 0 := by
        rw [← List.append_assoc]
        simp [visitsTo, List.countP_append, List.countP_singleton, Nat.add_assoc]
      cases (before.reach_cases reached).2 with
      | fresh unknown =>
          rw [sites_enqueue] at known
          change visitsTo pc (visited ++ (recovery.queue ++ [_])) ≤ _
          rw [enqueued]
          split at known
          · next here =>
              cases known
              rw [before.visitsTo_eq_zero (here ▸ unknown), if_pos here]
              exact Nat.le_add_right _ _
          · next elsewhere =>
              rw [if_neg elsewhere]
              exact ih known
      | absorbed => exact ih known
      | grown oldKnown _ grows =>
          rw [sites_enqueue] at known
          change visitsTo pc (visited ++ (recovery.queue ++ [_])) ≤ _
          rw [enqueued]
          split at known
          · next here =>
              cases known
              subst here
              rw [if_pos rfl]
              have heavier := grows.weight_lt (before.coherent.filed _ _ oldKnown) low
              exact Nat.lt_of_le_of_lt (ih oldKnown) heavier
          · next elsewhere =>
              rw [if_neg elsewhere]
              exact ih known

theorem visitsTo_le (stage : Stage code config visited pending recovery) (pc : UInt64) :
    visitsTo pc (visited ++ recovery.queue) ≤ visitBound config := by
  cases known : recovery.sites[pc]? with
  | none =>
      rw [stage.visitsTo_eq_zero known]
      exact Nat.zero_le _
  | some site => exact (stage.visitsTo_le_weight known).trans (stage.weight_le known)

end Stage

/-! ## The step bound -/

/-- Visits to positions that are few and far between are few in number. -/
theorem length_le_of_visitsTo_le {visits : List Visit} {size bound : Nat}
    (inside : ∀ visit ∈ visits, visit.pc.toNat ≤ size)
    (few : ∀ pc, visitsTo pc visits ≤ bound) : visits.length ≤ (size + 1) * bound := by
  have counted : visits.length =
      ∑ position ∈ Finset.range (size + 1), visits.countP (·.pc.toNat == position) := by
    clear few
    induction visits with
    | nil => simp
    | cons visit rest ih =>
        have here : visit.pc.toNat ∈ Finset.range (size + 1) :=
          Finset.mem_range.mpr (Nat.lt_succ_of_le (inside visit (.head _)))
        simp only [List.length_cons, List.countP_cons, beq_iff_eq, Finset.sum_add_distrib,
          Finset.sum_ite_eq, if_pos here]
        rw [ih fun other member => inside other (.tail _ member)]
  have each : ∀ position ∈ Finset.range (size + 1),
      visits.countP (·.pc.toNat == position) ≤ bound := by
    intro position _
    refine (List.countP_mono_left fun visit _ here => ?_).trans
      (few (UInt64.ofNat position))
    rw [beq_iff_eq] at here ⊢
    rw [← here, UInt64.ofNat_toNat]
  calc visits.length
      = ∑ position ∈ Finset.range (size + 1), visits.countP (·.pc.toNat == position) :=
        counted
    _ ≤ ∑ _position ∈ Finset.range (size + 1), bound := Finset.sum_le_sum each
    _ = (size + 1) * bound := by simp

theorem visitBound_le_contextBound (config : RecoveryConfig) :
    visitBound config ≤ contextBound config := by
  have joins (count : Nat) :
      (List.range count).foldl (fun total height => total + height + 1) 0 =
        ∑ height ∈ Finset.range count, (height + 1) := by
    induction count with
    | zero => rfl
    | succ count ih =>
        rw [List.range_succ, List.foldl_append, ih, Finset.sum_range_succ]
        rfl
  unfold visitBound contextBound
  rw [joins]
  split
  · exact Nat.le_add_right_of_le (Nat.le_max_left _ _)
  · exact Nat.add_le_add_right (by omega) _

namespace Stage

/-- The visits that a recovery ever queues stay below its step bound. -/
theorem visits_le_stepBound (stage : Stage code config visited pending recovery) :
    visited.length + recovery.queue.length ≤ stepBound code config := by
  rw [← List.length_append]
  refine (length_le_of_visitsTo_le ?_ stage.visitsTo_le).trans
    (Nat.mul_le_mul_left _ (visitBound_le_contextBound config))
  intro visit member
  obtain ⟨site, known⟩ := stage.known_of_queued member
  exact stage.toNat_le_size.1 _ _ known

end Stage

end Recovery

/-! ## Faults of a recovery -/

/-- Whether a cause lies in the code under analysis: in how it uses its stack, or in where it
jumps to. A byte without an instruction is no such cause. It ends its block, and the last
instruction of a block is applied only if it is a jump. -/
def Cause.isFlow : Cause → Bool
  | .stackUnderflow | .stackOverflow | .invalidJump | .controlFlowEscaped => true
  | _ => false

theorem Instruction.isFlow_of_apply {instruction : Instruction} {stack next : SymStack}
    {fault : Fault} (assigned : ∀ byte, instruction.action ≠ .invalid byte)
    (failed : instruction.apply stack = (next, .error fault)) :
    fault.cause.isFlow = true := by
  unfold apply at failed
  split at failed
  · cases failed
    rfl
  · split at failed
    · next byte action => exact absurd action (assigned byte)
    · dsimp only at failed
      split at failed
      · cases failed
        rfl
      · cases failed

theorem isFlow_of_applyAll {instructions : List Instruction} {stack : SymStack}
    {fault : Fault} (inner : ∀ instruction ∈ instructions, instruction.isFinal = false)
    (failed : applyAll instructions stack = .error fault) : fault.cause.isFlow = true := by
  induction instructions generalizing stack with
  | nil => cases failed
  | cons instruction rest ih =>
      obtain ⟨firstInner, restInner⟩ := List.forall_mem_cons.mp inner
      simp only [applyAll] at failed
      split at failed
      · exact ih restInner failed
      · next unapplied =>
          cases failed
          rw [Fault.cause_within]
          refine Instruction.isFlow_of_apply ?_ unapplied
          intro byte action
          simp [Instruction.isFinal, action] at firstInner

namespace Block

variable {block recorded : Block} {opcode : Opcode} {stack : SymStack} {fault : Fault}

theorem isFlow_of_takeJump
    (jumps : block.final.kind = .jump ∨ block.final.kind = .branch)
    (failed : block.takeJump opcode stack = (recorded, .error fault)) :
    fault.cause.isFlow = true := by
  unfold takeJump destination at failed
  dsimp only at failed
  split at failed
  · next unresolved =>
      cases failed
      split at unresolved
      · cases unresolved
        rfl
      · cases unresolved
        rfl
      · split at unresolved
        · cases unresolved
        · cases unresolved
          rfl
  · split at failed
    · cases failed
    · next found _ _ _ _ unapplied =>
        cases failed
        rw [Fault.cause_within]
        refine Instruction.isFlow_of_apply ?_ unapplied
        intro byte action
        change (block.final.addDestination found).action = .invalid byte at action
        rw [← block.final.kind_addDestination found, Instruction.kind, action] at jumps
        simp at jumps

theorem isFlow_of_transfer (inner : ∀ instruction ∈ block.body, instruction.isFinal = false)
    (failed : block.transfer stack = (recorded, .error fault)) : fault.cause.isFlow = true := by
  unfold transfer at failed
  split at failed
  · next unapplied =>
      cases failed
      exact isFlow_of_applyAll inner unapplied
  · split at failed
    · next action =>
        split at failed
        · cases failed
        · next unresolved =>
            cases failed
            exact isFlow_of_takeJump (.inl (by rw [Instruction.kind, action])) unresolved
    · next action =>
        split at failed
        · cases failed
        · next unresolved =>
            cases failed
            exact isFlow_of_takeJump (.inr (by rw [Instruction.kind, action])) unresolved
    · cases failed
    · cases failed

end Block

namespace Recovery

variable {code : Code} {config : RecoveryConfig} {visited : List Visit}
variable {recovery : Recovery} {fault : Fault} {steps : Nat}

theorem isFlow_of_reach {successor : Successor}
    (failed : recovery.reach successor = .error fault) : fault.cause.isFlow = true := by
  unfold reach at failed
  dsimp only at failed
  split at failed
  · cases failed
    rfl
  · split at failed
    · cases failed
    · cases failed

theorem isFlow_of_foldlM_reach {successors : List Successor}
    (failed : successors.foldlM reach recovery = .error fault) :
    fault.cause.isFlow = true := by
  induction successors generalizing recovery with
  | nil => cases failed
  | cons successor rest ih =>
      rw [List.foldlM_cons] at failed
      cases first : recovery.reach successor with
      | error fault =>
          simp only [first, bind, Except.bind, Except.error.injEq] at failed
          subst failed
          exact isFlow_of_reach first
      | ok middle =>
          simp only [first, bind, Except.bind] at failed
          exact ih failed

theorem isFlow_of_visit (coherent : Coherent code config recovery) {visit : Visit}
    {rest : List Visit}
    (failed : Recovery.visit { recovery with queue := rest } visit = .error fault) :
    fault.cause.isFlow = true := by
  unfold Recovery.visit at failed
  split at failed
  · cases failed
  · next site known =>
      have inner : ∀ instruction ∈ site.block.body, instruction.isFinal = false := by
        intro instruction member
        rw [← Block.body_bare, coherent.decoded _ _ known] at member
        exact Block.isFinal_of_mem_body member
      dsimp only at failed
      split at failed
      · cases failed
      · next unfinished =>
          cases failed
          rw [Fault.cause_within]
          cases transferred : site.block.transfer visit.stack with
          | mk block outcome =>
              rw [transferred] at unfinished
              cases outcome with
              | error fault =>
                  cases unfinished
                  exact Block.isFlow_of_transfer inner transferred
              | ok successors => exact isFlow_of_foldlM_reach unfinished

namespace Stage

/-- A recovery that has the steps it may need works its queue off, unless the code under
analysis is at fault. More steps change nothing. -/
theorem run_ends (stage : Stage code config visited [] recovery)
    (enough : stepBound code config ≤ visited.length + steps) :
    (∀ fault, recovery.run steps = .error fault → fault.cause.isFlow = true) ∧
      ∀ extra, recovery.run (steps + extra) = recovery.run steps := by
  induction steps generalizing visited recovery with
  | zero =>
      have bounded := stage.visits_le_stepBound
      have empty : recovery.queue = [] := List.length_eq_zero_iff.mp (by omega)
      refine ⟨by simp [Recovery.run, empty], fun extra => ?_⟩
      cases extra with
      | zero => rfl
      | succ extra => simp [Recovery.run, empty]
  | succ steps ih =>
      cases queued : recovery.queue with
      | nil => simp [Recovery.run, queued, Nat.succ_add]
      | cons first rest =>
          simp only [Nat.succ_add, Recovery.run, queued]
          cases visits : Recovery.visit { recovery with queue := rest } first with
          | error fault =>
              refine ⟨?_, fun _ => rfl⟩
              intro other failed
              cases failed
              exact isFlow_of_visit stage.coherent visits
          | ok next =>
              refine ih (stage.visit queued visits) ?_
              rw [List.length_cons]
              omega

end Stage

end Recovery

/-- Recovery ends for every code and all settings: its worklist never outlives the step
bound, and more steps change nothing. At every stage of it, the positions with blocks lie
inside the code or right behind it, the stacks that were ever queued stay below the limit,
and no position was queued more often than `visitBound` says. -/
theorem recovery_ends (bytes : Bytes) (config : RecoveryConfig) :
    (∀ fault, recover bytes config = .error fault → fault.cause ≠ .recoveryExhausted) ∧
    (∀ visited recovery steps,
      Recovery.Stage (Code.ofBytes bytes) config visited [] recovery →
      Recovery.stepBound (Code.ofBytes bytes) config ≤ visited.length + steps →
      ∀ extra, recovery.run (steps + extra) = recovery.run steps) ∧
    ∀ visited pending recovery,
      Recovery.Stage (Code.ofBytes bytes) config visited pending recovery →
      (∀ (pc : UInt64) (site : Site), recovery.sites[pc]? = some site →
        pc.toNat ≤ bytes.size) ∧
      (∀ visit ∈ visited ++ recovery.queue, visit.stack.length ≤ 1024) ∧
      ∀ pc, ((visited ++ recovery.queue).filter (·.pc = pc)).length ≤
        match config.revisit with
        | .skip => 1
        | .merge =>
            (max 1 config.maxContexts).toNat + ∑ height ∈ Finset.range 1025, (height + 1) := by
  refine ⟨?_, ?_, ?_⟩
  · intro fault failed
    have isFlow : fault.cause.isFlow = true := by
      rcases recover_cases bytes config with ⟨other, unreached, same⟩ | ⟨entered, entry, ran⟩
      · rw [same] at failed
        cases failed
        exact Recovery.isFlow_of_reach unreached
      · rw [ran] at failed
        cases finishes :
            entered.run (Recovery.stepBound (Code.ofBytes bytes) config) with
        | ok finished =>
            rw [finishes] at failed
            cases failed
        | error other =>
            rw [finishes] at failed
            cases failed
            have stage := Recovery.Stage.start.reach entry
            exact (stage.run_ends (Nat.le_add_left _ _)).1 _ finishes
    intro exhausted
    rw [exhausted] at isFlow
    cases isFlow
  · intro visited recovery steps stage enough
    exact (stage.run_ends enough).2
  · intro visited pending recovery stage
    refine ⟨stage.toNat_le_size.1, stage.length_le.1, fun pc => ?_⟩
    have bounded := stage.visitsTo_le pc
    rw [Recovery.visitsTo, List.countP_eq_length_filter] at bounded
    exact bounded

/-- A jump destination, a push of 0 and a jump: a loop that never ends. -/
def spinningCode : Bytes :=
  Bytes.ofList [0x5b, 0x60, 0x00, 0x56]

/-- The recovery of an endless loop ends. -/
theorem spinningCode_recovery_ends :
    ∃ recovery,
      Recovery.reach (.start (Code.ofBytes spinningCode) {}) ⟨0, [], false⟩ = .ok recovery ∧
      (∀ extra, recovery.run (Recovery.stepBound (Code.ofBytes spinningCode) {} + extra) =
        recovery.run (Recovery.stepBound (Code.ofBytes spinningCode) {})) ∧
      ∀ (pc : UInt64) (site : Site), recovery.sites[pc]? = some site → pc.toNat ≤ 4 := by
  have enters : (Recovery.reach (.start (Code.ofBytes spinningCode) {})
      ⟨0, [], false⟩).toOption.any (fun _ => true) = true := by
    decide +kernel
  obtain ⟨recovery, entered, _⟩ := exists_ok enters
  have stage := Recovery.Stage.start.reach entered
  obtain ⟨_, settles, bounded⟩ := recovery_ends spinningCode {}
  exact ⟨recovery, entered, settles [] recovery _ stage (Nat.le_add_left _ _),
    (bounded [] [] recovery stage).1⟩

end EvmAtlas
