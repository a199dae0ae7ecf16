import EvmAtlas.Flow.Recovery
import EvmAtlas.Proofs.Transfer

/-!
# The worklist of a recovery

What one step of a recovery can do is said once here. `Site.Grows` lists the ways in which
a known position is queued again, `Recovery.Admits` those in which a position is reached,
and `Recovery.Stage` the states that a recovery passes through: it takes a block from the
queue, and then reaches the block's successors one after the other. A stage also carries
the visits that were made, which the recovery itself forgets.

Every property of recoveries is proved along stages; `stage_of_recover` carries it over to
the program that is returned.
-/

namespace EvmAtlas

/-! ## Sites -/

namespace Site

variable {config : RecoveryConfig} {site grown : Site} {stack queued other : SymStack}

/-- Whether a site was queued with a stack that it still remembers. -/
def Keeps (site : Site) (stack : SymStack) : Prop :=
  stack ∈ site.contexts ∨ ∃ height : Nat, site.joined[height]? = some stack

/-- Whether a site remembers a stack that says no more than the given one. -/
def Covers (site : Site) (stack : SymStack) : Prop :=
  ∃ kept, site.Keeps kept ∧ stack.Refines kept

/-- Whether the joins of a site are filed under their heights. -/
def WellFiled (site : Site) : Prop :=
  ∀ (height : Nat) (joined : SymStack), site.joined[height]? = some joined →
    joined.length = height

/-- Whether a stack brings nothing new to a site. -/
def Absorbs (config : RecoveryConfig) (site : Site) (stack : SymStack) : Prop :=
  config.revisit = .skip ∨ stack ∈ site.contexts ∨
    ∃ old, site.joined[stack.length]? = some old ∧ old.join stack = old

/-- The ways in which a stack is new to a site: the site afterwards, and the stack that it
is queued with. -/
inductive Grows (config : RecoveryConfig) (site : Site) (stack : SymStack) :
    Site → SymStack → Prop where
  | told (new : stack ∉ site.contexts)
      (room : (site.contexts.length : Int) < config.maxContexts) :
      Grows config site stack { site with contexts := stack :: site.contexts } stack
  | joined (full : config.maxContexts ≤ (site.contexts.length : Int))
      (first : site.joined[stack.length]? = none) :
      Grows config site stack
        { site with joined := site.joined.insert stack.length stack } stack
  | widened {old : SymStack} (full : config.maxContexts ≤ (site.contexts.length : Int))
      (lookup : site.joined[stack.length]? = some old) (different : old.join stack ≠ old) :
      Grows config site stack
        { site with joined := site.joined.insert stack.length (old.join stack) }
        (old.join stack)

theorem Absorbs.covers (filed : site.WellFiled) (merges : config.revisit = .merge)
    (absorbs : site.Absorbs config stack) : site.Covers stack := by
  rcases absorbs with skips | member | ⟨old, lookup, same⟩
  · rw [merges] at skips
    cases skips
  · exact ⟨stack, .inl member, .refl stack⟩
  · have above : stack.Refines (old.join stack) :=
      SymStack.refines_join_right (filed _ _ lookup)
    rw [same] at above
    exact ⟨old, .inr ⟨_, lookup⟩, above⟩

namespace Grows

theorem block_eq (grows : site.Grows config stack grown queued) :
    grown.block = site.block := by
  cases grows <;> rfl

/-- A site is queued with a stack that says no more than the one that reached it. -/
theorem refines (filed : site.WellFiled) (grows : site.Grows config stack grown queued) :
    stack.Refines queued := by
  cases grows with
  | told => exact .refl stack
  | joined => exact .refl stack
  | widened _ lookup _ => exact SymStack.refines_join_right (filed _ _ lookup)

theorem wellFiled (filed : site.WellFiled) (grows : site.Grows config stack grown queued) :
    grown.WellFiled := by
  have queuedHeight := (grows.refines filed).length_eq
  intro height joined lookup
  cases grows with
  | told => exact filed height joined lookup
  | joined =>
      simp only [Std.TreeMap.getElem?_insert, compare_eq_iff_eq] at lookup
      split at lookup
      · next here =>
          cases lookup
          exact here
      · exact filed height joined lookup
  | widened =>
      simp only [Std.TreeMap.getElem?_insert, compare_eq_iff_eq] at lookup
      split at lookup
      · next here =>
          cases lookup
          omega
      · exact filed height joined lookup

theorem keeps_queued (grows : site.Grows config stack grown queued) :
    grown.Keeps queued := by
  cases grows with
  | told => exact .inl List.mem_cons_self
  | joined => exact .inr ⟨stack.length, by simp⟩
  | widened => exact .inr ⟨stack.length, by simp⟩

/-- A site that grows remembers nothing new but what it is queued with. -/
theorem keeps_or_eq (grows : site.Grows config stack grown queued)
    (keeps : grown.Keeps other) : site.Keeps other ∨ other = queued := by
  rcases keeps with member | ⟨height, lookup⟩
  · cases grows with
    | told =>
        rcases List.mem_cons.mp member with same | member
        · exact .inr same
        · exact .inl (.inl member)
    | joined => exact .inl (.inl member)
    | widened => exact .inl (.inl member)
  · cases grows with
    | told => exact .inl (.inr ⟨height, lookup⟩)
    | joined | widened =>
        simp only [Std.TreeMap.getElem?_insert, compare_eq_iff_eq] at lookup
        split at lookup
        · exact .inr (Option.some.inj lookup).symm
        · exact .inl (.inr ⟨height, lookup⟩)

/-- What a site covered it covers when it has grown: an old join is only replaced by one
that lies above it. -/
theorem covers_mono (filed : site.WellFiled) (grows : site.Grows config stack grown queued)
    (covers : site.Covers other) : grown.Covers other := by
  obtain ⟨kept, member | ⟨height, lookup⟩, refines⟩ := covers
  · cases grows with
    | told => exact ⟨kept, .inl (List.mem_cons_of_mem _ member), refines⟩
    | joined => exact ⟨kept, .inl member, refines⟩
    | widened => exact ⟨kept, .inl member, refines⟩
  · cases grows with
    | told => exact ⟨kept, .inr ⟨height, lookup⟩, refines⟩
    | joined _ first =>
        refine ⟨kept, .inr ⟨height, ?_⟩, refines⟩
        have different : stack.length ≠ height := by
          rintro rfl
          simp [first] at lookup
        simp [Std.TreeMap.getElem?_insert, different, lookup]
    | @widened old _ oldLookup _ =>
        by_cases here : stack.length = height
        · subst here
          obtain rfl : old = kept := Option.some.inj (oldLookup.symm.trans lookup)
          refine ⟨old.join stack, .inr ⟨stack.length, by simp⟩, ?_⟩
          exact refines.trans (SymStack.refines_join_left (filed _ _ lookup))
        · refine ⟨kept, .inr ⟨height, ?_⟩, refines⟩
          simp [Std.TreeMap.getElem?_insert, here, lookup]

end Grows

end Site

/-! ## Reaching a position -/

namespace Recovery

variable {recovery next : Recovery} {successor : Successor} {pc : UInt64}

/-- Whether a successor may be reached: a jump has to arrive at a jump destination that is
an instruction of the code. -/
def Lands (code : Code) (successor : Successor) : Prop :=
  successor.jumped = true →
    code.isCode successor.pc = true ∧
      (Block.decode code successor.pc).isJumpDestination = true

/-- The ways in which a position is reached. -/
inductive Admits (recovery : Recovery) (successor : Successor) : Recovery → Prop where
  | fresh (unknown : recovery.sites[successor.pc]? = none) :
      Admits recovery successor
        (recovery.enqueue successor.pc
          ⟨Block.decode recovery.code successor.pc, [successor.stack], ∅⟩ successor.stack)
  | absorbed {site : Site} (known : recovery.sites[successor.pc]? = some site)
      (absorbs : site.Absorbs recovery.config successor.stack) :
      Admits recovery successor recovery
  | grown {site grown : Site} {queued : SymStack}
      (known : recovery.sites[successor.pc]? = some site)
      (merges : recovery.config.revisit = .merge)
      (grows : site.Grows recovery.config successor.stack grown queued) :
      Admits recovery successor (recovery.enqueue successor.pc grown queued)

theorem admits_revisit {site : Site} (known : recovery.sites[successor.pc]? = some site) :
    recovery.Admits successor (recovery.revisit successor.pc site successor.stack) := by
  unfold revisit
  split
  · next skips => exact .absorbed known (.inl skips)
  · next revisits =>
      have merges : recovery.config.revisit = .merge := by
        cases policy : recovery.config.revisit with
        | merge => rfl
        | skip => exact (revisits policy).elim
      split
      · next member => exact .absorbed known (.inr (.inl (List.contains_iff_mem.mp member)))
      · next new =>
          rw [List.contains_iff_mem] at new
          split
          · next room => exact .grown known merges (.told new room)
          · next full =>
              have full := Int.not_lt.mp full
              split
              · next first => exact .grown known merges (.joined full first)
              · next old lookup =>
                  dsimp only
                  split
                  · next same => exact .absorbed known (.inr (.inr ⟨old, lookup, same⟩))
                  · next different =>
                      exact .grown known merges (.widened full lookup different)

section Decoded

-- The blocks of all sites are those of the code, whatever was recorded on them.
variable (decoded : ∀ pc site, recovery.sites[pc]? = some site →
  site.block.bare = Block.decode recovery.code pc)

include decoded

theorem isJumpDestination_site (pc : UInt64) :
    ((recovery.sites[pc]?.map Site.block).getD
      (Block.decode recovery.code pc)).isJumpDestination =
      (Block.decode recovery.code pc).isJumpDestination := by
  cases known : recovery.sites[pc]? with
  | none => rfl
  | some site =>
      rw [Option.map_some, Option.getD_some, ← Block.isJumpDestination_bare,
        decoded _ _ known]

/-- What is known of a recovery that reached a successor. -/
theorem reach_eq_ok (reached : recovery.reach successor = .ok next) :
    Lands recovery.code successor ∧ recovery.Admits successor next := by
  unfold reach at reached
  dsimp only at reached
  rw [isJumpDestination_site decoded] at reached
  split at reached
  · simp at reached
  · next lands =>
      refine ⟨?_, ?_⟩
      · intro jumped
        simpa [jumped] using lands
      · cases known : recovery.sites[successor.pc]? with
        | none =>
            simp only [known, Option.map_none, Option.getD_none, Except.ok.injEq] at reached
            subst reached
            exact .fresh known
        | some site =>
            simp only [known, Except.ok.injEq] at reached
            subst reached
            exact admits_revisit known

theorem exists_reach (lands : Lands recovery.code successor) :
    ∃ next, recovery.reach successor = .ok next := by
  unfold reach
  dsimp only
  rw [isJumpDestination_site decoded, if_neg]
  · cases recovery.sites[successor.pc]? with
    | none => exact ⟨_, rfl⟩
    | some site => exact ⟨_, rfl⟩
  · intro refused
    rw [Bool.and_eq_true] at refused
    obtain ⟨isCode, begins⟩ := lands refused.1
    simp [isCode, begins] at refused

end Decoded

theorem sites_enqueue (recovery : Recovery) (pc other : UInt64) (site : Site)
    (stack : SymStack) :
    (recovery.enqueue pc site stack).sites[other]? =
      if pc = other then some site else recovery.sites[other]? := by
  simp [enqueue, Std.TreeMap.getElem?_insert]

/-- What holds of a recovery whatever it has reached: its program and its settings never
change, its blocks are those of the program, its joins are filed under their heights, and
every position in the queue is known. -/
structure Coherent (code : Code) (config : RecoveryConfig) (recovery : Recovery) : Prop where
  code_eq : recovery.code = code
  config_eq : recovery.config = config
  decoded : ∀ pc site, recovery.sites[pc]? = some site →
    site.block.bare = Block.decode code pc
  filed : ∀ (pc : UInt64) site, recovery.sites[pc]? = some site → site.WellFiled
  queued : ∀ visit ∈ recovery.queue, ∃ site, recovery.sites[visit.pc]? = some site

namespace Admits

theorem known_mono (admits : recovery.Admits successor next) {old : Site}
    (known : recovery.sites[pc]? = some old) :
    ∃ site, next.sites[pc]? = some site ∧ site.block = old.block := by
  cases admits with
  | fresh unknown =>
      have different : successor.pc ≠ pc := by
        rintro rfl
        simp [unknown] at known
      exact ⟨old, by rw [sites_enqueue, if_neg different, known], rfl⟩
  | absorbed => exact ⟨old, known, rfl⟩
  | @grown site grown _ siteKnown _ grows =>
      rw [sites_enqueue]
      split
      · next here =>
          subst here
          obtain rfl : site = old := Option.some.inj (siteKnown.symm.trans known)
          exact ⟨grown, rfl, grows.block_eq⟩
      · exact ⟨old, known, rfl⟩

/-- A site has the block it had, or it is new and has the block of the program. -/
theorem known_or_new (admits : recovery.Admits successor next) {site : Site}
    (known : next.sites[pc]? = some site) :
    (∃ old, recovery.sites[pc]? = some old ∧ site.block = old.block) ∨
      (pc = successor.pc ∧ recovery.sites[pc]? = none ∧
        site.block = Block.decode recovery.code pc) := by
  cases admits with
  | fresh unknown =>
      rw [sites_enqueue] at known
      split at known
      · next here =>
          cases known
          exact .inr ⟨here.symm, here ▸ unknown, by rw [here]⟩
      · exact .inl ⟨site, known, rfl⟩
  | absorbed => exact .inl ⟨site, known, rfl⟩
  | @grown old _ _ oldKnown _ grows =>
      rw [sites_enqueue] at known
      split at known
      · next here =>
          cases known
          exact .inl ⟨old, here ▸ oldKnown, grows.block_eq⟩
      · exact .inl ⟨site, known, rfl⟩

theorem known_successor (admits : recovery.Admits successor next) :
    ∃ site, next.sites[successor.pc]? = some site := by
  cases admits with
  | fresh _ => exact ⟨_, by rw [sites_enqueue, if_pos rfl]⟩
  | absorbed known _ => exact ⟨_, known⟩
  | grown _ _ _ => exact ⟨_, by rw [sites_enqueue, if_pos rfl]⟩

/-- At most the position that was reached is queued, with a stack that says no more than
the one that reached it, and under the skip policy with that one. -/
theorem queue_eq (admits : recovery.Admits successor next)
    (filed : ∀ (pc : UInt64) site, recovery.sites[pc]? = some site → site.WellFiled) :
    next.queue = recovery.queue ∨
      ∃ queued, successor.stack.Refines queued ∧
        (recovery.config.revisit = .skip → queued = successor.stack) ∧
        next.queue = recovery.queue ++ [⟨successor.pc, queued⟩] := by
  cases admits with
  | fresh _ => exact .inr ⟨_, .refl _, fun _ => rfl, rfl⟩
  | absorbed => exact .inl rfl
  | grown known merges grows =>
      refine .inr ⟨_, grows.refines (filed _ _ known), ?_, rfl⟩
      intro skips
      rw [merges] at skips
      cases skips

theorem coherent {code : Code} {config : RecoveryConfig}
    (admits : recovery.Admits successor next) (before : Coherent code config recovery) :
    Coherent code config next where
  code_eq := by cases admits <;> exact before.code_eq
  config_eq := by cases admits <;> exact before.config_eq
  decoded := by
    intro pc site known
    rcases admits.known_or_new known with ⟨old, oldKnown, same⟩ | ⟨rfl, _, same⟩
    · rw [same, before.decoded _ _ oldKnown]
    · rw [same, before.code_eq, Block.bare_decode]
  filed := by
    intro pc site known
    cases admits with
    | fresh _ =>
        rw [sites_enqueue] at known
        split at known
        · cases known
          intro height joined lookup
          simp at lookup
        · exact before.filed _ _ known
    | absorbed => exact before.filed _ _ known
    | grown oldKnown _ grows =>
        rw [sites_enqueue] at known
        split at known
        · cases known
          exact grows.wellFiled (before.filed _ _ oldKnown)
        · exact before.filed _ _ known
  queued := by
    intro visit member
    have old : visit ∈ recovery.queue → ∃ site, next.sites[visit.pc]? = some site := by
      intro member
      obtain ⟨site, known⟩ := before.queued visit member
      obtain ⟨site, known, _⟩ := admits.known_mono known
      exact ⟨site, known⟩
    rcases admits.queue_eq before.filed with same | ⟨queued, _, _, same⟩
    · exact old (same ▸ member)
    · rw [same, List.mem_append, List.mem_singleton] at member
      rcases member with member | rfl
      · exact old member
      · exact admits.known_successor

end Admits

/-! ## Stages -/

/-- The states that the recovery of a program passes through, whether it fails later or
not, each with the visits that were made so far, last first, and the successors of the last
one that are still to be reached. The entry of the program is reached before the first
visit; `Stage.visit` shows that each turn of the worklist leads from stage to stage. -/
inductive Stage (code : Code) (config : RecoveryConfig) :
    List Visit → List Successor → Recovery → Prop where
  | start : Stage code config [] [⟨0, [], false⟩] (start code config)
  | take {visited : List Visit} {recovery : Recovery} {visit : Visit} {rest : List Visit}
      {site : Site} {block : Block} {successors : List Successor}
      (before : Stage code config visited [] recovery)
      (queued : recovery.queue = visit :: rest)
      (known : recovery.sites[visit.pc]? = some site)
      (transferred : site.block.transfer visit.stack = (block, .ok successors)) :
      Stage code config (visit :: visited) successors
        { recovery with
          sites := recovery.sites.insert visit.pc { site with block }
          queue := rest }
  | reach {visited : List Visit} {successor : Successor} {pending : List Successor}
      {recovery next : Recovery}
      (before : Stage code config visited (successor :: pending) recovery)
      (reached : recovery.reach successor = .ok next) :
      Stage code config visited pending next

theorem sites_insert (sites : Std.TreeMap UInt64 Site) (pc other : UInt64) (site : Site) :
    (sites.insert pc site)[other]? = if pc = other then some site else sites[other]? := by
  simp [Std.TreeMap.getElem?_insert]

section Recorded

variable {sites : Std.TreeMap UInt64 Site} {site found : Site} {block : Block}
variable {other : UInt64}

/-- Recording a block on a known site makes no position known and changes no stack. -/
theorem known_of_recorded (known : sites[pc]? = some site)
    (recorded : (sites.insert pc { site with block })[other]? = some found) :
    ∃ old, sites[other]? = some old ∧ found = { old with block := found.block } := by
  rw [sites_insert] at recorded
  split at recorded
  · next here =>
      cases recorded
      exact ⟨site, here ▸ known, rfl⟩
  · exact ⟨found, recorded, rfl⟩

theorem recorded_of_known (known : sites[pc]? = some site) (block : Block)
    (before : sites[other]? = some found) :
    ∃ new, (sites.insert pc { site with block })[other]? = some new ∧
      new = { found with block := new.block } := by
  rw [sites_insert]
  split
  · next here =>
      obtain rfl : site = found := Option.some.inj (known.symm.trans (here ▸ before))
      exact ⟨_, rfl, rfl⟩
  · exact ⟨found, before, rfl⟩

end Recorded

namespace Stage

variable {code : Code} {config : RecoveryConfig} {visited : List Visit}
variable {pending : List Successor}

theorem coherent (stage : Stage code config visited pending recovery) :
    Coherent code config recovery := by
  induction stage with
  | start =>
      refine ⟨rfl, rfl, ?_, ?_, ?_⟩
      · intro pc site known
        simp [Recovery.start] at known
      · intro pc site known
        simp [Recovery.start] at known
      · intro visit member
        simp [Recovery.start] at member
  | @take visited recovery visit rest site block successors _ queued known transferred ih =>
      obtain ⟨rfl, _⟩ := Block.transfer_eq_ok_iff.mp transferred
      refine ⟨ih.code_eq, ih.config_eq, ?_, ?_, ?_⟩
      · intro pc other otherKnown
        rw [sites_insert] at otherKnown
        split at otherKnown
        · next here =>
            cases otherKnown
            rw [Block.bare_record, ih.decoded _ _ known, here]
        · exact ih.decoded _ _ otherKnown
      · intro pc other otherKnown
        obtain ⟨old, oldKnown, same⟩ := known_of_recorded known otherKnown
        rw [same]
        exact ih.filed pc old oldKnown
      · intro other member
        obtain ⟨old, oldKnown⟩ := ih.queued other (by rw [queued]; exact .tail _ member)
        obtain ⟨new, newKnown, _⟩ :=
          recorded_of_known known (site.block.record successors) oldKnown
        exact ⟨new, newKnown⟩
  | reach before reached ih =>
      have decoded := ih.decoded
      rw [← ih.code_eq] at decoded
      exact (reach_eq_ok decoded reached).2.coherent ih

/-- How a stage goes on to the next one by reaching a successor. -/
theorem reach_cases (stage : Stage code config visited pending recovery)
    (reached : recovery.reach successor = .ok next) :
    Lands code successor ∧ recovery.Admits successor next := by
  have coherent := stage.coherent
  have decoded := coherent.decoded
  rw [← coherent.code_eq] at decoded ⊢
  exact reach_eq_ok decoded reached

theorem foldlM_reach (stage : Stage code config visited pending recovery)
    (reached : pending.foldlM Recovery.reach recovery = .ok next) :
    Stage code config visited [] next := by
  induction pending generalizing recovery with
  | nil =>
      cases reached
      exact stage
  | cons successor pending ih =>
      rw [List.foldlM_cons] at reached
      cases first : recovery.reach successor with
      | error fault => simp [first, bind, Except.bind] at reached
      | ok middle =>
          simp only [first, bind, Except.bind] at reached
          exact ih (stage.reach first) reached

theorem visit (stage : Stage code config visited [] recovery) {visit : Visit}
    {rest : List Visit} (queued : recovery.queue = visit :: rest)
    (visits : Recovery.visit { recovery with queue := rest } visit = .ok next) :
    Stage code config (visit :: visited) [] next := by
  obtain ⟨site, known⟩ := stage.coherent.queued visit (by rw [queued]; exact .head _)
  simp only [Recovery.visit, known] at visits
  cases transferred : site.block.transfer visit.stack with
  | mk block outcome =>
      rw [transferred] at visits
      cases outcome with
      | error fault => simp [Except.bind] at visits
      | ok successors =>
          simp only [Except.bind] at visits
          split at visits
          · next reached folded =>
              cases visits
              exact (stage.take queued known transferred).foldlM_reach folded
          · simp at visits

theorem run (stage : Stage code config visited [] recovery) {steps : Nat}
    (finished : recovery.run steps = .ok next) :
    ∃ all, Stage code config all [] next ∧ next.queue = [] := by
  induction steps generalizing visited recovery with
  | zero =>
      simp only [Recovery.run] at finished
      split at finished
      · next empty =>
          cases finished
          exact ⟨visited, stage, List.isEmpty_iff.mp empty⟩
      · simp at finished
  | succ steps ih =>
      simp only [Recovery.run] at finished
      split at finished
      · next empty =>
          cases finished
          exact ⟨visited, stage, empty⟩
      · next first rest queued =>
          split at finished
          · next middle visits => exact ih (stage.visit queued visits) finished
          · simp at finished

end Stage

end Recovery

/-- What is done with an outcome that is known. Rewriting with it keeps the step bound of a
recovery folded. -/
theorem ok_bind {α β : Type} (answer : α) (use : α → Except Fault β) :
    (Except.ok answer).bind use = use answer := rfl

/-- A recovery fails to reach its entry, or its outcome is that of working off its queue. -/
theorem recover_cases (bytes : Bytes) (config : RecoveryConfig) :
    (∃ fault, (Recovery.start (Code.ofBytes bytes) config).reach ⟨0, [], false⟩ =
        .error fault ∧ recover bytes config = .error fault) ∨
      ∃ entered, (Recovery.start (Code.ofBytes bytes) config).reach ⟨0, [], false⟩ =
        .ok entered ∧ recover bytes config =
          (entered.run (Recovery.stepBound (Code.ofBytes bytes) config)).map
            Recovery.program := by
  unfold recover
  dsimp only
  generalize (Recovery.start (Code.ofBytes bytes) config).reach ⟨0, [], false⟩ = entry
  cases entry with
  | error fault => exact .inl ⟨fault, rfl, rfl⟩
  | ok entered => exact .inr ⟨entered, rfl, by rw [ok_bind]⟩

theorem exists_of_map_eq_ok {outcome : Except Fault Recovery} {program : Program}
    (mapped : outcome.map Recovery.program = .ok program) :
    ∃ finished, outcome = .ok finished ∧ program = finished.program := by
  cases outcome with
  | error fault => cases mapped
  | ok finished =>
      cases mapped
      exact ⟨finished, rfl, rfl⟩

theorem stage_of_recover {bytes : Bytes} {config : RecoveryConfig} {program : Program}
    (recovered : recover bytes config = .ok program) :
    ∃ visited finished, Recovery.Stage (Code.ofBytes bytes) config visited [] finished ∧
      finished.queue = [] ∧ program = finished.program := by
  rcases recover_cases bytes config with ⟨fault, _, failed⟩ | ⟨entered, entry, ran⟩
  · rw [failed] at recovered
    cases recovered
  · rw [ran] at recovered
    obtain ⟨finished, finishes, program_eq⟩ := exists_of_map_eq_ok recovered
    obtain ⟨visited, stage, empty⟩ := (Recovery.Stage.start.reach entry).run finishes
    exact ⟨visited, finished, stage, empty, program_eq⟩

end EvmAtlas
