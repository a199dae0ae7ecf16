import Mathlib.Data.List.Nodup
import EvmAtlas.Flow.Graph
import EvmAtlas.Proofs.Reachability

/-!
# Handing a program over

A consumer is given the blocks of a program and then the edges, each until it refuses one. Both
loops offer a list, and so does the whole: `Program.emit_eq_offer` says that what is offered is one
list of events, whoever the consumer is. `Handed` says what becomes of an offered list. That the
events of a recovered program are canonical is a matter of the recovery: `Program.Canonical` holds
as positions are keys, destinations ascend and edges lead to blocks.
-/

namespace EvmAtlas

namespace Program

/-! ## Offering a list -/

section Offering

variable {α β σ : Type} (consume : α → σ → Except Fault Unit × σ)

/-- A consumer accepts items one after the other, which takes it from one state to another. -/
inductive Accepts : List α → σ → σ → Prop where
  | nothing (state : σ) : Accepts [] state state
  | another {item : α} {rest : List α} {state next final : σ}
      (accepted : consume item state = (.ok (), next)) (after : Accepts rest next final) :
      Accepts (item :: rest) state final

/-- A consumer that also writes down what it is given. -/
def logged (item : α) (state : List α × σ) : Except Fault Unit × List α × σ :=
  let (answer, next) := consume item state.2
  (answer, state.1 ++ [item], next)

/-- What a consumer is given of a list of items, and the result: the whole list, or as many items as
it accepts and the one that it refuses. -/
inductive Handed (items : List α) (state : σ) : List α → Except Fault Unit × σ → Prop where
  | whole {final : σ} (accepts : Accepts consume items state final) :
      Handed items state items (.ok (), final)
  | refused (count : Nat) {item : α} {earlier final : σ} {fault : Fault}
      (next : items[count]? = some item)
      (accepts : Accepts consume (items.take count) state earlier)
      (refuses : consume item earlier = (.error fault, final)) :
      Handed items state (items.take (count + 1)) (.error fault, final)

variable {consume}

theorem offer_map (make : β → α) (items : List β) :
    offer consume (items.map make) = offer (fun item => consume (make item)) items := by
  induction items with
  | nil => rfl
  | cons item rest ih =>
      funext state
      simp only [List.map_cons, offer, ih]

theorem offer_append (items others : List α) (state : σ) :
    offer consume (items ++ others) state =
      match offer consume items state with
      | (.ok (), next) => offer consume others next
      | (.error fault, next) => (.error fault, next) := by
  induction items generalizing state with
  | nil => rfl
  | cons item rest ih =>
      simp only [List.cons_append, offer]
      rcases consume item state with ⟨fault | accepted, next⟩
      · rfl
      · exact ih next

/-- A loop that offers a list in each round offers all of them as one. -/
theorem offer_flatMap (make : β → List α) (items : List β) (state : σ) :
    offer consume (items.flatMap make) state =
      offer (fun item => offer consume (make item)) items state := by
  induction items generalizing state with
  | nil => rfl
  | cons item rest ih =>
      simp only [List.flatMap_cons, offer_append, offer]
      rcases offer consume (make item) state with ⟨fault | accepted, next⟩
      · rfl
      · exact ih next

theorem Accepts.offer_logged {items : List α} {state final : σ}
    (accepts : Accepts consume items state final) (log : List α) :
    offer (logged consume) items (log, state) = (.ok (), log ++ items, final) := by
  induction accepts generalizing log with
  | nothing => rw [List.append_nil]; rfl
  | another accepted _ ih =>
      simp only [offer, logged, accepted]
      rw [ih, List.append_assoc, List.singleton_append]

namespace Handed

theorem cons {item : α} {rest calls : List α} {state next : σ} {result : Except Fault Unit × σ}
    (accepted : consume item state = (.ok (), next))
    (handed : Handed consume rest next calls result) :
    Handed consume (item :: rest) state (item :: calls) result := by
  cases handed with
  | whole accepts => exact .whole (.another accepted accepts)
  | refused count following accepts refuses =>
      exact .refused (count + 1) following (.another accepted accepts) refuses

/-- A consumer that is offered a list accepts all of it or refuses an item. -/
theorem exists_handed (consume : α → σ → Except Fault Unit × σ) (items : List α) (state : σ) :
    ∃ calls result, Handed consume items state calls result := by
  induction items generalizing state with
  | nil => exact ⟨_, _, .whole (.nothing state)⟩
  | cons item rest ih =>
      rcases answered : consume item state with ⟨fault | accepted, next⟩
      · exact ⟨_, _, .refused 0 rfl (.nothing state) answered⟩
      · obtain ⟨calls, result, handed⟩ := ih next
        exact ⟨_, _, .cons answered handed⟩

theorem offer_logged {items calls : List α} {state : σ} {result : Except Fault Unit × σ}
    (handed : Handed consume items state calls result) :
    offer (logged consume) items ([], state) = (result.1, calls, result.2) := by
  cases handed with
  | whole accepts => exact accepts.offer_logged []
  | @refused count item _ _ _ next accepts refuses =>
      obtain ⟨inside, rfl⟩ := List.getElem?_eq_some_iff.mp next
      have parts : items = items.take count ++ items[count] :: items.drop (count + 1) := by
        rw [← List.drop_eq_getElem_cons inside, List.take_append_drop]
      rw [List.take_succ_eq_append_getElem inside]
      conv_lhs => rw [parts]
      simp only [offer_append, accepts.offer_logged, List.nil_append, offer, logged, refuses]

theorem starts {items calls : List α} {state : σ} {result : Except Fault Unit × σ}
    (handed : Handed consume items state calls result) : calls <+: items := by
  cases handed with
  | whole => exact List.prefix_rfl
  | refused => exact List.take_prefix _ _

end Handed

/-- Writing down what a consumer is given does not change what it does. -/
theorem offer_eq_of_logged (items log : List α) (state : σ) :
    offer consume items state =
      ((offer (logged consume) items (log, state)).1,
        (offer (logged consume) items (log, state)).2.2) := by
  induction items generalizing log state with
  | nil => rfl
  | cons item rest ih =>
      simp only [offer, logged]
      rcases consume item state with ⟨fault | accepted, next⟩
      · rfl
      · exact ih _ next

/-- What is offered is handed over up to the first item that is refused, and only in this way. -/
theorem offer_logged_iff {items calls : List α} {state : σ} {result : Except Fault Unit × σ} :
    offer (logged consume) items ([], state) = (result.1, calls, result.2) ↔
      Handed consume items state calls result := by
  constructor
  · intro offered
    obtain ⟨answer, final⟩ := result
    obtain ⟨others, ⟨outcome, last⟩, handed⟩ := Handed.exists_handed consume items state
    cases offered.symm.trans handed.offer_logged
    exact handed
  · exact Handed.offer_logged

end Offering

/-! ## The events of a program -/

/-- What a program is made of, in the order in which it is handed over. -/
def events (program : Program) : List GraphEvent :=
  (program.positions.filterMap fun pc => (program.block? pc).map (.node pc)) ++
    program.positions.flatMap fun pc => (program.successors pc).map (.edge pc)

theorem mem_positions_iff (program : Program) (pc : UInt64) :
    pc ∈ program.positions ↔ ∃ block, program.block? pc = some block := by
  rw [positions, Std.TreeMap.mem_keys, Std.TreeMap.mem_iff_isSome_getElem?,
    Option.isSome_iff_exists]
  rfl

theorem pairwise_positions (program : Program) : program.positions.Pairwise (· < ·) := by
  refine Std.TreeMap.ordered_keys.imp ?_
  intro first second ordered
  exact Std.compare_eq_lt.mp ordered

theorem positions_eq (program : Program) :
    program.positions = program.blocks.toList.map Prod.fst :=
  Std.TreeMap.map_fst_toList_eq_keys.symm

theorem block?_of_mem_toList {program : Program} {entry : UInt64 × Block}
    (member : entry ∈ program.blocks.toList) : program.block? entry.1 = some entry.2 :=
  Std.TreeMap.mem_toList_iff_getElem?_eq_some.mp member

/-- The two loops over a program offer its events. -/
theorem emit_eq_offer {σ : Type} (consume : GraphEvent → σ → Except Fault Unit × σ)
    (program : Program) (state : σ) :
    program.emit consume state = offer consume program.events state := by
  have nodes : (program.positions.filterMap fun pc => (program.block? pc).map (.node pc)) =
      program.blocks.toList.map fun entry => GraphEvent.node entry.1 entry.2 := by
    rw [positions_eq, List.filterMap_map, ← List.filterMap_eq_map]
    apply List.filterMap_congr
    intro entry member
    simp [block?_of_mem_toList member]
  have edges : (program.positions.flatMap fun pc => (program.successors pc).map (.edge pc)) =
      program.blocks.toList.flatMap fun entry =>
        entry.2.successors.map (GraphEvent.edge entry.1) := by
    rw [positions_eq, List.flatMap_map]
    apply List.flatMap_congr
    intro entry member
    simp [successors, block?_of_mem_toList member]
  simp only [events, nodes, edges, offer_append, offer_map, offer_flatMap]
  rfl

/-- What a consumer is handed of a program, and the result. -/
theorem emit_handed {σ : Type} (consume : GraphEvent → σ → Except Fault Unit × σ)
    (program : Program) (state : σ) :
    ∃ calls, program.emit (logged consume) ([], state) =
        ((program.emit consume state).1, calls, (program.emit consume state).2) ∧
      ∀ others result, Handed consume program.events state others result ↔
        others = calls ∧ result = program.emit consume state := by
  have unlogged : offer consume program.events state = _ :=
    offer_eq_of_logged program.events [] state
  rw [emit_eq_offer, emit_eq_offer, unlogged]
  refine ⟨_, rfl, ?_⟩
  intro others result
  rw [← offer_logged_iff]
  constructor
  · intro offered
    rw [offered]
    exact ⟨rfl, rfl⟩
  · rintro ⟨rfl, rfl⟩
    rfl

end Program

/-- What an event announces: a block by its position, an edge by the positions at its ends. -/
def GraphEvent.subject : GraphEvent → UInt64 × Option UInt64
  | .node pc _ => (pc, none)
  | .edge source target => (source, some target)

theorem Block.nodup_successors {block : Block}
    (ascending : block.final.destinations.Pairwise (· < ·)) : block.successors.Nodup := by
  have distinct : block.final.destinations.Nodup := ascending.imp UInt64.ne_of_lt
  unfold Instruction.destinations at distinct
  unfold successors
  cases action : block.final.action with
  | jump found => simpa [action] using distinct
  | branch found next =>
      simp only [action] at distinct
      refine List.nodup_cons.mpr ⟨?_, distinct.filter _⟩
      simp
  | fall next => exact List.pairwise_singleton _ next
  | plain | invalid | push => exact List.nodup_nil

namespace Program

/-- The events of a program as they should be: blocks in ascending order, each with its distinct
successors, all of them announced before. -/
structure Canonical (program : Program) : Prop where
  ascending : program.positions.Pairwise (· < ·)
  listed : ∀ pc, pc ∈ program.positions ↔ ∃ block, program.block? pc = some block
  distinct : ∀ pc, (program.successors pc).Nodup
  /-- Nothing is announced twice. -/
  once : (program.events.map GraphEvent.subject).Nodup
  joined : ∀ source target, .edge source target ∈ program.events →
    (∃ block, .node source block ∈ program.events) ∧
      ∃ block, .node target block ∈ program.events

variable {program : Program}

theorem node_mem_events_iff {pc : UInt64} {block : Block} :
    .node pc block ∈ program.events ↔ program.block? pc = some block := by
  simp only [events, List.mem_append, List.mem_filterMap, List.mem_flatMap, List.mem_map,
    Option.map_eq_some_iff, GraphEvent.node.injEq, reduceCtorEq, and_false, exists_false, or_false]
  constructor
  · rintro ⟨_, -, _, found, rfl, rfl⟩
    exact found
  · intro found
    exact ⟨pc, (program.mem_positions_iff pc).mpr ⟨block, found⟩, block, found, rfl, rfl⟩

theorem exists_block_of_mem_successors {source target : UInt64}
    (member : target ∈ program.successors source) :
    ∃ block, program.block? source = some block := by
  unfold successors at member
  cases found : program.block? source with
  | none => simp [found] at member
  | some block => exact ⟨block, rfl⟩

theorem edge_mem_events_iff {source target : UInt64} :
    .edge source target ∈ program.events ↔ target ∈ program.successors source := by
  simp only [events, List.mem_append, List.mem_filterMap, List.mem_flatMap, List.mem_map,
    Option.map_eq_some_iff, GraphEvent.edge.injEq, reduceCtorEq, and_false, exists_false, false_or]
  constructor
  · rintro ⟨_, -, _, member, rfl, rfl⟩
    exact member
  · intro member
    have known := (program.mem_positions_iff source).mpr (exists_block_of_mem_successors member)
    exact ⟨source, known, target, member, rfl, rfl⟩

theorem map_subject_events (program : Program) :
    program.events.map GraphEvent.subject =
      (program.positions.map fun pc => (pc, none)) ++
        program.positions.flatMap fun pc =>
          (program.successors pc).map fun target => (pc, some target) := by
  have nodes : (program.positions.filterMap fun pc =>
        (program.block? pc).map (.node pc)).map GraphEvent.subject =
      program.positions.map fun pc => (pc, none) := by
    rw [List.map_filterMap, ← List.filterMap_eq_map]
    apply List.filterMap_congr
    intro pc member
    obtain ⟨block, found⟩ := (program.mem_positions_iff pc).mp member
    rw [found]
    rfl
  rw [events, List.map_append, nodes, List.map_flatMap]
  simp only [List.map_map]
  rfl

theorem nodup_subjects (distinct : ∀ pc, (program.successors pc).Nodup) :
    (program.events.map GraphEvent.subject).Nodup := by
  have positions : program.positions.Nodup := program.pairwise_positions.imp UInt64.ne_of_lt
  rw [map_subject_events, List.nodup_append, List.nodup_flatMap]
  refine ⟨?_, ⟨?_, ?_⟩, ?_⟩
  · exact positions.map fun _ _ same => congrArg Prod.fst same
  · intro pc _
    exact (distinct pc).map fun _ _ same => Option.some_inj.mp (congrArg Prod.snd same)
  · refine positions.imp ?_
    intro pc other apart subject member others
    obtain ⟨_, -, rfl⟩ := List.mem_map.mp member
    obtain ⟨_, -, same⟩ := List.mem_map.mp others
    exact apart (congrArg Prod.fst same).symm
  · intro node inNodes edge inEdges
    obtain ⟨pc, -, rfl⟩ := List.mem_map.mp inNodes
    obtain ⟨source, -, inside⟩ := List.mem_flatMap.mp inEdges
    obtain ⟨target, -, rfl⟩ := List.mem_map.mp inside
    simp

theorem canonical_of_recover {bytes : Bytes} {config : RecoveryConfig}
    (recovered : recover bytes config = .ok program) : program.Canonical := by
  obtain ⟨visited, finished, stage, empty, rfl⟩ := stage_of_recover recovered
  have distinct : ∀ pc, (finished.program.successors pc).Nodup := by
    intro pc
    unfold successors
    split
    · next block found =>
        obtain ⟨site, known, rfl⟩ := Recovery.known_of_block? found
        exact Block.nodup_successors (stage.ascending known)
    · exact List.nodup_nil
  refine ⟨pairwise_positions _, mem_positions_iff _, distinct, nodup_subjects distinct, ?_⟩
  intro source target edge
  have sent := edge_mem_events_iff.mp edge
  simp only [node_mem_events_iff]
  constructor
  · exact exists_block_of_mem_successors sent
  · obtain ⟨visit, member, -, successor, sends, rfl⟩ := (stage.mem_successors_iff empty).mp sent
    exact (stage.lands_of_sends member sends).2

end Program

end EvmAtlas
