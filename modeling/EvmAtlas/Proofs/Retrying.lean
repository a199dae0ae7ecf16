import EvmAtlas.Chain.Faulty
import EvmAtlas.Proofs.Overlaying

/-!
# Commits that are tried again

A commit performs the writes of an overlay one after the other and gives up at the first one
that fails. The set that it writes to is then left somewhere between its old answers and those
of the overlay. `Records.Between` is what every failed attempt leaves behind and every further
one starts from. The answers of the overlay over the set are the same all along, and they are
those of the set itself once a commit has succeeded.

The set is seen through a `Relay`. It decides for each write whether to let it through, by
anything that it remembers, so that a commit may fail at any write.
-/

namespace EvmAtlas

variable {ρ : Type}

/-- A layer in front of a state set that passes reads and writes on, but may make any write
fail without effect. It has a memory of its own, which every read and write may change. -/
structure Relay (ρ : Type) where
  /-- What the layer remembers after a read. -/
  afterRead : Question → StateSet × ρ → ρ
  /-- Whether the layer lets a write through, and what it remembers afterwards. -/
  allow : Write → StateSet × ρ → Except Fault Unit × ρ

namespace Relay

/-- The writes of the state set, as far as they are let through. -/
def writer (relay : Relay ρ) : ChainWriter (StateSet × ρ) :=
  .ofPerform fun write state =>
    match relay.allow write state with
    | (.ok (), memory) => (.ok (), (state.1.write write, memory))
    | (.error fault, memory) => (.error fault, (state.1, memory))

/-- The chain of a state set behind a layer. -/
def chain (relay : Relay ρ) : Chain (StateSet × ρ) :=
  .ofAsk (fun question state =>
    (.ok (state.1.answer question), (state.1, relay.afterRead question state)))
    (some relay.writer)

variable {relay : Relay ρ}

theorem ask_chain (relay : Relay ρ) (question : Question) (state : StateSet × ρ) :
    relay.chain.ask question state =
      (.ok (state.1.answer question), (state.1, relay.afterRead question state)) :=
  congrFun (Chain.ask_ofAsk _ _ question) state

/-- Some first writes reach the set, and all of them if none fails. -/
theorem performAll_cases (relay : Relay ρ) (writes : List Write) (state : StateSet × ρ) :
    let done := relay.writer.performAll writes state
    ∃ performed rest, writes = performed ++ rest ∧
      done.2.1 = performed.foldl StateSet.write state.1 ∧ (done.1 = .ok () → rest = []) := by
  induction writes generalizing state with
  | nil => exact ⟨[], [], rfl, rfl, fun _ => rfl⟩
  | cons write rest ih =>
      rw [ChainWriter.performAll, Access.bind, writer, ChainWriter.perform_ofPerform, ← writer]
      cases allowed : relay.allow write state with
      | mk outcome memory =>
          cases outcome with
          | error fault =>
              refine ⟨[], write :: rest, rfl, rfl, ?_⟩
              intro succeeds
              cases succeeds
          | ok =>
              obtain ⟨performed, left, rfl, reached, complete⟩ :=
                ih (state.1.write write, memory)
              exact ⟨write :: performed, left, rfl, reached, complete⟩

/-- The layer that counts every operation and lets all writes fail but those of the operations
that work. -/
def faulty : Relay Faulty where
  afterRead _ state := { state.2 with calls := state.2.calls + 1 }
  allow write state :=
    if write.operation ∈ state.2.failures.operations then
      (.error (.ofText "unavailable"), { state.2 with calls := state.2.calls + 1 })
    else (.ok (), { state.2 with calls := state.2.calls + 1 })

/-- A faulty chain in front of a state set writes as a relay. -/
theorem writer_faulty :
    (Faulty.chain .second (StateSet.chain .first)).writer = some faulty.writer := by
  rw [Faulty.chain, writer]
  apply congrArg some
  apply congrArg ChainWriter.ofPerform
  funext write state
  by_cases chosen : write.operation ∈ state.2.failures.operations
  · simp [Faulty.attempt, faulty, Slot.second, chosen]
  · simp [Faulty.attempt, Faulty.pass, StateSet.chain, StateSet.perform_writer, faulty,
      Slot.first, Slot.second, Slot.modify, chosen]

end Relay

/-! ## Answers between two views -/

namespace Records

variable {records : Records} {before middle after : View}

/-- Whether some answers come about when a part of some records is written over others. -/
def Between (records : Records) (before after : View) : Prop :=
  ∀ question, after question = before question ∨
    records.find? question = some (after question)

theorem Between.refl (records : Records) (view : View) : records.Between view view :=
  fun _ => .inl rfl

theorem Between.trans (first : records.Between before middle)
    (second : records.Between middle after) : records.Between before after := by
  intro question
  rcases second question with same | written
  · rw [same]
    exact first question
  · exact .inr written

/-- The records hide what was written of them already. -/
theorem Between.atop_eq (between : records.Between before after) :
    records.atop after = records.atop before := by
  funext question
  rw [atop, atop]
  cases found : records.find? question with
  | some answer => rfl
  | none =>
      rcases between question with same | written
      · exact same
      · rw [found] at written
        cases written

end Records

/-- What the first of some distinct writes say no later one takes back. -/
theorem Distinct.lastWritten?_append {question : Question} {first rest : List Write}
    {answer : question.Answer} (distinct : Distinct (first ++ rest))
    (last : lastWritten? question first = some answer) :
    lastWritten? question (first ++ rest) = some answer := by
  have firstDistinct : Distinct first := (List.pairwise_append.mp distinct).1
  obtain ⟨write, member, written⟩ := (firstDistinct.lastWritten?_eq_some_iff answer).mp last
  exact (distinct.lastWritten?_eq_some_iff answer).mpr
    ⟨write, List.mem_append_left rest member, written⟩

theorem Records.Order.distinct_writes (order : Records.Order) (records : Records) :
    Distinct (order.writes records) :=
  (order.perm records).symm.pairwise records.distinct_writes Ne.symm

/-- A set that has received some first writes of an overlay. -/
theorem StateSet.between_foldl_write {order : Records.Order} {records : Records}
    {performed rest : List Write} (split : order.writes records = performed ++ rest)
    (set : StateSet) :
    records.Between set.answer (performed.foldl StateSet.write set).answer := by
  intro question
  rw [answer_foldl_write]
  cases last : lastWritten? question performed with
  | none => exact .inl rfl
  | some answer =>
      right
      have distinct := order.distinct_writes records
      rw [split] at distinct
      rw [← order.lastWritten?_writes, split, distinct.lastWritten?_append last]
      rfl

/-- A set that has received all writes of an overlay answers as the overlay over it did. -/
theorem StateSet.answer_foldl_writes (order : Records.Order) (records : Records)
    (set : StateSet) :
    ((order.writes records).foldl StateSet.write set).answer = records.atop set.answer := by
  funext question
  rw [answer_foldl_write, order.lastWritten?_writes, Records.atop]

/-! ## Attempts -/

namespace Overlaid

variable {relay : Relay ρ} {first state : Overlaid (StateSet × ρ)}

/-- What an overlay over a set answers. -/
def view (state : Overlaid (StateSet × ρ)) : View :=
  state.records.atop state.base.1.answer

/-- Commit an overlay to a state set behind a layer. -/
def commitTo (relay : Relay ρ) (order : Records.Order) : Access (Overlaid (StateSet × ρ)) Unit :=
  Overlay.commitBy order slot (outside relay.writer)

/-- The states of an overlay and of a state set behind a layer while no commit succeeds. In
between the memory of the layer may change in any way, by reads or because it is repaired. -/
inductive Stalled (relay : Relay ρ) (first : Overlaid (StateSet × ρ)) :
    Overlaid (StateSet × ρ) → Prop where
  | start : Stalled relay first first
  | attempt {state next : Overlaid (StateSet × ρ)} {order : Records.Order} {fault : Fault}
      (before : Stalled relay first state)
      (failed : commitTo relay order state = (.error fault, next)) : Stalled relay first next
  | change {state : Overlaid (StateSet × ρ)} (before : Stalled relay first state)
      (memory : ρ) : Stalled relay first { state with base := (state.base.1, memory) }

/-- What a commit makes of the overlay and the set. -/
theorem commitTo_cases (relay : Relay ρ) (order : Records.Order)
    (state : Overlaid (StateSet × ρ)) :
    let (outcome, after) := commitTo relay order state
    outcome = (relay.writer.performAll (order.writes state.records) state.base).1 ∧
      (∀ fault, outcome = .error fault → after.records = state.records ∧
        state.records.Between state.base.1.answer after.base.1.answer) ∧
      (outcome = .ok () → after.records = {} ∧ after.base.1.answer = state.view) := by
  rw [commitTo, commitBy_outside]
  obtain ⟨performed, rest, split, reached, complete⟩ :=
    relay.performAll_cases (order.writes state.records) state.base
  generalize relay.writer.performAll (order.writes state.records) state.base = done at *
  obtain ⟨outcome, after⟩ := done
  dsimp only at reached complete ⊢
  refine ⟨rfl, ?_, ?_⟩
  · rintro fault rfl
    refine ⟨rfl, ?_⟩
    rw [reached]
    exact StateSet.between_foldl_write split state.base.1
  · rintro rfl
    rw [complete rfl, List.append_nil] at split
    rw [reached, ← split]
    exact ⟨rfl, StateSet.answer_foldl_writes order state.records state.base.1⟩

/-- Nothing that was written is lost while commits fail, and nothing else appears in the
set. -/
theorem Stalled.keeps (stalled : Stalled relay first state) :
    state.records = first.records ∧
      first.records.Between first.base.1.answer state.base.1.answer := by
  induction stalled with
  | start => exact ⟨rfl, .refl _ _⟩
  | @attempt state next order fault _ failed ih =>
      have attempted := commitTo_cases relay order state
      rw [failed] at attempted
      obtain ⟨kept, between⟩ := attempted.2.1 fault rfl
      rw [ih.1] at kept between
      exact ⟨kept, ih.2.trans between⟩
  | change _ _ ih => exact ih

theorem Stalled.view_eq (stalled : Stalled relay first state) : state.view = first.view := by
  obtain ⟨kept, between⟩ := stalled.keeps
  rw [view, kept, between.atop_eq, ← view]

theorem answer_commitBy_stateSet (order : Records.Order) (state : Overlaid (StateSet × ρ)) :
    (Overlay.commitBy order slot (outside (StateSet.writer .first)) state).2.base.1.answer =
      state.view := by
  rw [commitBy_outside, StateSet.performAll_writer]
  exact StateSet.answer_foldl_writes order state.records state.base.1

/-- An overlay over the set behind a layer answers with its view. -/
theorem ask_chain_relay (relay : Relay ρ) (state : Overlaid (StateSet × ρ))
    (question : Question) :
    ((chain relay.chain).ask question state).1 = .ok (state.view question) := by
  rw [view, Records.atop]
  cases found : state.records.find? question with
  | some answer =>
      have written : (chain relay.chain).ask question state = (.ok answer, state) :=
        Overlay.ask_of_written found
      rw [written]
      rfl
  | none =>
      rw [ask_of_unrecorded found, Relay.ask_chain]
      rfl

end Overlaid

/-- A failed commit can be tried again. While commits to a state set fail, at any write and in
any order of the writes, the overlay keeps what was written to it, and the set answers every
question as before or as the overlay, and only as before what was not written. A later commit
of which no write fails succeeds in any order. It empties the overlay, and the set then answers
as if the overlay had been committed to it at once. If the set is the base of the overlay, the
overlay answers the same all along. -/
theorem failed_commit_retried (relay : Relay ρ) {first state : Overlaid (StateSet × ρ)}
    (stalled : Overlaid.Stalled relay first state) :
    let overlay := Overlaid.chain relay.chain
    state.records = first.records ∧
    (∀ question,
      (relay.chain.ask question state.base).1 = (relay.chain.ask question first.base).1 ∨
      ∃ answer, first.records.find? question = some answer ∧
        (relay.chain.ask question state.base).1 = .ok answer) ∧
    (∀ question, (overlay.ask question state).1 = (overlay.ask question first).1) ∧
    ∀ order, (relay.writer.performAll (order.writes state.records) state.base).1 = .ok () →
      let (outcome, after) := Overlaid.commitTo relay order state
      outcome = .ok () ∧ after.records = {} ∧
      (∀ uninterrupted question, (relay.chain.ask question after.base).1 =
        ((StateSet.chain .first).ask question (Overlay.commitBy uninterrupted Overlaid.slot
          (Overlaid.outside (StateSet.writer .first)) first).2.base).1) ∧
      ∀ question, (overlay.ask question after).1 = (overlay.ask question first).1 := by
  intro overlay
  obtain ⟨kept, between⟩ := stalled.keeps
  refine ⟨kept, ?_, ?_, ?_⟩
  · intro question
    rw [Relay.ask_chain, Relay.ask_chain]
    rcases between question with same | written
    · exact .inl (congrArg Except.ok same)
    · exact .inr ⟨_, written, rfl⟩
  · intro question
    rw [Overlaid.ask_chain_relay, Overlaid.ask_chain_relay, stalled.view_eq]
  · intro order succeed
    have committed := Overlaid.commitTo_cases relay order state
    generalize Overlaid.commitTo relay order state = done at committed ⊢
    obtain ⟨outcome, after⟩ := done
    obtain ⟨outcome_eq, -, success⟩ := committed
    rw [succeed] at outcome_eq
    obtain ⟨empty, answers⟩ := success outcome_eq
    rw [stalled.view_eq] at answers
    refine ⟨outcome_eq, empty, ?_, ?_⟩
    · intro uninterrupted question
      have atOnce := congrFun (Overlaid.answer_commitBy_stateSet uninterrupted first) question
      rw [Relay.ask_chain, StateSet.ask_chain, answers]
      exact congrArg Except.ok atOnce.symm
    · intro question
      rw [Overlaid.ask_chain_relay, Overlaid.ask_chain_relay, Overlaid.view, empty,
        Records.atop_empty, answers]

/-- A nonce and a storage slot were written to an overlay. Below it is an empty set behind a
layer that lets writes to storage fail. -/
def halfCommitted : Overlaid (StateSet × Faulty) where
  base := ({}, { failures := { operations := [.setStorage] } })
  records := (({} : Records).note (.nonce 1 5)).note (.storage 1 2 3)

/-- The first commit writes the nonce and then fails. Once the layer is repaired, the second
one writes the slot as well. -/
theorem halfCommitted_retried :
    let ask (question : Question) (state : Overlaid (StateSet × Faulty)) :=
      (Relay.faulty.chain.ask question state.base).1
    let failed := (Overlaid.commitTo .faulty .ascending halfCommitted).2
    let repaired := { failed with base := (failed.base.1, ({} : Faulty)) }
    let done := Overlaid.commitTo .faulty .ascending repaired
    (ask (.nonce 1) failed = .ok 5 ∧ ask (.storage 1 2) failed = .ok 0) ∧
      ((Overlaid.chain Relay.faulty.chain).ask (.storage 1 2) failed).1 = .ok 3 ∧
      done.1 = .ok () ∧ done.2.records = {} ∧
      ask (.nonce 1) done.2 = .ok 5 ∧ ask (.storage 1 2) done.2 = .ok 3 := by
  intro ask failed repaired done
  have fails : Overlaid.commitTo .faulty .ascending halfCommitted =
      (.error (.ofText "unavailable"), failed) := rfl
  have stalled : Overlaid.Stalled .faulty halfCommitted repaired :=
    .change (.attempt .start fails) {}
  obtain ⟨-, -, answers, retry⟩ := failed_commit_retried .faulty stalled
  obtain ⟨succeeds, empty, asked, -⟩ := retry .ascending rfl
  refine ⟨⟨rfl, rfl⟩, ?_, succeeds, empty, ?_, ?_⟩
  · exact (answers (.storage 1 2)).trans rfl
  · exact (asked .ascending (.nonce 1)).trans rfl
  · exact (asked .ascending (.storage 1 2)).trans rfl

end EvmAtlas
