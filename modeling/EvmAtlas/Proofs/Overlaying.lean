import EvmAtlas.Proofs.Answers

/-!
# An overlay as its base and its writes

An overlay shows the writes made to it in front of a base that it never writes to. `Overlaid`
keeps the state of the world in which the base lives beside the writes of the overlay, and
`Overlaid.Holds` says that the overlay holds the writes made since the last commit that
succeeded, and nothing else. A commit performs what the overlay holds, in whatever order,
since no two of the writes it holds answer the same question.
-/

namespace EvmAtlas

variable {σ : Type}

/-- The answer that a write gives to a question, if it is about it. -/
def Write.answer? (write : Write) (question : Question) : Option question.Answer :=
  if same : write.question = question then some (same ▸ write.answer) else none

/-- The answer that some writes give to a question last. -/
def lastWritten? (question : Question) : List Write → Option question.Answer
  | [] => none
  | write :: rest => (lastWritten? question rest).or (write.answer? question)

namespace Write

theorem answer?_question (write : Write) : write.answer? write.question = some write.answer := by
  rw [answer?, dif_pos rfl]

theorem answer?_of_ne {write : Write} {question : Question}
    (apart : question ≠ write.question) : write.answer? question = none := by
  rw [answer?, dif_neg (Ne.symm apart)]

theorem question_of_answer? {write : Write} {question : Question} {answer : question.Answer}
    (written : write.answer? question = some answer) : write.question = question := by
  by_contra apart
  rw [answer?_of_ne (Ne.symm apart)] at written
  cases written

/-- A write and the question that it answers, as a change of a function on questions. -/
theorem update_eq {answer : (question : Question) → Option question.Answer} (write : Write)
    (question : Question) :
    Function.update answer write.question (some write.answer) question =
      (write.answer? question).or (answer question) := by
  by_cases same : question = write.question
  · subst same
    rw [Function.update_self, answer?_question, Option.some_or]
  · rw [Function.update_of_ne same, answer?_of_ne same, Option.none_or]

end Write

theorem lastWritten?_concat (question : Question) (writes : List Write) (last : Write) :
    lastWritten? question (writes ++ [last]) =
      (last.answer? question).or (lastWritten? question writes) := by
  induction writes with
  | nil => simp [lastWritten?]
  | cons first rest ih => rw [List.cons_append, lastWritten?, ih, lastWritten?, Option.or_assoc]

theorem eq_nil_iff_unwritten (writes : List Write) :
    writes = [] ↔ ∀ question, lastWritten? question writes = none := by
  constructor
  · rintro rfl question
    rfl
  · intro unwritten
    cases writes with
    | nil => rfl
    | cons first rest =>
        have none_of_first := (Option.or_eq_none_iff.mp (unwritten first.question)).2
        rw [Write.answer?_question] at none_of_first
        cases none_of_first

theorem StateSet.answer_foldl_write (writes : List Write) (set : StateSet)
    (question : Question) :
    (writes.foldl StateSet.write set).answer question =
      (lastWritten? question writes).getD (set.answer question) := by
  induction writes generalizing set with
  | nil => rfl
  | cons first rest ih =>
      rw [List.foldl_cons, ih, answer_write, View.write, lastWritten?]
      cases lastWritten? question rest with
      | some answer => rfl
      | none =>
          by_cases same : question = first.question
          · subst same
            rw [Function.update_self, Write.answer?_question]
            rfl
          · rw [Function.update_of_ne same, Write.answer?_of_ne same]
            rfl

theorem StateSet.ask_of_written {ρ : Type} {set after : StateSet} {writes : List Write}
    {question : Question}
    (written : after.answer question =
      (lastWritten? question writes).getD (set.answer question)) (rest : ρ) :
    ((chain .first).ask question (after, rest)).1 =
      (lastWritten? question writes).elim ((chain .first).ask question (set, rest)).1 .ok := by
  rw [ask_chain, ask_chain]
  change Except.ok (after.answer question) = _
  rw [written]
  cases lastWritten? question writes with
  | none => rfl
  | some answer => rfl

/-- Writes of which no two answer the same question. -/
def Distinct (writes : List Write) : Prop :=
  writes.Pairwise fun left right => left.question ≠ right.question

namespace Distinct

variable {writes : List Write} {question : Question}

theorem lastWritten?_eq_some_iff (distinct : Distinct writes) (answer : question.Answer) :
    lastWritten? question writes = some answer ↔
      ∃ write ∈ writes, write.answer? question = some answer := by
  induction writes generalizing answer with
  | nil => simp [lastWritten?]
  | cons first rest ih =>
      obtain ⟨apart, distinct⟩ := List.pairwise_cons.mp distinct
      rw [lastWritten?, List.exists_mem_cons_iff, ← ih distinct]
      cases own : first.answer? question with
      | none => simp
      | some value =>
          have unwritten : lastWritten? question rest = none := by
            apply Option.eq_none_iff_forall_ne_some.mpr
            intro other last
            obtain ⟨write, member, written⟩ := (ih distinct other).mp last
            apply apart write member
            rw [Write.question_of_answer? own, Write.question_of_answer? written]
          simp [unwritten]

/-- The order of distinct writes does not matter. -/
theorem lastWritten?_perm (distinct : Distinct writes) {other : List Write}
    (perm : other.Perm writes) : lastWritten? question other = lastWritten? question writes := by
  have otherDistinct : Distinct other := perm.symm.pairwise distinct Ne.symm
  apply Option.ext
  intro answer
  rw [distinct.lastWritten?_eq_some_iff, otherDistinct.lastWritten?_eq_some_iff]
  simp only [perm.mem_iff]

theorem map_toList {κ β : Type} {order : κ → κ → Ordering} [Std.TransCmp order]
    (entries : Std.TreeMap κ β order) {make : κ × β → Write}
    (injective : ∀ left right, (make left).question = (make right).question → left.1 = right.1) :
    Distinct (entries.toList.map make) := by
  apply List.pairwise_map.mpr
  apply Std.TreeMap.distinct_keys_toList.imp
  intro left right apart same
  apply apart
  rw [injective left right same]
  exact Std.ReflCmp.compare_self

end Distinct

namespace Records

theorem mem_writes_iff {records : Records} {write : Write} :
    write ∈ records.writes ↔ records.find? write.question = some write.answer := by
  cases write with
  | nonce | balance | code | storage =>
      simp [writes, find?, Write.question, Write.answer]

theorem distinct_writes (records : Records) : Distinct records.writes := by
  simp only [writes, Distinct, List.pairwise_append]
  refine ⟨⟨⟨?nonces, ?balances, ?_⟩, ?codes, ?_⟩, ?storage, ?_⟩
  case nonces | balances | codes =>
    apply Distinct.map_toList
    simp [Write.question]
  case storage =>
    apply Distinct.map_toList
    rintro ⟨⟨address, slot⟩, value⟩ ⟨⟨other, key⟩, later⟩
    simp [Write.question]
  all_goals
    intro left member right later
    simp only [List.mem_append, List.mem_map] at member later
    grind [Write.question]

/-- What is recorded could have been written. -/
theorem exists_write {records : Records} {question : Question} {answer : question.Answer}
    (found : records.find? question = some answer) :
    ∃ write : Write, write.answer? question = some answer := by
  cases question with
  | block => cases found
  | nonce address => exact ⟨.nonce address answer, Write.answer?_question _⟩
  | balance address =>
      obtain ⟨balance, -, rfl⟩ := Option.map_eq_some_iff.mp found
      exact ⟨.balance address balance, Write.answer?_question _⟩
  | code address => exact ⟨.code address answer, Write.answer?_question _⟩
  | storage address slot => exact ⟨.storage address slot answer, Write.answer?_question _⟩

/-- The writes of some records say what the records say. -/
theorem lastWritten?_writes (records : Records) (question : Question) :
    lastWritten? question records.writes = records.find? question := by
  apply Option.ext
  intro answer
  rw [records.distinct_writes.lastWritten?_eq_some_iff]
  constructor
  · rintro ⟨write, member, written⟩
    obtain rfl := Write.question_of_answer? written
    rw [mem_writes_iff.mp member, ← Write.answer?_question, written]
  · intro found
    obtain ⟨write, written⟩ := exists_write found
    refine ⟨write, ?_, written⟩
    obtain rfl := Write.question_of_answer? written
    rw [mem_writes_iff, found, ← Write.answer?_question, written]

theorem isEmpty_iff (records : Records) : records.isEmpty = true ↔ records.writes = [] := by
  simp only [isEmpty, writes, Bool.and_eq_true, List.append_eq_nil_iff, List.map_eq_nil_iff,
    ← Std.TreeMap.isEmpty_toList, List.isEmpty_iff]

/-- A way to go through records: for all records, their writes in some order. -/
structure Order where
  writes : Records → List Write
  perm : ∀ records, (writes records).Perm records.writes

/-- The order of nonces, balances, codes and storage, by address and slot. -/
def Order.ascending : Order where
  writes := Records.writes
  perm _ := .refl _

theorem Order.lastWritten?_writes (order : Order) (records : Records) (question : Question) :
    lastWritten? question (order.writes records) = records.find? question := by
  rw [records.distinct_writes.lastWritten?_perm (order.perm records),
    Records.lastWritten?_writes]

end Records

/-- Commit an overlay, with its writes in a given order. -/
def Overlay.commitBy (order : Records.Order) (slot : Slot σ Records) (target : ChainWriter σ) :
    Access σ Unit :=
  fun state =>
    match target.performAll (order.writes (slot.get state)) state with
    | (.ok (), after) => (.ok (), slot.set {} after)
    | (.error fault, after) => (.error fault, after)

theorem Overlay.commit_eq (slot : Slot σ Records) (target : ChainWriter σ) :
    commit slot target = commitBy .ascending slot target :=
  rfl

theorem StateSet.performAll_writer {ρ : Type} (writes : List Write) (state : StateSet × ρ) :
    (writer .first).performAll writes state =
      (.ok (), (writes.foldl StateSet.write state.1, state.2)) := by
  induction writes generalizing state with
  | nil => rfl
  | cons write rest ih =>
      rw [ChainWriter.performAll, Access.bind, perform_writer]
      exact ih _

/-- The state of a world, the writes of an overlay over a chain in it, and the writes that
were made to the overlay since it was new or last committed. -/
structure Overlaid (σ : Type) where
  base : σ
  records : Records := {}
  pending : List Write := []

/-- Something that happens to an overlay or to the world around it. -/
inductive Event (σ : Type) where
  | read (question : Question)
  | write (write : Write)
  | commit (order : Records.Order) (target : ChainWriter σ)
  | change (change : σ → σ)

namespace Overlaid

def slot : Slot (Overlaid σ) Records where
  get state := state.records
  set records state := { state with records }

/-- Writes to the world around the overlay. -/
def outside (writer : ChainWriter σ) : ChainWriter (Overlaid σ) :=
  .ofPerform fun write state =>
    let (outcome, after) := writer.perform write state.base
    (outcome, { state with base := after })

/-- The chain below the overlay. -/
def below (base : Chain σ) : Chain (Overlaid σ) :=
  .ofAsk (fun question state =>
    let (answer, after) := base.ask question state.base
    (answer, { state with base := after })) (base.writer.map outside)

def chain (base : Chain σ) : Chain (Overlaid σ) :=
  Overlay.chain slot (below base)

/-- What an event makes of an overlay. -/
def step (base : Chain σ) (state : Overlaid σ) : Event σ → Overlaid σ
  | .read question => ((chain base).ask question state).2
  | .write write =>
      let after := (Overlay.keep slot write state).2
      { after with pending := after.pending ++ [write] }
  | .commit order target =>
      match Overlay.commitBy order slot (outside target) state with
      | (.ok (), after) => { after with pending := [] }
      | (.error _, after) => after
  | .change change => { state with base := change state.base }

/-- Some events, one after the other. -/
def run (base : Chain σ) (events : List (Event σ)) (state : Overlaid σ) : Overlaid σ :=
  events.foldl (step base) state

/-- An overlay that holds the pending writes. -/
def Holds (state : Overlaid σ) : Prop :=
  ∀ question, state.records.find? question = lastWritten? question state.pending

variable {base : Chain σ} {state : Overlaid σ} {question : Question}

theorem Holds.ask_of_written (holds : state.Holds) {answer : question.Answer}
    (written : lastWritten? question state.pending = some answer) :
    (chain base).ask question state = (.ok answer, state) :=
  Overlay.ask_of_written ((holds question).trans written)

/-- What the overlay does not hold is asked of the base. -/
theorem ask_of_unrecorded (unrecorded : state.records.find? question = none) :
    (chain base).ask question state =
      ((base.ask question state.base).1,
        { state with base := (base.ask question state.base).2 }) :=
  (Overlay.ask_of_unwritten unrecorded).trans (congrFun (Chain.ask_ofAsk _ _ question) state)

theorem Holds.ask_of_unwritten (holds : state.Holds)
    (unwritten : lastWritten? question state.pending = none) :
    (chain base).ask question state =
      ((base.ask question state.base).1,
        { state with base := (base.ask question state.base).2 }) :=
  ask_of_unrecorded ((holds question).trans unwritten)

theorem performAll_outside (writer : ChainWriter σ) (writes : List Write)
    (state : Overlaid σ) :
    (outside writer).performAll writes state =
      ((writer.performAll writes state.base).1,
        { state with base := (writer.performAll writes state.base).2 }) := by
  induction writes generalizing state with
  | nil => rfl
  | cons write rest ih =>
      rw [ChainWriter.performAll, ChainWriter.performAll, Access.bind, Access.bind, outside,
        ChainWriter.perform_ofPerform, ← outside]
      dsimp only
      generalize writer.perform write state.base = outcome
      obtain ⟨outcome, after⟩ := outcome
      cases outcome with
      | ok => exact ih _
      | error fault => rfl

/-- A commit to a target outside performs the writes there. If all succeed, the overlay is
empty, and if not it stays as it is. -/
theorem commitBy_outside (order : Records.Order) (writer : ChainWriter σ)
    (state : Overlaid σ) :
    let done := writer.performAll (order.writes state.records) state.base
    Overlay.commitBy order slot (outside writer) state =
      (done.1, { state with
        base := done.2
        records := match done.1 with
          | .ok () => {}
          | .error _ => state.records }) := by
  rw [Overlay.commitBy, performAll_outside]
  dsimp only [slot]
  generalize writer.performAll (order.writes state.records) state.base = done
  obtain ⟨outcome, after⟩ := done
  cases outcome with
  | ok => rfl
  | error fault => rfl

theorem holds_start (start : σ) : Holds ({ base := start } : Overlaid σ) :=
  Records.find?_empty

/-- Every event keeps an overlay in step with the pending writes. -/
theorem Holds.step (holds : state.Holds) (base : Chain σ) (event : Event σ) :
    Holds (Overlaid.step base state event) := by
  cases event with
  | read question =>
      cases last : lastWritten? question state.pending with
      | some answer =>
          rw [Overlaid.step, holds.ask_of_written last]
          exact holds
      | none =>
          rw [Overlaid.step, holds.ask_of_unwritten last]
          exact holds
  | write write =>
      intro question
      change (state.records.note write).find? question =
        lastWritten? question (state.pending ++ [write])
      rw [Records.find?_note, Write.update_eq, lastWritten?_concat, holds]
  | commit order target =>
      rw [Overlaid.step, commitBy_outside]
      generalize target.performAll (order.writes state.records) state.base = done
      obtain ⟨outcome, after⟩ := done
      cases outcome with
      | ok => exact holds_start after
      | error fault => exact holds
  | change change => exact holds

theorem Holds.run (holds : state.Holds) (base : Chain σ) (events : List (Event σ)) :
    Holds (Overlaid.run base events state) := by
  induction events generalizing state with
  | nil => exact holds
  | cons event rest ih => exact ih (holds.step base event)

theorem Holds.isDirty_iff (holds : state.Holds) :
    Overlay.isDirty slot state = true ↔ state.pending ≠ [] := by
  have empty : state.records.isEmpty = true ↔ state.pending = [] := by
    rw [Records.isEmpty_iff, eq_nil_iff_unwritten, eq_nil_iff_unwritten]
    simp only [Records.lastWritten?_writes, holds _]
  change (!state.records.isEmpty) = true ↔ _
  rw [Bool.not_eq_true', ← Bool.not_eq_true, empty]

/-- After a commit to a state set, the set answers the pending writes, and all else as
before. -/
theorem Holds.commitBy_stateSet {ρ : Type} {state : Overlaid (StateSet × ρ)}
    (holds : state.Holds) (order : Records.Order) :
    ∃ after, Overlay.commitBy order slot (outside (StateSet.writer .first)) state =
        (.ok (), { state with base := (after, state.base.2), records := {} }) ∧
      ∀ question, after.answer question =
        (lastWritten? question state.pending).getD (state.base.1.answer question) := by
  refine ⟨(order.writes state.records).foldl StateSet.write state.base.1, ?_, ?_⟩
  · rw [commitBy_outside, StateSet.performAll_writer]
  · intro question
    rw [StateSet.answer_foldl_write, order.lastWritten?_writes, holds]

end Overlaid

/-- An overlay is its base and the writes to it. After any reads, writes, commits and changes
of the world around it, a read answers what was written last for its question since the
overlay was new or a commit last succeeded, and leaves everything as it is. What was not
written is asked of the base, and nothing but such a read changes the base: a write is only
noted, and the overlay would be the same over a base that accepts no writes. The overlay is
dirty if there was a write since then. A commit to a state set succeeds in whatever order the
writes are gone through and empties the overlay. The set then answers what was written, and
all else as before. If the set is the base itself, the commit changes no answer of the
overlay. -/
theorem overlay_is_base_with_writes {ρ : Type} (base : Chain (StateSet × ρ))
    (start : StateSet × ρ) (events : List (Event (StateSet × ρ))) :
    let state := Overlaid.run base events { base := start }
    let overlay := Overlaid.chain base
    let target : Chain (StateSet × ρ) := StateSet.chain .first
    (∀ question,
      (∀ answer, lastWritten? question state.pending = some answer →
        overlay.ask question state = (.ok answer, state)) ∧
      (lastWritten? question state.pending = none →
        overlay.ask question state =
          ((base.ask question state.base).1,
            { state with base := (base.ask question state.base).2 }))) ∧
    (∀ write, ∃ writer ∈ overlay.writer, writer.perform write state =
      (.ok (), { state with records := state.records.note write })) ∧
    overlay = Overlaid.chain { base with writer := none } ∧
    (Overlay.isDirty Overlaid.slot state = true ↔ state.pending ≠ []) ∧
    ∀ order,
      let (outcome, after) := Overlay.commitBy order Overlaid.slot
        (Overlaid.outside (StateSet.writer .first)) state
      outcome = .ok () ∧ after.records = {} ∧ after.base.2 = state.base.2 ∧
      (∀ question, (target.ask question after.base).1 =
        (lastWritten? question state.pending).elim (target.ask question state.base).1 .ok) ∧
      (base = target → ∀ question,
        (overlay.ask question after).1 = (overlay.ask question state).1) := by
  intro state overlay target
  have holds : state.Holds := (Overlaid.holds_start start).run base events
  refine ⟨?_, ?_, rfl, holds.isDirty_iff, ?_⟩
  · intro question
    exact ⟨fun answer written => holds.ask_of_written written, holds.ask_of_unwritten⟩
  · intro write
    exact ⟨_, rfl, congrFun (ChainWriter.perform_ofPerform _ write) state⟩
  · intro order
    obtain ⟨after, committed, answers⟩ := holds.commitBy_stateSet order
    rw [committed]
    have asked (question : Question) :=
      StateSet.ask_of_written (answers question) state.base.2
    refine ⟨rfl, rfl, rfl, asked, ?_⟩
    rintro rfl question
    dsimp only [overlay]
    rw [Overlaid.ask_of_unrecorded (Records.find?_empty question)]
    refine (asked question).trans ?_
    cases last : lastWritten? question state.pending with
    | none => rw [holds.ask_of_unwritten last, Option.elim_none]
    | some answer => rw [holds.ask_of_written last, Option.elim_some]

end EvmAtlas
