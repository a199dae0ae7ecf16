import EvmAtlas.Chain.Overlay
import EvmAtlas.Chain.ReadCache
import EvmAtlas.Proofs.Question
import EvmAtlas.Proofs.Retention

/-!
# The answers of layers

The answers of a state set are a function on questions, and a write to it updates that function
at one point. For each kind of layer there is one statement about all questions.
-/

namespace EvmAtlas

variable {σ τ : Type}

theorem Chain.Alike.of_ask {related : σ → τ → Prop} {left : Chain σ} {right : Chain τ}
    (asked : ∀ question, Access.Alike related (left.ask question) (right.ask question))
    (written : Option.Rel (fun left right =>
      ∀ write, Access.Alike related (left.perform write) (right.perform write))
      left.writer right.writer) :
    Chain.Alike related left right where
  block := asked .block
  nonce address := asked (.nonce address)
  balance address := asked (.balance address)
  code address := asked (.code address)
  storage address slot := asked (.storage address slot)
  writer := written

namespace Records

/-- What some records say about a question. -/
def find? (records : Records) : (question : Question) → Option question.Answer
  | .block => none
  | .nonce address => records.nonces[address]?
  | .balance address => records.balances[address]?.map some
  | .code address => records.codes[address]?
  | .storage address slot => records.storage[(address, slot)]?

theorem find?_empty (question : Question) : ({} : Records).find? question = none := by
  cases question with
  | block | nonce | balance | code | storage => simp [find?]

theorem find?_note (records : Records) (write : Write) :
    (records.note write).find? =
      Function.update records.find? write.question (some write.answer) := by
  funext question
  by_cases same : question = write.question
  · subst same
    rw [Function.update_self]
    cases write with
    | nonce | balance | code | storage => simp [note, find?, Write.question, Write.answer]
  · rw [Function.update_of_ne same]
    cases write with
    | nonce | balance | code | storage =>
        cases question with
        | block | nonce | balance | code | storage =>
            simp_all [note, find?, Write.question, Std.TreeMap.getElem?_insert, Ne.symm]

/-- The answers of some records, and of a view where they say nothing. -/
def atop (records : Records) (below : View) : View :=
  fun question => (records.find? question).getD (below question)

theorem atop_empty (below : View) : ({} : Records).atop below = below := by
  funext question
  rw [atop, find?_empty, Option.getD_none]

theorem atop_note (records : Records) (below : View) (write : Write) :
    (records.note write).atop below = View.write (records.atop below) write := by
  funext question
  rw [atop, find?_note, View.write]
  by_cases same : question = write.question
  · subst same
    rw [Function.update_self, Function.update_self, Option.getD_some]
  · rw [Function.update_of_ne same, Function.update_of_ne same, atop]

end Records

namespace StateSet

def answer (set : StateSet) : View
  | .block => set.block.getD {}
  | .nonce address => (set.account address).nonce
  | .balance address => some (set.account address).balance
  | .code address => (set.account address).code
  | .storage address slot => set.storageAt address slot

def write (set : StateSet) : Write → StateSet
  | .nonce address nonce => set.setNonce address nonce
  | .balance address balance => set.setBalance address balance
  | .code address code => set.setCode address code
  | .storage address slot value => set.setStorage address slot value

theorem ask_chain (slot : Slot σ StateSet) (question : Question) (state : σ) :
    (chain slot).ask question state = (.ok ((slot.get state).answer question), state) := by
  cases question with
  | block | nonce | balance | code | storage => rfl

theorem perform_writer (slot : Slot σ StateSet) (write : Write) (state : σ) :
    (writer slot).perform write state = (.ok (), slot.modify (·.write write) state) := by
  cases write with
  | nonce | balance | code | storage => rfl

/-- A change to one account keeps all of the other accounts, and what it keeps of its own. -/
theorem modifyAccount_keeps {α : Type} (look : Account → α) (set : StateSet)
    {address other : Address} {change : Account → Account}
    (kept : other = address → look (change (set.account other)) = look (set.account other)) :
    look ((set.modifyAccount address change).account other) = look (set.account other) := by
  rw [account_modifyAccount, Function.update_apply]
  split
  · next own =>
      subst own
      exact kept rfl
  · rfl

/-- A write to a state set changes the answer to one question. -/
theorem answer_write (set : StateSet) (write : Write) :
    (set.write write).answer = View.write set.answer write := by
  funext question
  rw [View.write]
  by_cases same : question = write.question
  · subst same
    rw [Function.update_self]
    cases write with
    | nonce | balance | code =>
        simp [StateSet.write, answer, Write.question, Write.answer, setNonce, setBalance,
          setCode, account_modifyAccount]
    | storage =>
        simp only [StateSet.write, answer, Write.question, Write.answer, setStorage,
          storageAt, account_modifyAccount, Function.update_self, getD_storage_set, if_true]
  · rw [Function.update_of_ne same]
    cases write with
    | nonce | balance | code =>
        cases question with
        | block => rfl
        | nonce =>
            apply modifyAccount_keeps Account.nonce
            simp_all [Write.question]
        | balance =>
            apply modifyAccount_keeps (some ∘ Account.balance)
            simp_all [Write.question]
        | code =>
            apply modifyAccount_keeps Account.code
            simp_all [Write.question]
        | storage _ slot => exact modifyAccount_keeps (·.storage.getD slot 0) set fun _ => rfl
    | storage address key value =>
        cases question with
        | block => rfl
        | nonce => exact modifyAccount_keeps Account.nonce set fun _ => rfl
        | balance => exact modifyAccount_keeps (some ∘ Account.balance) set fun _ => rfl
        | code => exact modifyAccount_keeps Account.code set fun _ => rfl
        | storage other slot =>
            apply modifyAccount_keeps (·.storage.getD slot 0)
            rintro rfl
            rw [getD_storage_set, if_neg]
            rintro rfl
            exact same rfl

theorem not_failsWith {slot : Slot σ StateSet} {fault : Fault} :
    ¬ (chain slot).FailsWith fault := by
  rintro (@⟨question, state, after, asked⟩ | @⟨writer, write, state, after, accepts, written⟩)
  · rw [ask_chain] at asked
    cases asked
  · cases accepts
    rw [perform_writer] at written
    cases written

end StateSet

namespace Overlay

variable {slot : Slot σ Records} {base : Chain σ} {question : Question} {state : σ}

theorem ask_of_written {answer : question.Answer}
    (written : (slot.get state).find? question = some answer) :
    (chain slot base).ask question state = (.ok answer, state) := by
  cases question with
  | block => cases written
  | nonce | balance | code | storage =>
      simp only [Records.find?] at written
      simp only [Chain.ask, chain, shadow, written]

theorem ask_of_unwritten (unwritten : (slot.get state).find? question = none) :
    (chain slot base).ask question state = base.ask question state := by
  cases question with
  | block => rfl
  | nonce | balance | code | storage =>
      simp only [Records.find?] at unwritten
      simp only [Chain.ask, chain, shadow, unwritten]

end Overlay

/-- An answer as a cache gives it: a balance that is not known is zero. -/
def Question.settle : (question : Question) → question.Answer → question.Answer
  | .balance _, answer => some (answer.getD 0)
  | .block, answer => answer
  | .nonce _, answer => answer
  | .code _, answer => answer
  | .storage _ _, answer => answer

namespace ReadCache

/-- What a cache knows about a question. -/
def known (cache : ReadCache) (question : Question) : Option question.Answer :=
  match question with
  | .block => cache.block
  | other => cache.records.find? other

/-- A cache that has been given an answer. -/
def remember (cache : ReadCache) : (question : Question) → question.Answer → ReadCache
  | .block, block => { cache with block := some block }
  | .nonce address, nonce => cache.learn (.nonce address nonce)
  | .balance address, balance => cache.learn (.balance address (balance.getD 0))
  | .code address, code => cache.learn (.code address code)
  | .storage address slot, value => cache.learn (.storage address slot value)

theorem known_empty (question : Question) : ({} : ReadCache).known question = none := by
  cases question with
  | block => rfl
  | nonce | balance | code | storage => simp [known, Records.find?]

theorem known_learn (cache : ReadCache) (write : Write) :
    (cache.learn write).known =
      Function.update cache.known write.question (some write.answer) := by
  funext other
  have noted := congrFun (cache.records.find?_note write) other
  by_cases same : other = write.question
  · subst same
    rw [Function.update_self] at noted ⊢
    cases write with
    | nonce | balance | code | storage => exact noted
  · rw [Function.update_of_ne same] at noted ⊢
    cases other with
    | block => rfl
    | nonce | balance | code | storage => exact noted

theorem known_remember (cache : ReadCache) (question : Question) (answer : question.Answer) :
    (cache.remember question answer).known =
      Function.update cache.known question (some (question.settle answer)) := by
  cases question with
  | block =>
      funext other
      cases other with
      | block =>
          rw [Function.update_self]
          rfl
      | nonce | balance | code | storage =>
          rw [Function.update_of_ne]
          · rfl
          · simp
  | nonce | balance | code | storage => exact known_learn cache _

variable {slot : Slot σ ReadCache} {base : Chain σ} {question : Question} {state : σ}

theorem ask_of_known {answer : question.Answer}
    (known : (slot.get state).known question = some answer) :
    (chain slot base).ask question state = (.ok answer, state) := by
  cases question with
  | block | nonce | code | storage =>
      simp only [ReadCache.known, Records.find?] at known
      simp only [Chain.ask, chain, answerOnce, known]
  | balance =>
      simp only [ReadCache.known, Records.find?, Option.map_eq_some_iff] at known
      obtain ⟨balance, known, rfl⟩ := known
      simp only [Chain.ask, chain, answerOnce, known, Access.bind, Access.pure]

theorem ask_of_answered (unknown : (slot.get state).known question = none)
    {answer : question.Answer} {after : σ}
    (answered : base.ask question state = (.ok answer, after)) :
    (chain slot base).ask question state =
      (.ok (question.settle answer), slot.modify (·.remember question answer) after) := by
  cases question with
  | block | nonce | code | storage =>
      simp only [ReadCache.known, Records.find?] at unknown
      simp only [Chain.ask] at answered
      simp only [Chain.ask, chain, answerOnce, unknown, answered]
      rfl
  | balance =>
      simp only [ReadCache.known, Records.find?, Option.map_eq_none_iff] at unknown
      simp only [Chain.ask] at answered
      simp only [Chain.ask, chain, answerOnce, unknown, answered, Access.bind, Access.pure]
      rfl

theorem ask_of_failed (unknown : (slot.get state).known question = none) {fault : Fault}
    {after : σ} (failed : base.ask question state = (.error fault, after)) :
    (chain slot base).ask question state = (.error fault, after) := by
  cases question with
  | block | nonce | code | storage =>
      simp only [ReadCache.known, Records.find?] at unknown
      simp only [Chain.ask] at failed
      simp only [Chain.ask, chain, answerOnce, unknown, failed]
  | balance =>
      simp only [ReadCache.known, Records.find?, Option.map_eq_none_iff] at unknown
      simp only [Chain.ask] at failed
      simp only [Chain.ask, chain, answerOnce, unknown, failed, Access.bind]

end ReadCache

end EvmAtlas
