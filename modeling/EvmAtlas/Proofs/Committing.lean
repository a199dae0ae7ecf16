import Mathlib.Data.List.Induction
import EvmAtlas.Proofs.Overlaying
import EvmAtlas.Proofs.SavedSets

/-!
# What a commit makes of a state set

The writes that an overlay holds are committed once and in an order of their own, whatever was
written to the overlay before. What they make of a state set depends only on what was written
last for each question. A call on an overlay therefore comes to the same set, once the overlay
is committed, as the call on the set itself, and `StateSet.HasEffects` says what the set then
holds.
-/

namespace EvmAtlas

/-! ## Writes that say the same last -/

def Write.account : Write → Address
  | .nonce address _ => address
  | .balance address _ => address
  | .code address _ => address
  | .storage address _ _ => address

theorem Write.account_eq_of_question_eq {left right : Write}
    (same : left.question = right.question) : left.account = right.account := by
  cases left with
  | nonce | balance | code | storage =>
      cases right with
      | nonce | balance | code | storage => simp_all [Write.question, Write.account]

theorem exists_of_lastWritten? {question : Question} {writes : List Write}
    {answer : question.Answer} (last : lastWritten? question writes = some answer) :
    ∃ write ∈ writes, write.question = question := by
  induction writes using List.reverseRecOn with
  | nil => cases last
  | append_singleton writes final ih =>
      rw [lastWritten?_concat, Option.or_eq_some_iff] at last
      rcases last with written | ⟨-, last⟩
      · exact ⟨final, by simp, Write.question_of_answer? written⟩
      · obtain ⟨write, member, about⟩ := ih last
        exact ⟨write, List.mem_append_left _ member, about⟩

theorem isSome_lastWritten? {write : Write} {writes : List Write} (member : write ∈ writes) :
    (lastWritten? write.question writes).isSome = true := by
  induction writes with
  | nil => cases member
  | cons first rest ih =>
      rw [lastWritten?, Option.isSome_or, Bool.or_eq_true]
      rcases List.mem_cons.mp member with rfl | member
      · right
        rw [Write.answer?_question]
        rfl
      · exact .inl (ih member)

theorem lastWritten?_append (question : Question) (first rest : List Write) :
    lastWritten? question (first ++ rest) =
      (lastWritten? question rest).or (lastWritten? question first) := by
  induction first with
  | nil => rw [List.nil_append, lastWritten?, Option.or_none]
  | cons write first ih => rw [List.cons_append, lastWritten?, ih, lastWritten?, Option.or_assoc]

theorem lastWritten?_storage (address : Address) (slot : Word) (writes : List Write) :
    lastWritten? (.storage address slot) writes = lastStored? address slot writes := by
  induction writes with
  | nil => rfl
  | cons first rest ih =>
      rw [lastWritten?, lastStored?, ih]
      congr 1
      by_cases about : first.question = .storage address slot
      · cases first with
        | nonce | balance | code => cases about
        | storage other key value =>
            cases about
            rw [Write.stored?, if_pos ⟨rfl, rfl⟩]
            exact Write.answer?_question _
      · rw [Write.answer?_of_ne (Ne.symm about)]
        cases first with
        | nonce | balance | code => rfl
        | storage other key value =>
            rw [Write.stored?, if_neg]
            rintro ⟨rfl, rfl⟩
            exact about rfl

theorem lastWritten?_of_stores {address : Address} {writes : List Write}
    (stores : ∀ write ∈ writes, write.StoresAt address) {question : Question}
    (apart : ∀ slot, .storage address slot ≠ question) : lastWritten? question writes = none := by
  apply Option.eq_none_iff_forall_ne_some.mpr
  intro answer last
  obtain ⟨write, member, about⟩ := exists_of_lastWritten? last
  obtain ⟨slot, value, rfl⟩ := stores write member
  exact apart slot about

theorem Records.find?_foldl_note (writes : List Write) (question : Question) :
    (writes.foldl Records.note {}).find? question = lastWritten? question writes := by
  induction writes using List.reverseRecOn with
  | nil => exact Records.find?_empty question
  | append_singleton writes last ih =>
      rw [List.foldl_append, List.foldl_cons, List.foldl_nil, find?_note, Write.update_eq, ih,
        lastWritten?_concat]

namespace StateSet

theorem block_write (set : StateSet) (write : Write) : (set.write write).block = set.block := by
  cases write with
  | nonce | balance | code | storage => rfl

theorem block_foldl_write (writes : List Write) (set : StateSet) :
    (writes.foldl StateSet.write set).block = set.block := by
  induction writes generalizing set with
  | nil => rfl
  | cons first rest ih => rw [List.foldl_cons, ih, block_write]

theorem getElem?_write (set : StateSet) (write : Write) (address : Address) :
    (set.write write).accounts[address]? =
      if write.account = address then some ((set.write write).account address)
      else set.accounts[address]? := by
  have inserted (change : Account → Account) (other : Address) :
      (set.modifyAccount other change).accounts[address]? =
        if other = address then some ((set.modifyAccount other change).account address)
        else set.accounts[address]? := by
    rw [account_modifyAccount]
    unfold modifyAccount
    rw [Std.TreeMap.getElem?_insert]
    by_cases own : other = address
    · subst own
      simp
    · simp [own]
  cases write with
  | nonce | balance | code | storage => exact inserted _ _

theorem account_write_of_ne {set : StateSet} {write : Write} {address : Address}
    (apart : write.account ≠ address) :
    (set.write write).account address = set.account address := by
  rw [account, account, Std.TreeMap.getD_eq_getD_getElem?, Std.TreeMap.getD_eq_getD_getElem?,
    getElem?_write, if_neg apart]

theorem getElem?_foldl_write (writes : List Write) (set : StateSet) (address : Address) :
    (writes.foldl StateSet.write set).accounts[address]? =
      if ∃ write ∈ writes, write.account = address then
        some ((writes.foldl StateSet.write set).account address)
      else set.accounts[address]? := by
  induction writes using List.reverseRecOn with
  | nil => simp
  | append_singleton writes last ih =>
      rw [List.foldl_append, List.foldl_cons, List.foldl_nil, getElem?_write, ih]
      by_cases own : last.account = address
      · simp [own]
      · simp [own, account_write_of_ne own]

/-- What an account holds in a slot after a write. A zero is not held. -/
theorem storage_write (set : StateSet) (write : Write) (address : Address) (slot : Word) :
    ((set.write write).account address).storage[slot]? =
      match write.answer? (.storage address slot) with
      | some value => if value = 0 then none else some value
      | none => (set.account address).storage[slot]? := by
  by_cases about : write.question = .storage address slot
  · cases write with
    | nonce | balance | code => cases about
    | storage other key value =>
        cases about
        have written : (Write.storage address slot value).answer? (.storage address slot) =
            some value :=
          Write.answer?_question _
        rw [written]
        simp only [StateSet.write, setStorage, account_modifyAccount, Function.update_self]
        split
        · simp
        · simp
  · rw [Write.answer?_of_ne (Ne.symm about)]
    cases write with
    | nonce | balance | code => exact modifyAccount_keeps (·.storage[slot]?) set fun _ => rfl
    | storage other key value =>
        refine modifyAccount_keeps (·.storage[slot]?) set ?_
        rintro rfl
        have apart : compare key slot ≠ .eq := by
          simpa [Write.question] using about
        dsimp only
        split
        · rw [Std.TreeMap.getElem?_erase, if_neg apart]
        · rw [Std.TreeMap.getElem?_insert, if_neg apart]

theorem storage_foldl_write (writes : List Write) (set : StateSet) (address : Address)
    (slot : Word) :
    ((writes.foldl StateSet.write set).account address).storage[slot]? =
      match lastWritten? (.storage address slot) writes with
      | some value => if value = 0 then none else some value
      | none => (set.account address).storage[slot]? := by
  induction writes using List.reverseRecOn with
  | nil => rfl
  | append_singleton writes last ih =>
      rw [List.foldl_append, List.foldl_cons, List.foldl_nil, lastWritten?_concat, storage_write,
        ih]
      cases last.answer? (.storage address slot) with
      | some value => rfl
      | none => rfl

/-- Writes that say the same last make the same of a state set. -/
theorem same_foldl_write {left right : List Write}
    (agree : ∀ question, lastWritten? question left = lastWritten? question right)
    (set : StateSet) :
    (left.foldl StateSet.write set).Same (right.foldl StateSet.write set) := by
  have answers (question : Question) :
      (left.foldl StateSet.write set).answer question =
        (right.foldl StateSet.write set).answer question := by
    rw [answer_foldl_write, answer_foldl_write, agree]
  have accounts (address : Address) :
      ((left.foldl StateSet.write set).account address).Same
        ((right.foldl StateSet.write set).account address) := by
    refine ⟨answers (.nonce address), Option.some.inj (answers (.balance address)),
      answers (.code address), ?_⟩
    intro slot
    rw [storage_foldl_write, storage_foldl_write, agree]
  have about {left right : List Write} {address : Address}
      (agree : ∀ question, lastWritten? question left = lastWritten? question right)
      (written : ∃ write ∈ left, write.account = address) :
      ∃ write ∈ right, write.account = address := by
    obtain ⟨write, member, rfl⟩ := written
    obtain ⟨answer, last⟩ := Option.isSome_iff_exists.mp (isSome_lastWritten? member)
    rw [agree] at last
    obtain ⟨other, also, same⟩ := exists_of_lastWritten? last
    exact ⟨other, also, Write.account_eq_of_question_eq same⟩
  refine ⟨?_, ?_⟩
  · rw [block_foldl_write, block_foldl_write]
  · intro address
    rw [getElem?_foldl_write, getElem?_foldl_write]
    by_cases written : ∃ write ∈ left, write.account = address
    · rw [if_pos written, if_pos (about agree written)]
      exact .some (accounts address)
    · rw [if_neg written, if_neg (mt (about fun question => (agree question).symm) written)]
      cases set.accounts[address]? with
      | none => exact .none
      | some account => exact .some ⟨rfl, rfl, rfl, fun _ => rfl⟩

end StateSet

/-! ## State sets that hold the same -/

theorem Account.Same.trans {first second third : Account} (left : first.Same second)
    (right : second.Same third) : first.Same third where
  nonce_eq := left.nonce_eq.trans right.nonce_eq
  balance_eq := left.balance_eq.trans right.balance_eq
  code_eq := left.code_eq.trans right.code_eq
  storage_eq slot := (left.storage_eq slot).trans (right.storage_eq slot)

namespace StateSet

theorem Same.trans {first second third : StateSet} (left : first.Same second)
    (right : second.Same third) : first.Same third where
  block_eq := left.block_eq.trans right.block_eq
  accounts_same address := by
    have near := left.accounts_same address
    have far := right.accounts_same address
    generalize first.accounts[address]? = account, second.accounts[address]? = middle,
      third.accounts[address]? = other at near far
    cases near with
    | none => exact far
    | some near =>
        cases far with
        | some far => exact .some (near.trans far)

/-- What is saved of an overlay is read as the set after the writes to the overlay. -/
theorem exists_saved (set : StateSet) {records : Records} {writes : List Write}
    (recorded : ∀ question, records.find? question = lastWritten? question writes) :
    ∃ saved,
      ofText (records.writes.foldl StateSet.write set).toJson.indentedText = .ok saved ∧
        saved.Same (writes.foldl StateSet.write set) := by
  have committed : (records.writes.foldl StateSet.write set).Same
      (writes.foldl StateSet.write set) := by
    apply same_foldl_write
    intro question
    rw [records.lastWritten?_writes, recorded]
  exact ⟨_, ofText_texts (by simp [texts]), (same_reread _).trans committed⟩

theorem Same.answer_eq {left right : StateSet} (same : left.Same right) :
    left.answer = right.answer := by
  have accounts (address : Address) : (left.account address).Same (right.account address) := by
    have held := same.accounts_same address
    rw [account, account, Std.TreeMap.getD_eq_getD_getElem?, Std.TreeMap.getD_eq_getD_getElem?]
    generalize left.accounts[address]? = first, right.accounts[address]? = second at held
    cases held with
    | none => exact ⟨rfl, rfl, rfl, fun _ => rfl⟩
    | some held => exact held
  funext question
  cases question with
  | block => exact congrArg (·.getD {}) same.block_eq
  | nonce address => exact (accounts address).nonce_eq
  | balance address => exact congrArg some (accounts address).balance_eq
  | code address => exact (accounts address).code_eq
  | storage address slot =>
      change (left.account address).storage.getD slot 0 =
        (right.account address).storage.getD slot 0
      rw [Std.TreeMap.getD_eq_getD_getElem?, Std.TreeMap.getD_eq_getD_getElem?,
        (accounts address).storage_eq]

/-- A state set that differs from an earlier one by a code that was given to one account, if
any, and the words that were stored there last. -/
structure HasEffects (set : StateSet) (address : Address) (code? : Option Bytes)
    (stored : List Write) (after : StateSet) : Prop where
  block_eq : after.block = set.block
  nonce_eq : (after.account address).nonce = (set.account address).nonce
  balance_eq : (after.account address).balance = (set.account address).balance
  code_eq : (after.account address).code = code?.getD (set.account address).code
  storage_eq : ∀ slot, after.storageAt address slot =
    (lastStored? address slot stored).getD (set.storageAt address slot)
  others_same : ∀ other, other ≠ address →
    Option.Rel Account.Same after.accounts[other]? set.accounts[other]?

theorem Same.hasEffects {set after : StateSet} {address : Address} {code? : Option Bytes}
    {stored : List Write} (stores : ∀ write ∈ stored, write.StoresAt address)
    (same : after.Same
      (((code?.map (Write.code address)).toList ++ stored).foldl StateSet.write set)) :
    set.HasEffects address code? stored after := by
  have answers (question : Question) : after.answer question =
      ((lastWritten? question stored).or
        (lastWritten? question (code?.map (Write.code address)).toList)).getD
          (set.answer question) := by
    rw [same.answer_eq, answer_foldl_write, lastWritten?_append]
  have unstored (question : Question) (apart : ∀ slot, .storage address slot ≠ question) :
      after.answer question =
        (lastWritten? question (code?.map (Write.code address)).toList).getD
          (set.answer question) := by
    rw [answers, lastWritten?_of_stores stores apart, Option.none_or]
  have others (other : Address) (apart : other ≠ address) : ¬ ∃ write ∈
      (code?.map (Write.code address)).toList ++ stored, write.account = other := by
    rintro ⟨write, member, rfl⟩
    rcases List.mem_append.mp member with member | member
    · obtain ⟨code, -, rfl⟩ := Option.map_eq_some_iff.mp (Option.mem_toList.mp member)
      exact apart rfl
    · obtain ⟨slot, value, rfl⟩ := stores write member
      exact apart rfl
  constructor
  case block_eq => rw [same.block_eq, block_foldl_write]
  case nonce_eq =>
    refine (unstored (.nonce address) (by simp)).trans ?_
    cases code? with
    | none => rfl
    | some code => rfl
  case balance_eq =>
    apply Option.some.inj
    refine (unstored (.balance address) (by simp)).trans ?_
    cases code? with
    | none => rfl
    | some code => rfl
  case code_eq =>
    refine (unstored (.code address) (by simp)).trans ?_
    cases code? with
    | none => rfl
    | some code =>
        have written : (Write.code address code).answer? (.code address) = some code :=
          Write.answer?_question _
        rw [Option.map_some, Option.toList_some, lastWritten?, written]
        rfl
  case storage_eq =>
    intro slot
    refine (answers (.storage address slot)).trans ?_
    rw [lastWritten?_storage]
    cases code? with
    | none => rw [Option.map_none, Option.toList_none, lastWritten?, Option.or_none]; rfl
    | some code =>
        cases lastStored? address slot stored with
        | none => rfl
        | some value => rfl
  case others_same =>
    intro other apart
    have held := same.accounts_same other
    rwa [getElem?_foldl_write, if_neg (others other apart)] at held

end StateSet

/-! ## Calls on an overlay -/

theorem Chain.ask_recorded {σ : Type} (chain : Chain σ) (question : Question) :
    chain.recorded.ask question = (chain.ask question).noting [] := by
  cases question with
  | block | nonce | balance | code | storage => rfl

/-- An overlay of a state set beside a copy of the set that receives the writes itself, after
the same writes to both. -/
inductive Overlay.Matches (set : StateSet) (given : List Write) :
    StateSet × Records → StateSet × List Write → Prop where
  | after {records : Records} {issued : List Write}
      (recorded : ∀ question, records.find? question = lastWritten? question (given ++ issued)) :
      Matches set given (set, records) ((given ++ issued).foldl StateSet.write set, issued)

/-- The overlay and the copy answer alike, and go on doing so whatever is written to both. -/
theorem Overlay.matches_alike (set : StateSet) (given : List Write) :
    Chain.Alike (Matches set given) (chain .second (StateSet.chain .first))
      (StateSet.chain .whole).recorded := by
  apply Chain.Alike.of_ask
  · rintro question _ _ (@⟨records, issued, recorded⟩)
    have matched : Matches set given (set, records)
        ((given ++ issued).foldl StateSet.write set, issued ++ []) := by
      rw [List.append_nil]
      exact .after recorded
    rw [Chain.ask_recorded, Access.noting, StateSet.ask_chain]
    dsimp only [Slot.whole]
    rw [StateSet.answer_foldl_write, ← recorded]
    cases found : records.find? question with
    | some answer =>
        rw [Overlay.ask_of_written found]
        exact ⟨rfl, matched⟩
    | none =>
        rw [Overlay.ask_of_unwritten found, StateSet.ask_chain]
        exact ⟨rfl, matched⟩
  · apply Option.Rel.some
    rintro write _ _ (@⟨records, issued, recorded⟩)
    rw [ChainWriter.perform_ofPerform, ChainWriter.perform_ofPerform, Access.noting,
      StateSet.perform_writer]
    have matched : Matches set given (set, records.note write)
        ((given ++ (issued ++ [write])).foldl StateSet.write set, issued ++ [write]) := by
      refine .after fun question => ?_
      rw [Records.find?_note, Write.update_eq, ← List.append_assoc, lastWritten?_concat, recorded]
    rw [← List.append_assoc, List.foldl_append] at matched
    exact ⟨rfl, matched⟩

/-- The writes of a call on a state set are stores to the called account. -/
theorem storesAt_of_evaluate {set copy : StateSet} {transaction : Option TransactionInfo}
    {call : Call} {config : Option MachineConfig} {steps : Nat} {verdict : Verdict}
    {stored : List Write}
    (ran : evaluate (StateSet.chain .whole).recorded none transaction call config steps (set, []) =
      (verdict, copy, stored)) :
    ∀ write ∈ stored, write.StoresAt call.address := by
  rcases called : (Interpreter.fresh (some (set.block.getD {})) transaction config).call
    (StateSet.chain .whole).recorded call steps (set, []) with ⟨verdict', next, copy', stored'⟩
  have confined := (Interpreter.call_confined _ called).1
  have same : evaluate (StateSet.chain .whole).recorded none transaction call config steps
      (set, []) = (verdict', copy', stored') :=
    congrArg (fun outcome => (outcome.1, outcome.2.2)) called
  cases ran.symm.trans same
  exact confined

/-- A call on an overlay of a state set, and the same call on the set itself. -/
theorem evaluate_overlay (set : StateSet) {given : List Write} {records : Records}
    (noted : ∀ question, records.find? question = lastWritten? question given)
    (transaction : Option TransactionInfo) (call : Call) (config : Option MachineConfig)
    (steps : Nat) :
    ∃ verdict kept copy stored,
      evaluate (Overlay.chain .second (StateSet.chain .first)) none transaction call config steps
          (set, records) = (verdict, set, kept) ∧
        evaluate (StateSet.chain .whole).recorded none transaction call config steps
          (given.foldl StateSet.write set, []) = (verdict, copy, stored) ∧
        ∀ question, kept.find? question = lastWritten? question (given ++ stored) := by
  have near : Overlay.Matches set given (set, records) (given.foldl StateSet.write set, []) := by
    have matched : Overlay.Matches set given (set, records)
        ((given ++ []).foldl StateSet.write set, []) :=
      .after fun question => by rw [List.append_nil, noted]
    rwa [List.append_nil] at matched
  obtain ⟨verdict_eq, matched⟩ := evaluate_alike (Overlay.matches_alike set given) none transaction
    call config steps near
  rcases ran : evaluate (Overlay.chain .second (StateSet.chain .first)) none transaction call
    config steps (set, records) with ⟨verdict, state⟩
  rcases plain : evaluate (StateSet.chain .whole).recorded none transaction call config steps
    (given.foldl StateSet.write set, []) with ⟨_, copy⟩
  rw [ran, plain] at verdict_eq matched
  cases verdict_eq
  cases matched with
  | after recorded => exact ⟨_, _, _, _, rfl, rfl, recorded⟩

end EvmAtlas
