import Mathlib.Logic.Function.Basic
import EvmAtlas.Proofs.Trace

/-!
# What a call leaves behind

The words that a call stores go to the chain one by one and stay there, also when the call
reverts or fails later. `Chain.Keeps` says of a chain that it can be read without being
changed and that it answers with what was written to it. On such a chain a call changes the
answers to those that it stored last, whatever its verdict, and no others. It leaves the
chain as it was exactly when what it stored last was there before.
-/

namespace EvmAtlas

variable {σ : Type}

/-- What a chain answers about its accounts. -/
@[ext] structure Answers where
  nonce : Address → Except Fault UInt64
  balance : Address → Except Fault (Option Word)
  code : Address → Except Fault Bytes
  storage : Address → Word → Except Fault Word

/-- The answers of a chain in a state. -/
def Chain.answers (chain : Chain σ) (state : σ) : Answers where
  nonce address := (chain.nonce address state).1
  balance address := (chain.balance address state).1
  code address := (chain.code address state).1
  storage address slot := (chain.storage address slot state).1

namespace Answers

def write (answers : Answers) : Write → Answers
  | .nonce address nonce =>
      { answers with nonce := Function.update answers.nonce address (.ok nonce) }
  | .balance address balance =>
      { answers with balance := Function.update answers.balance address (.ok (some balance)) }
  | .code address code =>
      { answers with code := Function.update answers.code address (.ok code) }
  | .storage address slot value =>
      { answers with
        storage := Function.update answers.storage address
          (Function.update (answers.storage address) slot (.ok value)) }

end Answers

/-- A chain that reading does not change, and that answers with what was written to it. -/
structure Chain.Keeps (chain : Chain σ) : Prop where
  block : ∀ state, chain.answers (chain.block state).2 = chain.answers state
  nonce : ∀ address state, chain.answers (chain.nonce address state).2 = chain.answers state
  balance : ∀ address state,
    chain.answers (chain.balance address state).2 = chain.answers state
  code : ∀ address state, chain.answers (chain.code address state).2 = chain.answers state
  storage : ∀ address slot state,
    chain.answers (chain.storage address slot state).2 = chain.answers state
  writes : ∀ writer, chain.writer = some writer → ∀ write state,
    chain.answers (writer.perform write state).2 = (chain.answers state).write write

/-- The word that a write stores in a slot. -/
def Write.stored? (address : Address) (slot : Word) : Write → Option Word
  | .storage other key value => if other = address ∧ key = slot then some value else none
  | _ => none

/-- The word that some writes store last in a slot. -/
def lastStored? (address : Address) (slot : Word) : List Write → Option Word
  | [] => none
  | write :: rest => (lastStored? address slot rest).or (write.stored? address slot)

namespace Answers

variable {address : Address}

theorem storage_write (answers : Answers) (write : Write) (address : Address) (slot : Word) :
    (answers.write write).storage address slot =
      (write.stored? address slot).elim (answers.storage address slot) .ok := by
  cases write with
  | nonce | balance | code => rfl
  | storage other key value =>
      simp only [Answers.write, Write.stored?]
      by_cases same : other = address
      · subst same
        rw [Function.update_self]
        by_cases equal : key = slot
        · subst equal
          simp
        · simp [equal, Function.update_of_ne (Ne.symm equal)]
      · simp [same, Function.update_of_ne (Ne.symm same)]

/-- A slot answers with what was stored in it last. -/
theorem storage_foldl_write (writes : List Write) (answers : Answers) (address : Address)
    (slot : Word) :
    (writes.foldl write answers).storage address slot =
      (lastStored? address slot writes).elim (answers.storage address slot) .ok := by
  induction writes generalizing answers with
  | nil => rfl
  | cons first rest ih =>
      rw [List.foldl_cons, ih, storage_write, lastStored?]
      cases lastStored? address slot rest with
      | none => rfl
      | some value => rfl

/-- Stores change answers about storage only. -/
theorem foldl_write_keeps {writes : List Write}
    (stores : ∀ write ∈ writes, write.StoresAt address) (answers : Answers) :
    (writes.foldl write answers).nonce = answers.nonce ∧
      (writes.foldl write answers).balance = answers.balance ∧
      (writes.foldl write answers).code = answers.code := by
  induction writes generalizing answers with
  | nil => exact ⟨rfl, rfl, rfl⟩
  | cons first rest ih =>
      rw [List.forall_mem_cons] at stores
      obtain ⟨⟨slot, value, rfl⟩, stores⟩ := stores
      exact ih stores (answers.write (.storage address slot value))

theorem foldl_write_eq {writes : List Write}
    (stores : ∀ write ∈ writes, write.StoresAt address) (answers : Answers) :
    writes.foldl write answers =
      { answers with
        storage := fun address slot =>
          (lastStored? address slot writes).elim (answers.storage address slot) .ok } := by
  obtain ⟨nonce_eq, balance_eq, code_eq⟩ := foldl_write_keeps stores answers
  apply Answers.ext
  · exact nonce_eq
  · exact balance_eq
  · exact code_eq
  · funext address slot
    exact storage_foldl_write writes answers address slot

end Answers

theorem lastStored?_of_ne {address other : Address} {writes : List Write}
    (stores : ∀ write ∈ writes, write.StoresAt address) (apart : other ≠ address)
    (slot : Word) : lastStored? other slot writes = none := by
  induction writes with
  | nil => rfl
  | cons first rest ih =>
      rw [List.forall_mem_cons] at stores
      obtain ⟨⟨key, value, rfl⟩, stores⟩ := stores
      rw [lastStored?, ih stores, Write.stored?, if_neg]
      · rfl
      · intro same
        exact apart same.1.symm

namespace Chain

variable {chain : Chain σ}

/-- A state beside which the record explains how its answers came about. -/
def Explains (chain : Chain σ) (before : Answers) (kept : σ × List Write) (state : σ) : Prop :=
  kept.1 = state ∧ chain.answers state = kept.2.foldl Answers.write before

/-- On a chain that keeps what is written, the record goes on explaining all answers. -/
theorem Keeps.recorded_alike (keeps : chain.Keeps) (before : Answers) :
    Chain.Alike (chain.Explains before) chain.recorded chain := by
  have read {α : Type} {access : Access σ α}
      (unchanged : ∀ state, chain.answers (access state).2 = chain.answers state) :
      Access.Alike (chain.Explains before) (access.noting []) access := by
    rintro ⟨state, writes⟩ _ ⟨rfl, explained⟩
    refine ⟨rfl, rfl, ?_⟩
    rw [unchanged, explained, Access.noting, List.append_nil]
  refine ⟨read keeps.block, fun address => read (keeps.nonce address),
    fun address => read (keeps.balance address), fun address => read (keeps.code address),
    fun address slot => read (keeps.storage address slot), ?_⟩
  unfold recorded
  cases accepts : chain.writer with
  | none => exact .none
  | some writer =>
      have written (write : Write) :
          Access.Alike (chain.Explains before) ((writer.perform write).noting [write])
            (writer.perform write) := by
        rintro ⟨state, writes⟩ _ ⟨rfl, explained⟩
        refine ⟨rfl, rfl, ?_⟩
        rw [keeps.writes writer accepts write state, explained, Access.noting,
          List.foldl_append]
        rfl
      refine .some fun write => ?_
      cases write with
      | nonce | balance | code | storage => exact written _

end Chain

namespace StateSet

theorem account_modifyAccount (set : StateSet) (address : Address)
    (change : Account → Account) :
    (set.modifyAccount address change).account =
      Function.update set.account address (change (set.account address)) := by
  funext other
  unfold modifyAccount
  rw [account, Std.TreeMap.getD_insert]
  by_cases own : other = address
  · subst own
    rw [Function.update_self, if_pos Std.ReflCmp.compare_self]
  · rw [Function.update_of_ne own, if_neg, ← account]
    intro equal
    exact own (Std.LawfulEqCmp.eq_of_compare equal).symm

theorem answers_modifyAccount (set : StateSet) (address : Address)
    (change : Account → Account) :
    (chain .whole).answers (set.modifyAccount address change) =
      { nonce := Function.update ((chain .whole).answers set).nonce address
          (.ok (change (set.account address)).nonce)
        balance := Function.update ((chain .whole).answers set).balance address
          (.ok (some (change (set.account address)).balance))
        code := Function.update ((chain .whole).answers set).code address
          (.ok (change (set.account address)).code)
        storage := Function.update ((chain .whole).answers set).storage address fun slot =>
          .ok ((change (set.account address)).storage.getD slot 0) } := by
  have seen {α : Type} (look : Account → α) :
      (fun other => look ((set.modifyAccount address change).account other)) =
        Function.update (fun other => look (set.account other)) address
          (look (change (set.account address))) := by
    rw [account_modifyAccount]
    exact Function.comp_update look set.account address _
  apply Answers.ext
  · exact seen (Except.ok ∘ Account.nonce)
  · exact seen (Except.ok ∘ some ∘ Account.balance)
  · exact seen (Except.ok ∘ Account.code)
  · exact seen fun account => Except.ok ∘ (account.storage.getD · 0)

/-- A slot that is not held reads as zero, so that a zero need not be held. -/
theorem getD_storage_set (storage : Std.TreeMap Word Word) (slot value key : Word) :
    (if value = 0 then storage.erase slot else storage.insert slot value).getD key 0 =
      if key = slot then value else storage.getD key 0 := by
  have compare_eq : compare slot key = .eq ↔ key = slot :=
    Std.LawfulEqCmp.compare_eq_iff_eq.trans eq_comm
  split
  · next zero => simp only [Std.TreeMap.getD_erase, compare_eq, zero]
  · simp only [Std.TreeMap.getD_insert, compare_eq]

theorem chain_keeps : (StateSet.chain .whole).Keeps where
  block _ := rfl
  nonce _ _ := rfl
  balance _ _ := rfl
  code _ _ := rfl
  storage _ _ _ := rfl
  writes := by
    intro writer accepts write set
    cases accepts
    cases write with
    | nonce address nonce =>
        change (chain .whole).answers (set.setNonce address nonce) = _
        rw [setNonce, answers_modifyAccount]
        apply Answers.ext
        case nonce => rfl
        all_goals exact Function.update_eq_self address _
    | balance address balance =>
        change (chain .whole).answers (set.setBalance address balance) = _
        rw [setBalance, answers_modifyAccount]
        apply Answers.ext
        case balance => rfl
        all_goals exact Function.update_eq_self address _
    | code address code =>
        change (chain .whole).answers (set.setCode address code) = _
        rw [setCode, answers_modifyAccount]
        apply Answers.ext
        case code => rfl
        all_goals exact Function.update_eq_self address _
    | storage address slot value =>
        change (chain .whole).answers (set.setStorage address slot value) = _
        rw [setStorage, answers_modifyAccount]
        apply Answers.ext
        case storage =>
          apply congrArg (Function.update ((chain .whole).answers set).storage address)
          funext key
          rw [getD_storage_set, Function.update_apply, apply_ite Except.ok]
          rfl
        all_goals exact Function.update_eq_self address _

end StateSet

/-- The writes of a call stay, however the call ends. On a chain that keeps what is written,
the state that a call leaves answers every question as before, but for the words that the
call stored, and answers with those that it stored last. A call that reverts or fails is no
exception, so that nothing is rolled back: the state answers as before exactly when what
was stored last in each slot was there already. -/
theorem call_keeps_writes (chain : Chain σ) (keeps : chain.Keeps) (interpreter : Interpreter)
    (call : Call) (steps : Nat) (state : σ) :
    ∃ verdict next after issued,
      interpreter.call chain.recorded call steps (state, []) = (verdict, next, after, issued) ∧
      interpreter.call chain call steps state = (verdict, next, after) ∧
      chain.answers after =
        { chain.answers state with
          storage := fun address slot => (lastStored? address slot issued).elim
            ((chain.answers state).storage address slot) .ok } ∧
      (chain.answers after = chain.answers state ↔
        ∀ slot value, lastStored? call.address slot issued = some value →
          (chain.storage call.address slot state).1 = .ok value) := by
  have alike := interpreter.call_alike (keeps.recorded_alike (chain.answers state)) call steps
    (⟨rfl, rfl⟩ : chain.Explains (chain.answers state) (state, []) state)
  rcases called : interpreter.call chain.recorded call steps (state, []) with
    ⟨verdict, next, after, issued⟩
  rw [called] at alike
  obtain ⟨verdict_eq, next_eq, after_eq, explained⟩ := alike
  dsimp only at verdict_eq next_eq after_eq explained
  obtain ⟨stores, -⟩ := interpreter.call_confined called
  rw [← after_eq, Answers.foldl_write_eq stores] at explained
  refine ⟨verdict, next, after, issued, rfl, ?_, explained, ?_⟩
  · exact Prod.ext verdict_eq.symm (Prod.ext next_eq.symm after_eq.symm)
  · rw [explained]
    constructor
    · intro same slot value last
      have slot_eq := congrFun (congrFun (congrArg Answers.storage same) call.address) slot
      dsimp only at slot_eq
      rw [last] at slot_eq
      exact slot_eq.symm
    · intro present
      apply Answers.ext
      · rfl
      · rfl
      · rfl
      · funext address slot
        dsimp only
        by_cases own : address = call.address
        · subst own
          cases last : lastStored? call.address slot issued with
          | none => rfl
          | some value => exact (present slot value last).symm
        · rw [lastStored?_of_ne stores own]
          rfl

/-- Account 0, which stores 42 in slot 1 and reverts, and account 1, which stores 42 in slot 1
and comes to a byte without an instruction. -/
def undoingAccounts : StateSet :=
  (({} : StateSet).setCode 0 (Bytes.ofList [0x60, 0x2a, 0x60, 0x01, 0x55, 0x60, 0x00, 0x60,
    0x00, 0xfd])).setCode 1 (Bytes.ofList [0x60, 0x2a, 0x60, 0x01, 0x55, 0xfe])

/-- The reverted call asked for one store, and its word is in the slot afterwards. -/
theorem undoingAccounts_keep_writes :
    ∃ verdict next after issued,
      (Interpreter.fresh none none none).call (StateSet.chain .whole).recorded {} 6
        (undoingAccounts, []) = (verdict, next, after, issued) ∧
      lastStored? 0 1 issued = some 42 ∧
      (StateSet.chain .whole).answers after ≠
        (StateSet.chain .whole).answers undoingAccounts := by
  have stored : lastStored? 0 1 ((Interpreter.fresh none none none).call
      (StateSet.chain .whole).recorded {} 6 (undoingAccounts, [])).2.2.2 = some 42 := by
    decide +kernel
  obtain ⟨verdict, next, after, issued, recorded, -, -, rolledBack⟩ := call_keeps_writes
    (StateSet.chain .whole) StateSet.chain_keeps (.fresh none none none) {} 6 undoingAccounts
  rw [recorded] at stored
  refine ⟨verdict, next, after, issued, recorded, stored, ?_⟩
  intro same
  have there : undoingAccounts.storageAt 0 1 = 42 :=
    Except.ok.inj (rolledBack.mp same 1 42 stored)
  exact absurd there (by decide +kernel)

/-- A call that reverts and a call that fails, after which a slot that was zero is not. -/
theorem undoingAccounts_not_rolled_back :
    ((Interpreter.fresh none none none).call (StateSet.chain .whole) {} 6
        undoingAccounts).1.result?.any (·.reverted) = true ∧
      undoingAccounts.storageAt 0 1 = 0 ∧
      ((Interpreter.fresh none none none).call (StateSet.chain .whole) {} 6
        undoingAccounts).2.2.storageAt 0 1 = 42 ∧
    ((Interpreter.fresh none none none).call (StateSet.chain .whole) { address := 1 } 4
        undoingAccounts).1.fault?.any (·.cause == .invalidOpcode) = true ∧
      undoingAccounts.storageAt 1 1 = 0 ∧
      ((Interpreter.fresh none none none).call (StateSet.chain .whole) { address := 1 } 4
        undoingAccounts).2.2.storageAt 1 1 = 42 := by
  decide +kernel

end EvmAtlas
