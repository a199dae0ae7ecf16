import EvmAtlas.Chain.StateSetJson
import EvmAtlas.Proofs.Hexadecimal
import EvmAtlas.Proofs.JsonText

/-!
# Saved state sets

A state set is read back from its text as the same set: every member that is left out where
it is empty is empty before it is read, and the members that are there are read one by one as
they were written. The maps of the set that is read are built anew, so the two sets are not
the same term; `StateSet.Same` says that they hold the same, and then they are also
written alike.
-/

namespace EvmAtlas

section Maps

variable {κ β : Type} {order : κ → κ → Ordering}

/-- A map with all of its entries inserted anew. -/
def rebuild (entries : Std.TreeMap κ β order) : Std.TreeMap κ β order :=
  entries.toList.foldl (fun map entry => map.insert entry.1 entry.2) ∅

theorem rebuild_map {γ : Type} (change : κ → β → γ) (entries : Std.TreeMap κ β order) :
    rebuild (entries.map change) =
      entries.toList.foldl (fun map entry => map.insert entry.1 (change entry.1 entry.2)) ∅ := by
  rw [rebuild, Std.TreeMap.toList_map, List.foldl_map]

variable [Std.TransCmp order] [Std.LawfulEqCmp order]

theorem getElem?_rebuild [BEq κ] [Std.LawfulBEqCmp order] (entries : Std.TreeMap κ β order)
    (key : κ) : (rebuild entries)[key]? = entries[key]? := by
  have listed : (Std.TreeMap.ofList entries.toList order).Equiv (rebuild entries) :=
    Std.TreeMap.ofList_equiv_foldl
  rw [← listed.getElem?_eq]
  cases found : entries[key]? with
  | some value =>
      exact Std.TreeMap.getElem?_ofList_of_mem Std.ReflCmp.compare_self
        Std.TreeMap.distinct_keys_toList (Std.TreeMap.mem_toList_iff_getElem?_eq_some.mpr found)
  | none =>
      apply Std.TreeMap.getElem?_ofList_of_contains_eq_false
      rw [Std.TreeMap.map_fst_toList_eq_keys, Std.TreeMap.contains_keys,
        Std.TreeMap.contains_eq_isSome_getElem?, found, Option.isSome_none]

theorem toList_eq_of_getElem? {left right : Std.TreeMap κ β order}
    (same : ∀ key : κ, left[key]? = right[key]?) : left.toList = right.toList :=
  (Std.TreeMap.Equiv.of_forall_constGet?_eq same).toList_eq

theorem toList_rebuild [BEq κ] [Std.LawfulBEqCmp order] (entries : Std.TreeMap κ β order) :
    (rebuild entries).toList = entries.toList :=
  toList_eq_of_getElem? (getElem?_rebuild entries)

end Maps

/-- A fold whose steps all succeed. -/
theorem foldlM_eq_pure {μ : Type → Type} [Monad μ] [LawfulMonad μ] {α ε : Type}
    {step : α → ε → μ α} (next : α → ε → α) {list : List ε}
    (succeeds : ∀ value, ∀ item ∈ list, step value item = pure (next value item)) (start : α) :
    list.foldlM step start = pure (list.foldl next start) := by
  induction list generalizing start with
  | nil => rfl
  | cons item rest ih =>
      rw [List.foldlM_cons, succeeds start item List.mem_cons_self, pure_bind, List.foldl_cons]
      apply ih
      intro value other later
      exact succeeds value other (List.mem_cons_of_mem item later)

namespace Json

/-- Fields with plain names, all different. -/
def Named {α : Type} (fields : List (String × FieldReader α)) : Prop :=
  (fields.map Prod.fst).Nodup ∧ ∀ name ∈ fields.map Prod.fst, Plain name.toList

/-- Read members with given names, one after the other. -/
def readNamed {α : Type} (fields : List (String × FieldReader α)) (value : α)
    (entries : List (String × Json)) : Option α :=
  entries.foldlM (fun value entry => readMember fields value (entry.1.toList, entry.2)) value

variable {α : Type} {fields : List (String × FieldReader α)} {name : String}
  {read : FieldReader α}

theorem foldlM_readMember (value : α) (entries : List (String × Json)) :
    (entries.map fun entry => (entry.1.toList, entry.2)).foldlM (readMember fields) value =
      readNamed fields value entries :=
  List.foldlM_map

theorem readNamed_append (value : α) (first second : List (String × Json)) :
    readNamed fields value (first ++ second) =
      (readNamed fields value first).bind (readNamed fields · second) :=
  List.foldlM_append

theorem Named.select? (named : Named fields) (member : (name, read) ∈ fields) :
    Json.select? fields name.toList = some read := by
  have plain := named.2 name (List.mem_map_of_mem member)
  have found : fields.find? (fun entry => entry.1.toList == name.toList) =
      some (name, read) := by
    obtain ⟨before, after, rfl⟩ := List.append_of_mem member
    refine List.find?_eq_some_iff_append.mpr ⟨by simp, before, after, rfl, ?_⟩
    intro entry earlier
    have distinct := named.1
    rw [List.map_append, List.map_cons, List.nodup_append] at distinct
    have apart := distinct.2.2 entry.1 (List.mem_map_of_mem earlier) name List.mem_cons_self
    simpa [String.toList_inj] using apart
  rw [Json.select?, unescape_plain plain]
  simp only [found]

theorem Named.readNamed_cons (named : Named fields) (member : (name, read) ∈ fields) (value : α)
    (json : Json) (rest : List (String × Json)) :
    readNamed fields value ((name, json) :: rest) =
      (read value json).bind (readNamed fields · rest) := by
  rw [readNamed, List.foldlM_cons, readMember, named.select? member]
  rfl

/-- A member that is left out where it would change nothing. -/
theorem Named.readNamed_optional (named : Named fields) (member : (name, read) ∈ fields)
    {absent : Prop} [Decidable absent] {json : Json} {value after : α}
    (unchanged : absent → after = value) (changed : read value json = some after) :
    readNamed fields value (if absent then [] else [(name, json)]) = some after := by
  split
  · next left_out =>
      rw [unchanged left_out]
      rfl
  · rw [named.readNamed_cons member, changed]
    rfl

end Json

theorem Hex.IsDigits.plain {digits : List Char} (written : IsDigits digits) :
    Json.Plain ('0' :: 'x' :: digits) := by
  have plain : ∀ digit < 16, Json.IsPlain (Nat.digitChar digit) := by
    decide
  intro char member
  simp only [List.mem_cons] at member
  rcases member with rfl | rfl | later
  · decide
  · decide
  · obtain ⟨digit, small, rfl⟩ := written char later
    exact plain digit small

theorem Word.toList_fullText (word : Word) :
    word.fullText.toList = '0' :: 'x' :: (Hex.padded 64 word.toNat).toList := by
  rw [fullText, String.toList_append]
  rfl

theorem Address.toList_plainText (address : Address) :
    address.plainText.toList = '0' :: 'x' :: (Hex.padded 40 address.toNat).toList := by
  rw [plainText, digits, String.ofList_toList, String.toList_append]
  rfl

namespace Account

theorem named_fields : Json.Named fields := by
  unfold Json.Named
  decide

/-- An account as it is read back: the same, with its storage built anew. -/
def reread (account : Account) : Account :=
  { account with storage := rebuild account.storage }

theorem readSlot_fullText (storage : Std.TreeMap Word Word) (slot value : Word) :
    readSlot storage (slot.fullText.toList, .fixed 64 value.toNat) =
      some (storage.insert slot value) := by
  rw [readSlot, slot.toList_fullText]
  dsimp only
  rw [Hex.fixed?_padded (Hex.length_word_le slot), Json.toHash?_fixed]
  simp

theorem readStorage_storageJson (account : Account) (storage : Std.TreeMap Word Word)
    (fresh : account.storage = ∅) :
    readStorage account (storageJson storage) =
      some { account with storage := rebuild storage } := by
  have read := foldlM_eq_pure _ (fun read (entry : Word × Word)
    (_ : entry ∈ storage.toList) => readSlot_fullText read entry.1 entry.2) ∅
  rw [storageJson, readStorage, List.foldlM_map, fresh, read]
  rfl

theorem ofJson?_members (entries : List (String × Json)) :
    ofJson? (.members entries) = (Json.readNamed fields {} entries).map some := by
  rw [Json.members, ofJson?, Json.foldlM_readMember]

theorem ofJson?_toJson (account : Account) :
    ofJson? account.toJson = some (some account.reread) := by
  obtain ⟨nonce, balance, code, storage⟩ := account
  have nonce_read : Json.readNamed fields {}
      (if nonce = 0 then [] else [("nonce", .quantity nonce.toNat)]) = some { nonce } := by
    apply named_fields.readNamed_optional (.head _)
    · rintro rfl
      rfl
    · simp
  have balance_read : Json.readNamed fields { nonce }
      (if balance = 0 then [] else [("balance", .quantity balance.toNat)]) =
        some { nonce, balance } := by
    apply named_fields.readNamed_optional (.tail _ (.head _))
    · rintro rfl
      rfl
    · simp
  have code_read : Json.readNamed fields { nonce, balance }
      (if code.size = 0 then [] else [("code", .bytes code)]) =
        some { nonce, balance, code } := by
    apply named_fields.readNamed_optional (.tail _ (.tail _ (.head _)))
    · intro empty
      rw [ByteArray.size_eq_zero_iff.mp empty]
    · simp
  have storage_read : Json.readNamed fields { nonce, balance, code }
      (if storage.isEmpty then [] else [("storage", storageJson storage)]) =
        some { nonce, balance, code, storage := rebuild storage } := by
    apply named_fields.readNamed_optional (.tail _ (.tail _ (.tail _ (.head _))))
    · intro empty
      rw [rebuild, List.isEmpty_iff.mp ((Std.TreeMap.isEmpty_toList).trans empty)]
      rfl
    · exact readStorage_storageJson _ storage rfl
  rw [toJson, ofJson?_members, Json.readNamed_append, Json.readNamed_append,
    Json.readNamed_append, nonce_read, Option.bind_some, balance_read, Option.bind_some, code_read,
    Option.bind_some, storage_read]
  rfl

/-- Accounts that hold the same. -/
structure Same (left right : Account) : Prop where
  nonce_eq : left.nonce = right.nonce
  balance_eq : left.balance = right.balance
  code_eq : left.code = right.code
  storage_eq : ∀ slot : Word, left.storage[slot]? = right.storage[slot]?

theorem same_reread (account : Account) : account.reread.Same account where
  nonce_eq := rfl
  balance_eq := rfl
  code_eq := rfl
  storage_eq := getElem?_rebuild account.storage

theorem Same.toJson_eq {left right : Account} (same : left.Same right) :
    left.toJson = right.toJson := by
  have slots := toList_eq_of_getElem? same.storage_eq
  have empty : left.storage.isEmpty = right.storage.isEmpty := by
    rw [← Std.TreeMap.isEmpty_toList, slots, Std.TreeMap.isEmpty_toList]
  rw [toJson, toJson, same.nonce_eq, same.balance_eq, same.code_eq, empty, storageJson,
    storageJson, slots]

end Account

theorem BlockInfo.named_fields : Json.Named fields := by
  unfold Json.Named
  decide

namespace StateSet

theorem named_fields : Json.Named fields := by
  unfold Json.Named
  decide

/-- A state set as it is read back: the same, with its maps built anew. -/
def reread (set : StateSet) : StateSet where
  block := set.block
  accounts := rebuild (set.accounts.map fun _ account => Account.reread account)

/-- A state set as its members are read back, when no account is null. -/
def redraft (set : StateSet) : Draft where
  block := set.block
  accounts := rebuild (set.accounts.map fun _ account => some (Account.reread account))

theorem readBlock_toJson (draft : Draft) (fresh : draft.block = none) (block : BlockInfo) :
    readBlock draft block.toJson = some { draft with block := some block } := by
  obtain ⟨timestamp, number, coinbase, gasLimit, difficulty⟩ := block
  have named := BlockInfo.named_fields
  have first := named.readNamed_cons (.head _)
  have second := named.readNamed_cons (.tail _ (.head _))
  have third := named.readNamed_cons (.tail _ (.tail _ (.head _)))
  have fourth := named.readNamed_cons (.tail _ (.tail _ (.tail _ (.head _))))
  have fifth := named.readNamed_cons (.tail _ (.tail _ (.tail _ (.tail _ (.head _)))))
  rw [BlockInfo.toJson, Json.members, readBlock, Json.foldlM_readMember, fresh]
  simp only [List.cons_append, List.nil_append, first, second, third, fourth,
    Json.toUInt64?_quantity, Json.toAddress?_fixed, Option.map_some, Option.bind_some]
  cases difficulty with
  | none => rfl
  | some difficulty =>
      rw [fifth, Json.toOption?_quantity]
      rfl

theorem readAccount_plainText (accounts : Std.TreeMap Address (Option Account))
    (address : Address) (account : Account) :
    readAccount accounts (address.plainText.toList, account.toJson) =
      some (accounts.insert address (some account.reread)) := by
  rw [readAccount, account.ofJson?_toJson, address.toList_plainText]
  dsimp only
  rw [Hex.fixed?_padded (Hex.length_address_le address)]
  simp

theorem readAccounts_toJson (draft : Draft) (fresh : draft.accounts = ∅)
    (accounts : Std.TreeMap Address Account) :
    readAccounts draft (.object (accounts.toList.map fun entry =>
        (entry.1.plainText.toList, entry.2.toJson))) =
      some { draft with
        accounts := rebuild (accounts.map fun _ account => some (Account.reread account)) } := by
  have read := foldlM_eq_pure _ (fun read (entry : Address × Account)
    (_ : entry ∈ accounts.toList) => readAccount_plainText read entry.1 entry.2) ∅
  rw [readAccounts, List.foldlM_map, fresh, read, rebuild_map]
  rfl

theorem draft?_members (entries : List (String × Json)) :
    draft? (.members entries) = Json.readNamed fields {} entries := by
  rw [Json.members, draft?, Json.foldlM_readMember]

theorem draft?_toJson (set : StateSet) : draft? set.toJson = some set.redraft := by
  obtain ⟨block, accounts⟩ := set
  have read_accounts (draft : Draft) := named_fields.readNamed_cons (.tail _ (.head _)) draft
  rw [toJson, draft?_members]
  cases block with
  | none =>
      rw [List.nil_append, read_accounts, readAccounts_toJson {} rfl]
      rfl
  | some block =>
      rw [List.singleton_append, named_fields.readNamed_cons (.head _),
        readBlock_toJson {} rfl, Option.bind_some, read_accounts, readAccounts_toJson _ rfl]
      rfl

theorem ofDraft_redraft (set : StateSet) : ofDraft set.redraft = .ok set.reread := by
  obtain ⟨block, accounts⟩ := set
  rw [redraft, ofDraft]
  dsimp only
  rw [toList_rebuild, Std.TreeMap.toList_map, List.foldlM_map]
  refine (foldlM_eq_pure (fun set entry =>
    { set with accounts := set.accounts.insert entry.1 entry.2.reread }) ?_ _).trans ?_
  · intro set entry _
    rfl
  · rw [reread, rebuild_map]
    apply congrArg Except.ok
    apply List.foldl_hom (fun accounts => ({ block, accounts } : StateSet))
    intro accounts entry
    rfl

theorem ofJson_toJson (set : StateSet) : ofJson set.toJson = .ok set.reread := by
  rw [ofJson, draft?_toJson]
  exact set.ofDraft_redraft

/-- State sets that hold the same. -/
structure Same (left right : StateSet) : Prop where
  block_eq : left.block = right.block
  accounts_same : ∀ address : Address,
    Option.Rel Account.Same left.accounts[address]? right.accounts[address]?

theorem same_reread (set : StateSet) : set.reread.Same set where
  block_eq := rfl
  accounts_same address := by
    rw [reread, getElem?_rebuild, Std.TreeMap.getElem?_map]
    cases set.accounts[address]? with
    | none => exact .none
    | some account => exact .some account.same_reread

theorem Same.toJson_eq {left right : StateSet} (same : left.Same right) :
    left.toJson = right.toJson := by
  have accounts_eq (address : Address) :
      (left.accounts.map fun _ account => Account.toJson account)[address]? =
        (right.accounts.map fun _ account => Account.toJson account)[address]? := by
    rw [Std.TreeMap.getElem?_map, Std.TreeMap.getElem?_map]
    have account_same := same.accounts_same address
    generalize left.accounts[address]? = account, right.accounts[address]? = other
      at account_same
    cases account_same with
    | none => rfl
    | some account_same => exact congrArg some account_same.toJson_eq
  have listed := congrArg (List.map fun entry : Address × Json =>
    (entry.1.plainText.toList, entry.2)) (toList_eq_of_getElem? accounts_eq)
  rw [Std.TreeMap.toList_map, Std.TreeMap.toList_map, List.map_map, List.map_map] at listed
  rw [toJson, toJson, same.block_eq]
  exact congrArg (fun entries => Json.members (_ ++ [("accounts", .object entries)])) listed

end StateSet

namespace Json

variable {depth : Nat}

theorem simple_quantity (number : Nat) : Simple depth (.quantity number) :=
  .string (Hex.spells_toDigits number).isDigits.plain

theorem simple_fixed (width number : Nat) : Simple depth (.fixed width number) :=
  .string (Hex.isDigits_padded width number).plain

theorem simple_bytes (data : Bytes) : Simple depth (.bytes data) :=
  .string (Hex.isDigits_flatMap_ofByte data.toList).plain

end Json

theorem BlockInfo.simple_toJson (block : BlockInfo) (depth : Nat) :
    Json.Simple (depth + 1) block.toJson := by
  apply Json.simple_members
  rw [List.forall_mem_append]
  constructor
  · simp only [List.forall_mem_cons, List.not_mem_nil, false_imp_iff, implies_true, and_true]
    exact ⟨.mk (by decide) (Json.simple_quantity _), .mk (by decide) (Json.simple_quantity _),
      .mk (by decide) (Json.simple_fixed 40 _), .mk (by decide) (Json.simple_quantity _)⟩
  · cases block.difficulty with
    | none => nofun
    | some difficulty =>
        rw [List.forall_mem_singleton]
        exact .mk (by decide) (Json.simple_quantity _)

theorem Account.simple_storageJson (storage : Std.TreeMap Word Word) (depth : Nat) :
    Json.Simple (depth + 1) (storageJson storage) := by
  apply Json.Simple.object
  · simp only [List.forall_mem_map]
    intro entry _
    rw [Word.toList_fullText]
    exact (Hex.isDigits_padded 64 _).plain
  · simp only [List.forall_mem_map]
    intro entry _
    exact Json.simple_fixed 64 _

theorem Account.simple_toJson (account : Account) (depth : Nat) :
    Json.Simple (depth + 2) account.toJson := by
  apply Json.simple_members
  simp only [List.forall_mem_append]
  refine ⟨⟨⟨?_, ?_⟩, ?_⟩, ?_⟩
  · exact Json.simple_optional (.mk (by decide) (Json.simple_quantity _)) _
  · exact Json.simple_optional (.mk (by decide) (Json.simple_quantity _)) _
  · exact Json.simple_optional (.mk (by decide) (Json.simple_bytes _)) _
  · exact Json.simple_optional (.mk (by decide) (simple_storageJson _ depth)) _

theorem StateSet.simple_toJson (set : StateSet) : Json.Simple 4 set.toJson := by
  apply Json.simple_members
  rw [List.forall_mem_append, List.forall_mem_singleton]
  constructor
  · cases set.block with
    | none => nofun
    | some block =>
        rw [List.forall_mem_singleton]
        exact .mk (by decide) (block.simple_toJson 2)
  · refine .mk (by decide) (.object ?_ ?_)
    · simp only [List.forall_mem_map]
      intro entry _
      rw [Address.toList_plainText]
      exact (Hex.isDigits_padded 40 _).plain
    · simp only [List.forall_mem_map]
      intro entry _
      exact entry.2.simple_toJson 0

namespace StateSet

/-- The texts of a state set: without blanks, and as it is saved. -/
def texts (set : StateSet) : List String :=
  [set.toJson.compactText, set.toJson.indentedText]

theorem read?_texts {set : StateSet} {text : String} (written : text ∈ set.texts) :
    Json.read? text.toList = some set.toJson := by
  have shallow : 4 ≤ Json.Reader.depthLimit := by
    decide
  simp only [texts, List.mem_cons, List.not_mem_nil, or_false] at written
  rcases written with rfl | rfl
  · exact set.simple_toJson.read?_compactText shallow
  · exact set.simple_toJson.read?_indentedText shallow

theorem ofText_texts {set : StateSet} {text : String} (written : text ∈ set.texts) :
    ofText text = .ok set.reread := by
  rw [ofText, read?_texts written]
  exact set.ofJson_toJson

theorem Same.texts_eq {left right : StateSet} (same : left.Same right) :
    left.texts = right.texts := by
  rw [texts, texts, same.toJson_eq]

end StateSet

/-- A state set is read back from its texts. Every set is read from either of its texts as a
set with the same block and the same accounts, each with the same nonce, balance, code and
storage. And whatever text a set was read from, it is read from its own texts as the same
set, which then has the same texts. -/
theorem state_set_survives_saving :
    (∀ set : StateSet, ∀ text ∈ set.texts,
      ∃ again, StateSet.ofText text = .ok again ∧ again.Same set) ∧
    ∀ text set, StateSet.ofText text = .ok set →
      ∀ written ∈ set.texts, ∃ again,
        StateSet.ofText written = .ok again ∧ again.Same set ∧ again.texts = set.texts := by
  constructor
  · intro set text written
    exact ⟨set.reread, StateSet.ofText_texts written, set.same_reread⟩
  · intro text set _ written member
    exact ⟨set.reread, StateSet.ofText_texts member, set.same_reread, set.same_reread.texts_eq⟩

end EvmAtlas
