import EvmAtlas.Chain.StateSet
import EvmAtlas.Json.Printer
import EvmAtlas.Json.Quantity
import EvmAtlas.Json.Reader
import EvmAtlas.Text.Lossy

/-!
# State sets as JSON

A state set is saved as an object with a block and accounts. Members are written in a
fixed order and left out where they are empty; they are read in any order and case, and
unknown ones are passed over. Where a member is repeated the last one counts, except that
repeated objects are read on top of each other.
-/

namespace EvmAtlas

namespace BlockInfo

def toJson (block : BlockInfo) : Json :=
  .members
    ([("timestamp", .quantity block.timestamp.toNat), ("number", .quantity block.number.toNat),
      ("coinbase", .fixed 40 block.coinbase.toNat),
      ("gasLimit", .quantity block.gasLimit.toNat)]
      ++ match block.difficulty with
        | some difficulty => [("difficulty", .quantity difficulty.toNat)]
        | none => [])

def fields : List (String × Json.FieldReader BlockInfo) :=
  [("timestamp", fun block value =>
      value.toUInt64?.map fun timestamp => { block with timestamp }),
    ("number", fun block value => value.toUInt64?.map fun number => { block with number }),
    ("coinbase", fun block value =>
      value.toAddress?.map fun coinbase => { block with coinbase }),
    ("gasLimit", fun block value =>
      value.toUInt64?.map fun gasLimit => { block with gasLimit }),
    ("difficulty", fun block value =>
      (Json.toOption? Json.toWord? value).map fun difficulty => { block with difficulty })]

end BlockInfo

namespace Account

/-- The storage of an account as JSON, by ascending slot. -/
def storageJson (storage : Std.TreeMap Word Word) : Json :=
  .object (storage.toList.map fun entry =>
    (entry.1.fullText.toList, .fixed 64 entry.2.toNat))

def toJson (account : Account) : Json :=
  .members
    ((if account.nonce = 0 then [] else [("nonce", .quantity account.nonce.toNat)])
      ++ (if account.balance = 0 then []
          else [("balance", .quantity account.balance.toNat)])
      ++ (if account.code.size = 0 then [] else [("code", .bytes account.code)])
      ++ (if account.storage.isEmpty then [] else [("storage", storageJson account.storage)]))

def readSlot (storage : Std.TreeMap Word Word) (entry : List Char × Json) :
    Option (Std.TreeMap Word Word) := do
  let slot ← Hex.fixed? 64 entry.1
  let value ← entry.2.toHash?
  return storage.insert (BitVec.ofNat 256 slot) value

/-- Read the storage of an account on top of what was read before. -/
def readStorage (account : Account) : Json → Option Account
  | .null => some { account with storage := ∅ }
  | .object members =>
      (members.foldlM readSlot account.storage).map fun storage => { account with storage }
  | _ => none

def fields : List (String × Json.FieldReader Account) :=
  [("nonce", fun account value => value.toUInt64?.map fun nonce => { account with nonce }),
    ("balance", fun account value =>
      (Json.toOption? Json.toWord? value).map fun balance =>
        { account with balance := balance.getD 0 }),
    ("code", fun account value => value.toBytes?.map fun code => { account with code }),
    ("storage", readStorage)]

/-- Read an account, or null in its place. -/
def ofJson? : Json → Option (Option Account)
  | .null => some none
  | .object members => (members.foldlM (Json.readMember fields) {}).map some
  | _ => none

end Account

namespace StateSet

def toJson (set : StateSet) : Json :=
  .members
    ((match set.block with
      | some block => [("block", block.toJson)]
      | none => [])
      ++ [("accounts", .object (set.accounts.toList.map fun entry =>
        (entry.1.plainText.toList, entry.2.toJson)))])

/-- A state set while it is read: accounts may still be null. -/
structure Draft where
  block : Option BlockInfo := none
  accounts : Std.TreeMap Address (Option Account) := ∅

/-- Read one account. A repeated address replaces the account read before. -/
def readAccount (accounts : Std.TreeMap Address (Option Account)) (entry : List Char × Json) :
    Option (Std.TreeMap Address (Option Account)) := do
  let account ← Account.ofJson? entry.2
  let address ← Hex.fixed? 40 entry.1
  return accounts.insert (BitVec.ofNat 160 address) account

/-- Read the block of a state set on top of what was read before. -/
def readBlock (draft : Draft) : Json → Option Draft
  | .null => some { draft with block := none }
  | .object members =>
      (members.foldlM (Json.readMember BlockInfo.fields) (draft.block.getD {})).map
        fun block => { draft with block := some block }
  | _ => none

/-- Read the accounts of a state set on top of what was read before. -/
def readAccounts (draft : Draft) : Json → Option Draft
  | .null => some { draft with accounts := ∅ }
  | .object members =>
      (members.foldlM readAccount draft.accounts).map fun accounts => { draft with accounts }
  | _ => none

def fields : List (String × Json.FieldReader Draft) :=
  [("block", readBlock), ("accounts", readAccounts)]

def draft? : Json → Option Draft
  | .null => some {}
  | .object members => members.foldlM (Json.readMember fields) {}
  | _ => none

/-- A state set without null accounts. -/
def ofDraft (draft : Draft) : Except Fault StateSet :=
  draft.accounts.toList.foldlM (fun set entry =>
    match entry.2 with
    | some account => .ok { set with accounts := set.accounts.insert entry.1 account }
    | none => .error (.ofText ("account " ++ entry.1.text ++ " is null")))
    { block := draft.block }

def ofJson (value : Json) : Except Fault StateSet :=
  match draft? value with
  | some draft => ofDraft draft
  | none => .error (.ofCause .malformedJson)

def ofText (text : String) : Except Fault StateSet :=
  match Json.read? text.toList with
  | some value => ofJson value
  | none => .error (.ofCause .malformedJson)

/-- Read a state set from the content of a file. -/
def ofBytes (content : Bytes) : Except Fault StateSet :=
  ofText content.asText

end StateSet

end EvmAtlas
