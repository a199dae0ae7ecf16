import Std.Data.TreeMap
import EvmAtlas.Chain.Basic

/-!
# Records of accounts

What is known about some accounts: for each of the four kinds of data a map that need not
hold every address. A record says nothing about the addresses and slots it does not hold.
The data of a record can also be read as a list of writes, in a fixed order.
-/

namespace EvmAtlas

/-- The order of storage slots: by address, then by slot. -/
def slotOrder : Address × Word → Address × Word → Ordering :=
  compareLex (compareOn Prod.fst) (compareOn Prod.snd)

instance : Std.TransCmp slotOrder :=
  inferInstanceAs (Std.TransCmp (compareLex (compareOn Prod.fst) (compareOn Prod.snd)))

instance : Std.LawfulEqCmp slotOrder where
  eq_of_compare equal := by
    simp [slotOrder, compareLex, Ordering.then_eq_eq, compareOn] at equal
    exact Prod.ext equal.1 equal.2

/-- Data of some accounts. -/
structure Records where
  nonces : Std.TreeMap Address UInt64 := ∅
  balances : Std.TreeMap Address Word := ∅
  codes : Std.TreeMap Address Bytes := ∅
  storage : Std.TreeMap (Address × Word) Word slotOrder := ∅

inductive Write where
  | nonce (address : Address) (nonce : UInt64)
  | balance (address : Address) (balance : Word)
  | code (address : Address) (code : Bytes)
  | storage (address : Address) (slot value : Word)

namespace Records

def note (records : Records) : Write → Records
  | .nonce address nonce => { records with nonces := records.nonces.insert address nonce }
  | .balance address balance =>
      { records with balances := records.balances.insert address balance }
  | .code address code => { records with codes := records.codes.insert address code }
  | .storage address slot value =>
      { records with storage := records.storage.insert (address, slot) value }

def isEmpty (records : Records) : Bool :=
  records.nonces.isEmpty && records.balances.isEmpty && records.codes.isEmpty
    && records.storage.isEmpty

/-- The writes that make the records: nonces, then balances, codes and storage. -/
def writes (records : Records) : List Write :=
  records.nonces.toList.map (fun entry => .nonce entry.1 entry.2)
    ++ records.balances.toList.map (fun entry => .balance entry.1 entry.2)
    ++ records.codes.toList.map (fun entry => .code entry.1 entry.2)
    ++ records.storage.toList.map (fun entry => .storage entry.1.1 entry.1.2 entry.2)

end Records

namespace ChainWriter

variable {σ : Type}

def perform (writer : ChainWriter σ) : Write → Access σ Unit
  | .nonce address nonce => writer.setNonce address nonce
  | .balance address balance => writer.setBalance address balance
  | .code address code => writer.setCode address code
  | .storage address slot value => writer.setStorage address slot value

/-- Perform writes one after the other, up to the first that fails. -/
def performAll (writer : ChainWriter σ) : List Write → Access σ Unit
  | [] => .pure ()
  | write :: rest => .bind (writer.perform write) fun _ => writer.performAll rest

/-- A writer that does the same with every write. -/
def ofPerform (perform : Write → Access σ Unit) : ChainWriter σ where
  setNonce address nonce := perform (.nonce address nonce)
  setBalance address balance := perform (.balance address balance)
  setCode address code := perform (.code address code)
  setStorage address slot value := perform (.storage address slot value)

end ChainWriter

end EvmAtlas
