import Std.Data.TreeMap
import EvmAtlas.Chain.Basic
import EvmAtlas.Chain.Slot

/-!
# State sets

A chain held in memory: accounts by address, and possibly a block. An address that is not
in the set reads as an empty account; writing to it adds it. A set always has its maps, which may
be empty.
-/

namespace EvmAtlas

/-- The state of one address. -/
structure Account where
  nonce : UInt64 := 0
  balance : Word := 0
  code : Bytes := ByteArray.empty
  storage : Std.TreeMap Word Word := ∅

/-- A chain held in memory. -/
structure StateSet where
  block : Option BlockInfo := none
  accounts : Std.TreeMap Address Account := ∅

namespace StateSet

/-- The account of an address, empty if the set does not hold it. -/
def account (set : StateSet) (address : Address) : Account :=
  set.accounts.getD address {}

/-- Change the account of an address, adding it if the set does not hold it. -/
def modifyAccount (set : StateSet) (address : Address) (change : Account → Account) :
    StateSet :=
  { set with accounts := set.accounts.insert address (change (set.account address)) }

/-- The value of a storage slot, zero if the account does not hold it. -/
def storageAt (set : StateSet) (address : Address) (slot : Word) : Word :=
  (set.account address).storage.getD slot 0

def setNonce (set : StateSet) (address : Address) (nonce : UInt64) : StateSet :=
  set.modifyAccount address fun account => { account with nonce }

def setBalance (set : StateSet) (address : Address) (balance : Word) : StateSet :=
  set.modifyAccount address fun account => { account with balance }

def setCode (set : StateSet) (address : Address) (code : Bytes) : StateSet :=
  set.modifyAccount address fun account => { account with code }

/-- Write a storage slot. A zero is not held. -/
def setStorage (set : StateSet) (address : Address) (slot value : Word) : StateSet :=
  set.modifyAccount address fun account =>
    { account with
      storage :=
        if value = 0 then account.storage.erase slot else account.storage.insert slot value }

def writer {σ : Type} (slot : Slot σ StateSet) : ChainWriter σ where
  setNonce address nonce state := (.ok (), slot.modify (·.setNonce address nonce) state)
  setBalance address balance state :=
    (.ok (), slot.modify (·.setBalance address balance) state)
  setCode address code state := (.ok (), slot.modify (·.setCode address code) state)
  setStorage address key value state :=
    (.ok (), slot.modify (·.setStorage address key value) state)

/-- The chain of the state set in a slot. -/
def chain {σ : Type} (slot : Slot σ StateSet) : Chain σ where
  block state := (.ok ((slot.get state).block.getD {}), state)
  nonce address state := (.ok ((slot.get state).account address).nonce, state)
  balance address state := (.ok (some ((slot.get state).account address).balance), state)
  code address state := (.ok ((slot.get state).account address).code, state)
  storage address key state := (.ok ((slot.get state).storageAt address key), state)
  writer := some (writer slot)

end StateSet

/-- A chain without accounts. -/
def emptyChain {σ : Type} (block : BlockInfo) : Chain σ where
  block := .pure block
  nonce _ := .pure 0
  balance _ := .pure (some 0)
  code _ := .pure ByteArray.empty
  storage _ _ := .pure 0
  writer := none

end EvmAtlas
