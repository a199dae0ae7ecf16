import EvmAtlas.Chain.Records
import EvmAtlas.Chain.Slot

/-!
# Overlays

An overlay keeps the writes made to it and shows them in front of a base chain, which it
never writes to. Its writes can be committed to any chain that accepts writes; only when
all of them have succeeded is the overlay clean again.
-/

namespace EvmAtlas.Overlay

variable {σ : Type}

/-- Answer from the writes, or else ask the base. -/
def shadow {α : Type} (slot : Slot σ Records) (written : Records → Option α)
    (ask : Access σ α) : Access σ α :=
  fun state =>
    match written (slot.get state) with
    | some answer => (.ok answer, state)
    | none => ask state

def keep (slot : Slot σ Records) (write : Write) : Access σ Unit :=
  fun state => (.ok (), slot.modify (·.note write) state)

/-- The chain of an overlay over a base. -/
def chain (slot : Slot σ Records) (base : Chain σ) : Chain σ where
  block := base.block
  nonce address := shadow slot (·.nonces[address]?) (base.nonce address)
  balance address :=
    shadow slot (fun records => records.balances[address]?.map some) (base.balance address)
  code address := shadow slot (·.codes[address]?) (base.code address)
  storage address key := shadow slot (·.storage[(address, key)]?) (base.storage address key)
  writer := some (.ofPerform (keep slot))

/-- Whether an overlay holds writes. -/
def isDirty (slot : Slot σ Records) (state : σ) : Bool :=
  !(slot.get state).isEmpty

/-- Perform the writes of an overlay on a target, and forget them if all succeed. -/
def commit (slot : Slot σ Records) (target : ChainWriter σ) : Access σ Unit :=
  fun state =>
    match target.performAll (slot.get state).writes state with
    | (.ok (), after) => (.ok (), slot.set {} after)
    | (.error fault, after) => (.error fault, after)

end EvmAtlas.Overlay
