import EvmAtlas.Chain.Faulty
import EvmAtlas.Chain.Overlay
import EvmAtlas.Chain.ReadCache
import EvmAtlas.Chain.Remote
import EvmAtlas.Chain.StateSetJson

/-!
# Layers

Chains are stacked: each layer but the lowest ones stands on an earlier layer. All layers
keep their data in one store, at the index of the layer, so that two layers on the same
base see each other's effects on it.
-/

namespace EvmAtlas

/-- The data of one layer. -/
inductive LayerData where
  | set (set : StateSet)
  | cache (cache : ReadCache)
  | overlay (records : Records)
  | faulty (faulty : Faulty)
  | remote (remote : Remote)
  /-- A layer without data of its own. -/
  | none

/-- The data of all layers. -/
abbrev LayerStore := Array LayerData

namespace LayerStore

/-- The place of one layer's data, seen as data of one kind. -/
def slot {α : Type} (index : Nat) (view : LayerData → Option α) (wrap : α → LayerData)
    (default : α) : Slot LayerStore α where
  get store := (store[index]?.bind view).getD default
  set value store := store.setIfInBounds index (wrap value)

/-- The state set of a layer. -/
def setSlot (index : Nat) : Slot LayerStore StateSet :=
  slot index (fun data => match data with | .set set => some set | _ => Option.none) .set {}

def cacheSlot (index : Nat) : Slot LayerStore ReadCache :=
  slot index (fun data => match data with | .cache cache => some cache | _ => Option.none)
    .cache {}

def overlaySlot (index : Nat) : Slot LayerStore Records :=
  slot index
    (fun data => match data with | .overlay records => some records | _ => Option.none)
    .overlay {}

/-- The failures and calls of a faulty layer. -/
def faultySlot (index : Nat) : Slot LayerStore Faulty :=
  slot index (fun data => match data with | .faulty faulty => some faulty | _ => Option.none)
    .faulty {}

/-- The node of a remote layer. -/
def remoteSlot (index : Nat) : Slot LayerStore Remote :=
  slot index (fun data => match data with | .remote remote => some remote | _ => Option.none)
    .remote { replies := [] }

end LayerStore

/-- What a layer is made from. A layer on another one names it by its index. -/
inductive LayerSpec where
  /-- A state set from its JSON. -/
  | set (state : Json)
  | empty (block : BlockInfo)
  | cache (on : Nat)
  | overlay (on : Nat)
  | readOnly (on : Nat)
  | faulty (on : Nat) (failures : Failures)
  /-- A remote chain, at a given block or at the node's latest one. -/
  | remote (replies : List (String × Json)) (number : Option UInt64)

/-- Why a layer cannot be added. -/
inductive LayerError where
  | noLayerBelow
  | failed (index : Nat) (fault : Fault)

/-- The chains of all layers and their common store. -/
structure Layers where
  chains : Array (Chain LayerStore) := Array.empty
  store : LayerStore := Array.empty

namespace Layers

def push (layers : Layers) (chain : Chain LayerStore) (data : LayerData) : Layers where
  chains := layers.chains.push chain
  store := layers.store.push data

def pushOn (layers : Layers) (on : Nat) (build : Chain LayerStore → Chain LayerStore)
    (data : LayerData) : Except LayerError Layers :=
  match layers.chains[on]? with
  | some base => .ok (layers.push (build base) data)
  | none => .error .noLayerBelow

def add (layers : Layers) (spec : LayerSpec) : Except LayerError Layers :=
  let index := layers.chains.size
  match spec with
  | .set state =>
      match StateSet.ofJson state with
      | .ok set => .ok (layers.push (StateSet.chain (LayerStore.setSlot index)) (.set set))
      | .error fault => .error (.failed index fault)
  | .empty block => .ok (layers.push (emptyChain block) .none)
  | .cache on => layers.pushOn on (ReadCache.chain (LayerStore.cacheSlot index)) (.cache {})
  | .overlay on => layers.pushOn on (Overlay.chain (LayerStore.overlaySlot index)) (.overlay {})
  | .readOnly on => layers.pushOn on Chain.readOnly .none
  | .faulty on failures =>
      layers.pushOn on (Faulty.chain (LayerStore.faultySlot index)) (.faulty { failures })
  | .remote replies number =>
      let found : Except Fault Remote :=
        match number with
        | some number => .ok { replies, number }
        | none => Remote.atLatest replies
      match found with
      | .ok remote =>
          .ok (layers.push (Remote.chain (LayerStore.remoteSlot index)) (.remote remote))
      | .error fault => .error (.failed index fault)

end Layers

end EvmAtlas
