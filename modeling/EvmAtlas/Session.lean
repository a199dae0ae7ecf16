import EvmAtlas.Chain.Layers
import EvmAtlas.Machine.Run

/-!
# Sessions

A session is a conversation with a stack of layers: reads, writes, commits and calls, each
addressed to one layer. It may keep one interpreter, which runs calls on the layer it was
made for.
-/

namespace EvmAtlas

/-- What can be asked of a layer. -/
inductive Request where
  | block
  | nonce (address : Address)
  | balance (address : Address)
  | code (address : Address)
  | storage (address : Address) (slot : Word)
  | write (write : Write)
  /-- Replace the block of a state set. -/
  | setBlock (block : Option BlockInfo)
  /-- Commit an overlay to a layer. -/
  | commit (target : Nat)
  /-- Replace the failures of a faulty layer. -/
  | setFailures (failures : Failures)
  | isWritable
  | isDirty
  | evaluate (call : Call) (block : Option BlockInfo) (transaction : Option TransactionInfo)
      (config : Option MachineConfig)
  /-- Keep an interpreter for this layer. -/
  | interpreter (block : Option BlockInfo) (transaction : Option TransactionInfo)
      (config : Option MachineConfig)
  /-- Run a call on the interpreter that is kept. -/
  | call (call : Call)

/-- Why a request makes no sense. -/
inductive Refusal where
  | noSuchLayer | notWritable | notASet | notAnOverlay | notFaulty | noInterpreter
  deriving DecidableEq, Repr

def Refusal.text : Refusal → String
  | .noSuchLayer => "no such layer"
  | .notWritable => "layer is not writable"
  | .notASet => "layer is not a set"
  | .notAnOverlay => "layer is not an overlay"
  | .notFaulty => "layer is not faulty"
  | .noInterpreter => "no interpreter"

inductive Answer where
  | done
  | block (block : BlockInfo)
  | nonce (nonce : UInt64)
  | balance (balance : Option Word)
  | code (code : Bytes)
  | storage (value : Word)
  | writable (writable : Bool)
  | dirty (dirty : Bool)
  | verdict (verdict : Verdict)
  | failed (fault : Fault)

/-- A stack of layers, and the interpreter that is kept, with its layer. -/
structure Session where
  layers : Layers
  interpreter : Option (Interpreter × Chain LayerStore) := none

namespace Session

/-- The same session with another store. -/
def withStore (session : Session) (store : LayerStore) : Session :=
  { session with layers := { session.layers with store } }

/-- Answer by one access to the store. -/
def access {α : Type} (session : Session) (ask : Access LayerStore α) (answer : α → Answer) :
    Answer × Session :=
  match ask session.layers.store with
  | (.ok value, store) => (answer value, session.withStore store)
  | (.error fault, store) => (.failed fault, session.withStore store)

def writer (session : Session) (index : Nat) : Except Refusal (ChainWriter LayerStore) :=
  match session.layers.chains[index]? with
  | none => .error .noSuchLayer
  | some chain =>
      match chain.writer with
      | some writer => .ok writer
      | none => .error .notWritable

/-- Run a call on the interpreter that is kept. -/
def runKept (session : Session) (call : Call) (steps : Nat) :
    Except Refusal (Answer × Session) :=
  match session.interpreter with
  | none => .error .noInterpreter
  | some (interpreter, chain) =>
      let (verdict, after, store) := interpreter.call chain call steps session.layers.store
      .ok (.verdict verdict,
        { session.withStore store with interpreter := some (after, chain) })

/-- Answer a request to a layer. A call may take a number of steps. -/
def perform (session : Session) (index : Nat) (request : Request) (steps : Nat) :
    Except Refusal (Answer × Session) :=
  let store := session.layers.store
  match session.layers.chains[index]? with
  | none => .error .noSuchLayer
  | some chain =>
      match request with
      | .block => .ok (session.access chain.block .block)
      | .nonce address => .ok (session.access (chain.nonce address) .nonce)
      | .balance address => .ok (session.access (chain.balance address) .balance)
      | .code address => .ok (session.access (chain.code address) .code)
      | .storage address slot => .ok (session.access (chain.storage address slot) .storage)
      | .write write => do
          let writer ← session.writer index
          return session.access (writer.perform write) fun _ => .done
      | .setBlock block =>
          match store[index]? with
          | some (.set set) =>
              .ok (.done,
                session.withStore ((LayerStore.setSlot index).set { set with block } store))
          | _ => .error .notASet
      | .commit target =>
          match store[index]? with
          | some (.overlay _) => do
              let writer ← session.writer target
              return session.access (Overlay.commit (LayerStore.overlaySlot index) writer)
                fun _ => .done
          | _ => .error .notAnOverlay
      | .setFailures failures =>
          match store[index]? with
          | some (.faulty faulty) =>
              .ok (.done, session.withStore
                ((LayerStore.faultySlot index).set { faulty with failures } store))
          | _ => .error .notFaulty
      | .isWritable => .ok (.writable chain.writer.isSome, session)
      | .isDirty =>
          match store[index]? with
          | some (.overlay _) =>
              .ok (.dirty (Overlay.isDirty (LayerStore.overlaySlot index) store), session)
          | _ => .error .notAnOverlay
      | .evaluate call block transaction config =>
          let (verdict, store) := evaluate chain block transaction call config steps store
          .ok (.verdict verdict, session.withStore store)
      | .interpreter block transaction config =>
          .ok (.done, { session with
            interpreter := some (.fresh block transaction config, chain) })
      | .call call => session.runKept call steps

end Session

end EvmAtlas
