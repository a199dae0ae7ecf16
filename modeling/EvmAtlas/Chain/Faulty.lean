import EvmAtlas.Chain.Records
import EvmAtlas.Chain.Slot

/-!
# Faulty chains

A faulty chain stands in front of another one, passes every operation on and counts it.
Chosen operations fail instead, and balances may be withheld. It shows how the layers
above it behave when the chain below does not answer.
-/

namespace EvmAtlas

/-- The operations of a chain. -/
inductive ChainOperation where
  | block | nonce | balance | code | storage
  | setNonce | setBalance | setCode | setStorage
  deriving DecidableEq, Repr

def Write.operation : Write → ChainOperation
  | .nonce _ _ => .setNonce
  | .balance _ _ => .setBalance
  | .code _ _ => .setCode
  | .storage _ _ _ => .setStorage

/-- What a faulty chain does not do. -/
structure Failures where
  operations : List ChainOperation := []
  /-- Whether balances are answered with nothing. -/
  withholdsBalances : Bool := false

/-- What a faulty chain does not do, and how often it was asked. -/
structure Faulty where
  failures : Failures := {}
  calls : Nat := 0

namespace Faulty

variable {σ : Type}

/-- Count an operation, and fail if it is a chosen one. -/
def attempt {α : Type} (slot : Slot σ Faulty) (operation : ChainOperation)
    (ask : Access σ α) : Access σ α :=
  fun state =>
    let faulty := slot.get state
    let counted := slot.set { faulty with calls := faulty.calls + 1 } state
    if operation ∈ faulty.failures.operations then (.error (.ofText "unavailable"), counted)
    else ask counted

/-- A balance, unless balances are withheld. -/
def balance (slot : Slot σ Faulty) (base : Chain σ) (address : Address) :
    Access σ (Option Word) :=
  fun state =>
    if (slot.get state).failures.withholdsBalances then (.ok none, state)
    else base.balance address state

/-- Pass a write on to a base that may not accept any. -/
def pass (base : Chain σ) (write : Write) : Access σ Unit :=
  match base.writer with
  | some writer => writer.perform write
  | none => .fail (.ofCause .readOnlyState)

/-- The chain of a faulty layer over a base. -/
def chain (slot : Slot σ Faulty) (base : Chain σ) : Chain σ where
  block := attempt slot .block base.block
  nonce address := attempt slot .nonce (base.nonce address)
  balance address := attempt slot .balance (balance slot base address)
  code address := attempt slot .code (base.code address)
  storage address key := attempt slot .storage (base.storage address key)
  writer := some (.ofPerform fun write => attempt slot write.operation (pass base write))

end Faulty

/-- A chain without its writes. -/
def Chain.readOnly {σ : Type} (base : Chain σ) : Chain σ :=
  { base with writer := none }

end EvmAtlas
