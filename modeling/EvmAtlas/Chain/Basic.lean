import EvmAtlas.Fault
import EvmAtlas.Bytes

/-!
# Chain state

What the machine asks of a chain: its block, and nonce, balance, code and storage of its
accounts. An answer may fail, and asking may change the state behind the chain, for
instance when an answer is remembered. A chain that accepts writes has a `writer`.
-/

namespace EvmAtlas

structure BlockInfo where
  timestamp : UInt64 := 0
  number : UInt64 := 0
  coinbase : Address := 0
  gasLimit : UInt64 := 0
  difficulty : Option Word := none
  deriving DecidableEq, Repr

/-- A question to a state: an answer or a fault, and the state afterwards. -/
abbrev Access (σ α : Type) := σ → Except Fault α × σ

namespace Access

def pure {σ α : Type} (answer : α) : Access σ α :=
  fun state => (.ok answer, state)

def fail {σ α : Type} (fault : Fault) : Access σ α :=
  fun state => (.error fault, state)

/-- Ask a second question that depends on the answer to a first one. -/
def bind {σ α β : Type} (first : Access σ α) (second : α → Access σ β) : Access σ β :=
  fun state =>
    match first state with
    | (.ok answer, next) => second answer next
    | (.error fault, next) => (.error fault, next)

end Access

/-- The writes that a chain accepts. -/
structure ChainWriter (σ : Type) where
  setNonce : Address → UInt64 → Access σ Unit
  setBalance : Address → Word → Access σ Unit
  setCode : Address → Bytes → Access σ Unit
  setStorage : Address → Word → Word → Access σ Unit

/-- A chain over a state. -/
structure Chain (σ : Type) where
  block : Access σ BlockInfo
  nonce : Address → Access σ UInt64
  /-- A chain may not know a balance, which then counts as zero. -/
  balance : Address → Access σ (Option Word)
  code : Address → Access σ Bytes
  storage : Address → Word → Access σ Word
  /-- The writes of a chain that accepts any. -/
  writer : Option (ChainWriter σ)

end EvmAtlas
