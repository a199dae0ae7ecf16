import EvmAtlas.Chain.Records
import EvmAtlas.Chain.Slot

/-!
# Read caches

A read cache remembers every answer of the chain below it and never asks twice. A failed
question is not remembered, so it is asked again. Writes do not pass through a cache. An answer is
a value, and what is done with it later does not reach the cache.
-/

namespace EvmAtlas

/-- The answers that a cache remembers. -/
structure ReadCache where
  block : Option BlockInfo := none
  records : Records := {}

namespace ReadCache

variable {σ : Type}

/-- Remember one write's worth of data. -/
def learn (cache : ReadCache) (write : Write) : ReadCache :=
  { cache with records := cache.records.note write }

/-- Answer from what is known, or else ask and remember the answer. -/
def answerOnce {α : Type} (slot : Slot σ ReadCache) (known : ReadCache → Option α)
    (ask : Access σ α) (remember : ReadCache → α → ReadCache) : Access σ α :=
  fun state =>
    match known (slot.get state) with
    | some answer => (.ok answer, state)
    | none =>
        match ask state with
        | (.ok answer, after) => (.ok answer, slot.modify (remember · answer) after)
        | (.error fault, after) => (.error fault, after)

/-- The chain of a cache over a base. A balance that the base does not know is remembered
as zero. -/
def chain (slot : Slot σ ReadCache) (base : Chain σ) : Chain σ where
  block := answerOnce slot ReadCache.block base.block fun cache block =>
    { cache with block := some block }
  nonce address := answerOnce slot (·.records.nonces[address]?) (base.nonce address)
    fun cache nonce => cache.learn (.nonce address nonce)
  balance address :=
    .bind (answerOnce slot (·.records.balances[address]?)
        (.bind (base.balance address) fun balance => .pure (balance.getD 0))
        fun cache balance => cache.learn (.balance address balance))
      fun balance => .pure (some balance)
  code address := answerOnce slot (·.records.codes[address]?) (base.code address)
    fun cache code => cache.learn (.code address code)
  storage address key :=
    answerOnce slot (·.records.storage[(address, key)]?) (base.storage address key)
      fun cache value => cache.learn (.storage address key value)
  writer := none

end ReadCache

end EvmAtlas
