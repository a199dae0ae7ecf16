import EvmAtlas.Flow.Recovery

/-!
# Program cache

Recovery gives the same answer for the same code, so answers are kept by the hash of the
code, failures like successes. The cache holds a bounded number of answers and gives up
the one that was asked for least recently.
-/

namespace EvmAtlas

/-- A kept answer. -/
structure CachedRecovery where
  hash : Word
  result : Except Fault Program
  /-- The number of the request that recovered it, counted from zero. -/
  request : Nat

/-- Answers by hash, the most recently requested first, and counts of what was asked. -/
structure ProgramCache where
  config : RecoveryConfig
  capacity : Nat
  entries : List CachedRecovery
  successes : Nat
  failures : Nat
  hits : Nat
  /-- How many recoveries failed, by the category of their cause. -/
  causes : Std.TreeMap String Nat

namespace ProgramCache

/-- The number of answers kept where none is asked for. -/
def defaultCapacity : Nat := 1024

/-- An empty cache. A size that is not positive stands for the default. -/
def empty (size : Int) (config : RecoveryConfig) : ProgramCache where
  config := config
  capacity := if size ≤ 0 then defaultCapacity else size.toNat
  entries := []
  successes := 0
  failures := 0
  hits := 0
  causes := ∅

/-- The number of kept answers. -/
def size (cache : ProgramCache) : Nat :=
  cache.entries.length

/-- The number of requests so far. -/
def requests (cache : ProgramCache) : Nat :=
  cache.successes + cache.failures + cache.hits

/-- Count one more failed recovery of a cause. -/
def countCause (causes : Std.TreeMap String Nat) (fault : Fault) : Std.TreeMap String Nat :=
  causes.insert fault.cause.category (causes.getD fault.cause.category 0 + 1)

/-- The answer for a piece of code: the kept one, or a new one that is kept from now on. -/
def request (cache : ProgramCache) (code : Bytes) : CachedRecovery × ProgramCache :=
  let hash := keccak code
  match cache.entries.find? fun entry => entry.hash == hash with
  | some entry =>
      (entry, { cache with
        entries := entry :: cache.entries.filter fun other => other.hash != hash
        hits := cache.hits + 1 })
  | none =>
      let entry : CachedRecovery := ⟨hash, recover code cache.config, cache.requests⟩
      let kept := { cache with entries := (entry :: cache.entries).take cache.capacity }
      match entry.result with
      | .ok _ => (entry, { kept with successes := cache.successes + 1 })
      | .error fault =>
          (entry, { kept with
            failures := cache.failures + 1
            causes := countCause cache.causes fault })

end ProgramCache

end EvmAtlas
