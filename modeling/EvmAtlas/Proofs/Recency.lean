import Mathlib.Algebra.Ring.Nat
import Mathlib.Data.List.Dedup
import Mathlib.Data.List.Induction
import EvmAtlas.Flow.ProgramCache
import EvmAtlas.Proofs.SavedSets

/-!
# What a program cache remembers

A program cache keeps the answers for the codes that were asked for last, as many as it has room
for. `recency` lists all codes that were ever asked for, the one asked for last first, and
`ProgramCache.Remembers` says that the answers in the cache are those of the first codes of that
list, in its order. Every request keeps this, whether it is answered from the cache or not. A
request is therefore answered from the cache exactly when few enough other codes were asked for
since its code was asked for last.
-/

namespace EvmAtlas

section Recency

variable {α : Type}

theorem exists_last_occurrence {items : List α} {item : α} (member : item ∈ items) :
    ∃ earlier since, items = earlier ++ item :: since ∧ item ∉ since := by
  obtain ⟨after, before, reversed, last⟩ :=
    List.eq_append_cons_of_mem (List.mem_reverse.mpr member)
  refine ⟨before.reverse, after.reverse, ?_, by simpa using last⟩
  rw [← List.reverse_reverse items, reversed]
  simp

variable [DecidableEq α]

/-- A list with an item put to its front, and removed from where it was. -/
def promote (recent : List α) (item : α) : List α :=
  item :: recent.filter (· ≠ item)

/-- All items of a list, each once and the last one first. -/
def recency (items : List α) : List α :=
  items.foldl promote []

theorem recency_concat (items : List α) (last : α) :
    recency (items ++ [last]) = promote (recency items) last := by
  rw [recency, List.foldl_append]
  rfl

theorem mem_promote {recent : List α} {item other : α} :
    other ∈ promote recent item ↔ other = item ∨ other ∈ recent := by
  by_cases same : other = item
  · simp [promote, same]
  · simp [promote, same]

/-- Items that are put to the front push back those that were there. -/
theorem foldl_promote (items recent : List α) :
    items.foldl promote recent = recency items ++ recent.filter (· ∉ items) := by
  induction items using List.reverseRecOn generalizing recent with
  | nil => simp [recency]
  | append_singleton items last ih =>
      rw [List.foldl_append, ih, recency_concat]
      simp only [List.foldl_cons, List.foldl_nil, promote, List.filter_append, List.cons_append,
        List.filter_filter]
      congr 2
      apply List.filter_congr
      simp [and_comm]

theorem mem_recency {items : List α} {item : α} : item ∈ recency items ↔ item ∈ items := by
  induction items using List.reverseRecOn with
  | nil => rfl
  | append_singleton items last ih => rw [recency_concat, mem_promote, ih]; simp [or_comm]

theorem nodup_recency (items : List α) : (recency items).Nodup := by
  induction items using List.reverseRecOn with
  | nil => exact .nil
  | append_singleton items last ih =>
      rw [recency_concat]
      exact List.nodup_cons.mpr ⟨by simp, ih.filter _⟩

theorem length_recency (items : List α) : (recency items).length = items.dedup.length := by
  apply List.Perm.length_eq
  rw [List.perm_ext_iff_of_nodup (nodup_recency items) items.nodup_dedup]
  intro item
  rw [mem_recency, List.mem_dedup]

/-- Whether an item is in a list, with fewer than a number of different items after it. -/
def Recent (count : Nat) (items : List α) (item : α) : Prop :=
  ∃ earlier since, items = earlier ++ item :: since ∧ item ∉ since ∧ since.dedup.length < count

/-- An item stands behind those that came after its last occurrence. -/
theorem recency_append_cons {since : List α} {item : α} (last : item ∉ since)
    (earlier : List α) :
    recency (earlier ++ item :: since) =
      recency since ++
        item :: ((recency earlier).filter (· ≠ item)).filter (· ∉ since) := by
  rw [← List.singleton_append, ← List.append_assoc, recency, List.foldl_append, ← recency,
    recency_concat, foldl_promote, promote, List.filter_cons_of_pos (by simpa using last)]

/-- The first items of the list are those with few enough other items after them. -/
theorem mem_take_recency {count : Nat} {items : List α} {item : α} :
    item ∈ (recency items).take count ↔ Recent count items item := by
  constructor
  · intro taken
    obtain ⟨earlier, since, rfl, last⟩ :=
      exists_last_occurrence (mem_recency.mp (List.mem_of_mem_take taken))
    refine ⟨earlier, since, rfl, last, ?_⟩
    by_contra many
    rw [← length_recency] at many
    have nodup := nodup_recency (earlier ++ item :: since)
    rw [recency_append_cons last] at taken nodup
    rw [List.take_append_of_le_length (Nat.not_lt.mp many)] at taken
    exact (List.nodup_append.mp nodup).2.2 item (List.mem_of_mem_take taken) item
      List.mem_cons_self rfl
  · rintro ⟨earlier, since, rfl, last, few⟩
    rw [← length_recency] at few
    obtain ⟨more, rfl⟩ := Nat.exists_eq_add_of_lt few
    rw [recency_append_cons last, Nat.add_assoc, List.take_length_add_append]
    exact List.mem_append_right _ List.mem_cons_self

/-- Of the items that are not put to the front one more was there than is kept. -/
theorem take_filter_ne {list : List α} (nodup : list.Nodup) (item : α) (count : Nat) :
    (list.filter (· ≠ item)).take count =
      ((list.take (count + 1)).filter (· ≠ item)).take count := by
  induction list generalizing count with
  | nil => rfl
  | cons first rest ih =>
      obtain ⟨absent, nodup⟩ := List.nodup_cons.mp nodup
      rw [List.take_succ_cons]
      by_cases same : first = item
      · subst same
        have kept (part : List α) (sub : part ⊆ rest) : part.filter (· ≠ first) = part := by
          apply List.filter_eq_self.mpr
          intro other member
          simpa using fun equal : other = first => absent (equal ▸ sub member)
        rw [List.filter_cons_of_neg (by simp), List.filter_cons_of_neg (by simp),
          kept rest (List.Subset.refl rest), kept _ (List.take_subset count rest),
          List.take_take, Nat.min_self]
      · rw [List.filter_cons_of_pos (by simpa using same),
          List.filter_cons_of_pos (by simpa using same)]
        cases count with
        | zero => rfl
        | succ count => rw [List.take_succ_cons, List.take_succ_cons, ih nodup]

end Recency

/-- The sum of some counts by key. -/
def totalCount (counts : Std.TreeMap String Nat) : Nat :=
  (counts.toList.map Prod.snd).sum

/-- Setting one count changes the sum by the difference. -/
theorem totalCount_insert (counts : Std.TreeMap String Nat) (key : String) (count : Nat) :
    totalCount (counts.insert key count) + counts.getD key 0 = totalCount counts + count := by
  have inserted (count : Nat) : totalCount (counts.insert key count) =
      count + ((counts.toList.filter (¬ key == ·.1)).map Prod.snd).sum :=
    (Std.TreeMap.toList_insert_perm.map Prod.snd).sum_nat
  have before : totalCount counts =
      counts.getD key 0 + ((counts.toList.filter (¬ key == ·.1)).map Prod.snd).sum := by
    rw [Std.TreeMap.getD_eq_getD_getElem?]
    cases held : counts[key]? with
    | none =>
        have kept : counts.toList.filter (¬ key == ·.1) = counts.toList := by
          apply List.filter_eq_self.mpr
          rintro ⟨other, value⟩ member
          have found := Std.TreeMap.mem_toList_iff_getElem?_eq_some.mp member
          have apart : key ≠ other := by
            rintro rfl
            cases held.symm.trans found
          simpa using apart
        rw [kept, Option.getD_none, Nat.zero_add]
        rfl
    | some old =>
        have same : (counts.insert key old).toList = counts.toList := by
          apply toList_eq_of_getElem?
          intro other
          rw [Std.TreeMap.getElem?_insert]
          split
          · next equal =>
              cases Std.LawfulEqCmp.eq_of_compare equal
              exact held.symm
          · rfl
        rw [Option.getD_some, ← inserted old, totalCount, totalCount, same]
  rw [inserted, before]
  omega

/-- Whether no two of some codes have the same hash. -/
def HashedApart (codes : List Bytes) : Prop :=
  ∀ left ∈ codes, ∀ right ∈ codes, keccak left = keccak right → left = right

theorem HashedApart.mono {codes more : List Bytes} (apart : HashedApart more)
    (part : codes ⊆ more) : HashedApart codes :=
  fun left inLeft right inRight => apart left (part inLeft) right (part inRight)

namespace ProgramCache

variable {cache : ProgramCache} {asked : List Bytes} {code : Bytes}

/-- The counts of a cache. -/
structure Tally where
  successes : Nat
  failures : Nat
  hits : Nat
  causes : Std.TreeMap String Nat

/-- The counts after one more hit. -/
def Tally.hit (tally : Tally) : Tally :=
  { tally with hits := tally.hits + 1 }

/-- The counts after one more recovery, by what it gave. -/
def Tally.recovered (tally : Tally) : Except Fault Program → Tally
  | .ok _ => { tally with successes := tally.successes + 1 }
  | .error fault =>
      { tally with
        failures := tally.failures + 1
        causes := countCause tally.causes fault }

/-- What a cache has counted. -/
def tally (cache : ProgramCache) : Tally where
  successes := cache.successes
  failures := cache.failures
  hits := cache.hits
  causes := cache.causes

/-- A cache after some requests, one after the other. -/
def afterRequests (cache : ProgramCache) (codes : List Bytes) : ProgramCache :=
  codes.foldl (fun cache code => (cache.request code).2) cache

theorem afterRequests_concat (cache : ProgramCache) (codes : List Bytes) (last : Bytes) :
    cache.afterRequests (codes ++ [last]) = ((cache.afterRequests codes).request last).2 := by
  rw [afterRequests, List.foldl_append]
  rfl

theorem request_of_found {entry : CachedRecovery}
    (found : cache.entries.find? (·.hash == keccak code) = some entry) :
    cache.request code = (entry, { cache with
      entries := entry :: cache.entries.filter (·.hash != keccak code)
      hits := cache.hits + 1 }) := by
  simp only [request, found]

theorem request_of_missing
    (missing : cache.entries.find? (·.hash == keccak code) = none) :
    ∃ entry next, cache.request code = (entry, next) ∧ entry.hash = keccak code ∧
      entry.result = recover code cache.config ∧ next.config = cache.config ∧
      next.capacity = cache.capacity ∧
      next.entries = (entry :: cache.entries).take cache.capacity ∧
      next.tally = cache.tally.recovered (recover code cache.config) := by
  -- Hash and answer are named first, so that nothing evaluates them.
  obtain ⟨hash, hash_eq⟩ : ∃ hash, keccak code = hash := ⟨_, rfl⟩
  obtain ⟨result, result_eq⟩ : ∃ result, recover code cache.config = result := ⟨_, rfl⟩
  rw [hash_eq] at missing
  rw [request.eq_1, hash_eq, result_eq]
  simp only [missing]
  cases result with
  | ok program => exact ⟨_, _, rfl, rfl, rfl, rfl, rfl, rfl, rfl⟩
  | error fault => exact ⟨_, _, rfl, rfl, rfl, rfl, rfl, rfl, rfl⟩

/-! ## Kept answers -/

/-- A cache that keeps the answers for the codes that were asked for last. -/
structure Remembers (cache : ProgramCache) (asked : List Bytes) : Prop where
  room : 0 < cache.capacity
  answers_eq : cache.entries.map (fun entry => (entry.hash, entry.result)) =
    ((recency asked).take cache.capacity).map fun code =>
      (keccak code, recover code cache.config)

theorem remembers_empty (size : Int) (config : RecoveryConfig) :
    (empty size config).Remembers [] where
  room := by
    change 0 < if size ≤ 0 then defaultCapacity else size.toNat
    split
    · decide
    · omega
  answers_eq := by
    rw [recency, List.foldl_nil, List.take_nil]
    rfl

namespace Remembers

theorem mem_asked {other : Bytes} (member : other ∈ (recency asked).take cache.capacity) :
    other ∈ asked :=
  mem_recency.mp (List.mem_of_mem_take member)

/-- An entry with the hash of a code is the answer for that code. -/
theorem of_mem (remembers : cache.Remembers asked) (apart : HashedApart (code :: asked))
    {entry : CachedRecovery} (member : entry ∈ cache.entries)
    (hash_eq : entry.hash = keccak code) :
    code ∈ (recency asked).take cache.capacity ∧
      entry.result = recover code cache.config := by
  have listed := List.mem_map_of_mem (f := fun entry : CachedRecovery =>
    (entry.hash, entry.result)) member
  rw [remembers.answers_eq] at listed
  obtain ⟨other, taken, answer_eq⟩ := List.mem_map.mp listed
  injection answer_eq with other_eq result_eq
  obtain rfl : other = code := by
    refine apart other (List.mem_cons_of_mem code (mem_asked taken)) code List.mem_cons_self ?_
    exact other_eq.trans hash_eq
  exact ⟨taken, result_eq.symm⟩

theorem find?_of_recent (remembers : cache.Remembers asked) (apart : HashedApart (code :: asked))
    (recent : code ∈ (recency asked).take cache.capacity) :
    ∃ entry, cache.entries.find? (·.hash == keccak code) = some entry ∧
      entry.hash = keccak code ∧ entry.result = recover code cache.config := by
  have listed : (keccak code, recover code cache.config) ∈
      cache.entries.map fun entry => (entry.hash, entry.result) := by
    rw [remembers.answers_eq]
    exact List.mem_map_of_mem recent
  obtain ⟨held, member, held_eq⟩ := List.mem_map.mp listed
  have found : (cache.entries.find? (·.hash == keccak code)).isSome = true := by
    rw [List.find?_isSome]
    exact ⟨held, member, by simpa using congrArg Prod.fst held_eq⟩
  obtain ⟨entry, found⟩ := Option.isSome_iff_exists.mp found
  have hash_eq : entry.hash = keccak code := by simpa using List.find?_some found
  exact ⟨entry, found, hash_eq,
    (remembers.of_mem apart (List.mem_of_find?_eq_some found) hash_eq).2⟩

theorem find?_of_forgotten (remembers : cache.Remembers asked)
    (apart : HashedApart (code :: asked))
    (forgotten : code ∉ (recency asked).take cache.capacity) :
    cache.entries.find? (·.hash == keccak code) = none := by
  rw [List.find?_eq_none]
  intro entry member equal
  exact forgotten (remembers.of_mem apart member (by simpa using equal)).1

/-- The answers that a request leaves in place, those for other codes. -/
theorem map_filter_entries (remembers : cache.Remembers asked)
    (apart : HashedApart (code :: asked)) :
    (cache.entries.filter (·.hash != keccak code)).map (fun entry => (entry.hash, entry.result)) =
      (((recency asked).take cache.capacity).filter (· ≠ code)).map fun code =>
        (keccak code, recover code cache.config) := by
  have pushed : (cache.entries.filter (·.hash != keccak code)).map
      (fun entry => (entry.hash, entry.result)) =
        (cache.entries.map fun entry => (entry.hash, entry.result)).filter
          (·.1 != keccak code) := by
    rw [List.filter_map]
    rfl
  rw [pushed, remembers.answers_eq, List.filter_map]
  refine congrArg (List.map _) (List.filter_congr ?_)
  intro other taken
  have hash_iff : keccak other = keccak code ↔ other = code := by
    refine ⟨?_, congrArg keccak⟩
    exact apart other (List.mem_cons_of_mem code (mem_asked taken)) code List.mem_cons_self
  rw [Bool.eq_iff_iff]
  simp [hash_iff]

theorem request (remembers : cache.Remembers asked) (apart : HashedApart (code :: asked)) :
    (cache.request code).2.Remembers (asked ++ [code]) := by
  have room := remembers.room
  obtain ⟨count, capacity_eq⟩ : ∃ count, cache.capacity = count + 1 :=
    Nat.exists_eq_add_of_le' room
  have kept : (promote (recency asked) code).take (count + 1) =
      code :: (((recency asked).take (count + 1)).filter (· ≠ code)).take count := by
    rw [promote, List.take_succ_cons, take_filter_ne (nodup_recency asked)]
  by_cases recent : code ∈ (recency asked).take cache.capacity
  · obtain ⟨entry, found, hash_eq, result_eq⟩ := remembers.find?_of_recent apart recent
    rw [request_of_found found]
    refine ⟨room, ?_⟩
    dsimp only
    rw [List.map_cons, remembers.map_filter_entries apart, hash_eq, result_eq, recency_concat,
      capacity_eq, kept, List.map_cons]
    rw [capacity_eq] at recent
    have fewer : (((recency asked).take (count + 1)).filter (· ≠ code)).length ≤ count := by
      have shorter : (((recency asked).take (count + 1)).filter (· ≠ code)).length <
          ((recency asked).take (count + 1)).length :=
        List.length_filter_lt_length_iff_exists.mpr ⟨code, recent, by simp⟩
      have taken := List.length_take_le (count + 1) (recency asked)
      omega
    rw [List.take_of_length_le fewer]
  · obtain ⟨entry, next, requested, hash_eq, result_eq, config_eq, capacity_same, entries_eq, -⟩ :=
      request_of_missing (remembers.find?_of_forgotten apart recent)
    rw [requested]
    refine ⟨capacity_same ▸ room, ?_⟩
    dsimp only
    rw [entries_eq, capacity_same, config_eq, List.map_take, List.map_cons, remembers.answers_eq,
      hash_eq, result_eq, recency_concat, capacity_eq, kept, List.map_cons, List.take_succ_cons,
      ← List.map_take]
    rw [capacity_eq] at recent
    have untouched : ((recency asked).take (count + 1)).filter (· ≠ code) =
        (recency asked).take (count + 1) := by
      apply List.filter_eq_self.mpr
      intro other taken
      simpa using fun equal : other = code => recent (equal ▸ taken)
    rw [untouched]

theorem size_le (remembers : cache.Remembers asked) : cache.size ≤ cache.capacity := by
  have length_eq := congrArg List.length remembers.answers_eq
  rw [List.length_map, List.length_map] at length_eq
  rw [size, length_eq]
  exact List.length_take_le _ _

theorem request_result (remembers : cache.Remembers asked)
    (apart : HashedApart (code :: asked)) :
    (cache.request code).1.result = recover code cache.config := by
  by_cases recent : code ∈ (recency asked).take cache.capacity
  · obtain ⟨entry, found, -, result_eq⟩ := remembers.find?_of_recent apart recent
    rw [request_of_found found, result_eq]
  · obtain ⟨entry, next, requested, -, result_eq, -⟩ :=
      request_of_missing (remembers.find?_of_forgotten apart recent)
    rw [requested, result_eq]

theorem tally_of_recent (remembers : cache.Remembers asked) (apart : HashedApart (code :: asked))
    (recent : Recent cache.capacity asked code) :
    (cache.request code).2.tally = cache.tally.hit := by
  obtain ⟨entry, found, -⟩ := remembers.find?_of_recent apart (mem_take_recency.mpr recent)
  rw [request_of_found found]
  rfl

theorem tally_of_forgotten (remembers : cache.Remembers asked)
    (apart : HashedApart (code :: asked)) (forgotten : ¬ Recent cache.capacity asked code) :
    (cache.request code).2.tally = cache.tally.recovered (recover code cache.config) := by
  obtain ⟨entry, next, requested, -, -, -, -, -, tally_eq⟩ :=
    request_of_missing (remembers.find?_of_forgotten apart (mt mem_take_recency.mp forgotten))
  rw [requested, tally_eq]

end Remembers

/-! ## Counts -/

/-- Counts that add up to a number of requests, and those of the causes to the failures. -/
structure Tally.AddsUp (tally : Tally) (count : Nat) : Prop where
  requests_eq : tally.successes + tally.failures + tally.hits = count
  causes_eq : totalCount tally.causes = tally.failures

theorem Tally.AddsUp.hit {tally : Tally} {count : Nat} (counted : tally.AddsUp count) :
    tally.hit.AddsUp (count + 1) where
  requests_eq := congrArg (· + 1) counted.requests_eq
  causes_eq := counted.causes_eq

theorem Tally.AddsUp.recovered {tally : Tally} {count : Nat} (counted : tally.AddsUp count)
    (result : Except Fault Program) : (tally.recovered result).AddsUp (count + 1) := by
  obtain ⟨requests_eq, causes_eq⟩ := counted
  cases result with
  | ok program => exact ⟨by simp only [Tally.recovered]; omega, causes_eq⟩
  | error fault =>
      refine ⟨by simp only [Tally.recovered]; omega, ?_⟩
      have inserted := totalCount_insert tally.causes fault.cause.category
        (tally.causes.getD fault.cause.category 0 + 1)
      simp only [Tally.recovered, countCause]
      omega

theorem Tally.recovered_hits (tally : Tally) (result : Except Fault Program) :
    (tally.recovered result).hits = tally.hits := by
  cases result <;> rfl

/-- A cache that has the room and the settings it was made with, and whose counts add up. -/
structure Counts (cache : ProgramCache) (size : Int) (config : RecoveryConfig) (count : Nat) :
    Prop where
  config_eq : cache.config = config
  capacity_eq : cache.capacity = if size ≤ 0 then 1024 else size.toNat
  addsUp : cache.tally.AddsUp count

/-- Every request is counted once, and leaves room and settings as they are. -/
theorem Counts.request {size : Int} {config : RecoveryConfig} {count : Nat}
    (counts : cache.Counts size config count) (code : Bytes) :
    (cache.request code).2.Counts size config (count + 1) := by
  obtain ⟨config_eq, capacity_eq, addsUp⟩ := counts
  cases found : cache.entries.find? (·.hash == keccak code) with
  | some entry =>
      rw [request_of_found found]
      exact ⟨config_eq, capacity_eq, addsUp.hit⟩
  | none =>
      obtain ⟨entry, next, requested, -, -, config_same, capacity_same, -, tally_eq⟩ :=
        request_of_missing found
      rw [requested]
      refine ⟨config_same.trans config_eq, capacity_same.trans capacity_eq, ?_⟩
      dsimp only
      rw [tally_eq]
      exact addsUp.recovered _

/-- What holds of a cache after any requests, whose codes the hash tells apart. -/
theorem afterRequests_invariant (size : Int) (config : RecoveryConfig) (asked : List Bytes)
    (apart : HashedApart asked) :
    ((empty size config).afterRequests asked).Counts size config asked.length ∧
      ((empty size config).afterRequests asked).Remembers asked := by
  induction asked using List.reverseRecOn with
  | nil => exact ⟨⟨rfl, rfl, rfl, rfl⟩, remembers_empty size config⟩
  | append_singleton asked last ih =>
      obtain ⟨counts, remembers⟩ := ih (apart.mono (List.subset_append_left _ _))
      rw [afterRequests_concat, List.length_append]
      refine ⟨counts.request last, remembers.request (apart.mono ?_)⟩
      intro code
      simp [or_comm]

end ProgramCache

/-- A cache of any size answers as recovery does, after any requests. A request is a hit exactly
when its code was asked for before, with fewer other codes since than the cache has room for, and
is counted by what recovery gives otherwise. All counts add up, and the cache keeps to its room. -/
theorem cached_recovery_transparent (size : Int) (config : RecoveryConfig) (asked : List Bytes)
    (code : Bytes) (apart : HashedApart (code :: asked)) :
    let capacity := if size ≤ 0 then 1024 else size.toNat
    let cache := (ProgramCache.empty size config).afterRequests asked
    let next := (cache.request code).2
    (cache.request code).1.result = recover code config ∧
      (next.hits = cache.hits + 1 ↔ Recent capacity asked code) ∧
      (Recent capacity asked code → next.tally = cache.tally.hit) ∧
      (¬ Recent capacity asked code →
        next.tally = cache.tally.recovered (recover code config)) ∧
      cache.successes + cache.failures + cache.hits = asked.length ∧
      totalCount cache.causes = cache.failures ∧
      cache.size ≤ capacity := by
  intro capacity cache next
  obtain ⟨⟨config_eq, capacity_eq, addsUp⟩, remembers⟩ :=
    ProgramCache.afterRequests_invariant size config asked
      (apart.mono (List.subset_cons_self code asked))
  have answered := remembers.request_result apart
  have hit := remembers.tally_of_recent apart
  have missed := remembers.tally_of_forgotten apart
  have bounded := remembers.size_le
  rw [config_eq] at answered missed
  rw [capacity_eq] at hit missed bounded
  refine ⟨answered, ⟨?_, ?_⟩, hit, missed, addsUp.requests_eq, addsUp.causes_eq, bounded⟩
  · intro counted
    by_contra forgotten
    have hits_eq := congrArg ProgramCache.Tally.hits (missed forgotten)
    rw [ProgramCache.Tally.recovered_hits] at hits_eq
    exact absurd (counted.symm.trans hits_eq) (Nat.succ_ne_self _)
  · intro recent
    exact congrArg ProgramCache.Tally.hits (hit recent)

/-- A cache with room for one answer has forgotten the first of two codes, and recovers it again. -/
theorem narrowCache_transparent :
    let first := Bytes.ofList [0x00]
    let cache := (ProgramCache.empty 1 {}).afterRequests [first, Bytes.ofList [0x56]]
    (cache.request first).1.result = recover first {} ∧
      (cache.request first).2.tally = cache.tally.recovered (recover first {}) ∧
      cache.size ≤ 1 := by
  intro first
  have different : keccak first ≠ keccak (Bytes.ofList [0x56]) := by
    decide +kernel
  have apart : HashedApart [first, first, Bytes.ofList [0x56]] := by
    simp [HashedApart, different, different.symm]
  obtain ⟨answered, -, -, missed, -, -, bounded⟩ :=
    cached_recovery_transparent 1 {} [first, Bytes.ofList [0x56]] first apart
  refine ⟨answered, missed ?_, bounded⟩
  have kept : (recency [first, Bytes.ofList [0x56]]).take 1 = [Bytes.ofList [0x56]] := by
    decide
  intro recent
  have member : first ∈ (recency [first, Bytes.ofList [0x56]]).take 1 :=
    mem_take_recency.mpr recent
  rw [kept, List.mem_singleton] at member
  exact absurd member (by decide)

end EvmAtlas
