import EvmAtlas.Proofs.Answers

/-!
# What a read cache asks

A cache stands on a chain that may change and fail at any time, between two reads and while
it is asked. `Cached` keeps the state of that chain, the cache, and all that the chain has
been asked so far, with its answers. `Cached.Sound` ties the cache to this record: a cache
knows the answers to exactly those questions that were answered, each by its first answer,
and no question was put again after it was answered. Every read keeps this.
-/

namespace EvmAtlas

variable {σ : Type}

/-- A question that was put to a chain, and what came of it. -/
structure Exchange where
  question : Question
  answer : Except Fault question.Answer

namespace Exchange

/-- The answer to a question that an exchange brought. -/
def answer? (exchange : Exchange) (question : Question) : Option question.Answer :=
  if same : exchange.question = question then same ▸ exchange.answer.toOption else none

/-- An exchange that brought no answer. -/
def Failed (exchange : Exchange) : Prop :=
  ∃ fault, exchange.answer = .error fault

theorem answer?_self (question : Question) (answer : Except Fault question.Answer) :
    (Exchange.mk question answer).answer? question = answer.toOption := by
  simp [answer?]

theorem answer?_of_ne {exchange : Exchange} {question : Question}
    (apart : exchange.question ≠ question) : exchange.answer? question = none := by
  simp [answer?, apart]

theorem failed_of_answer? {exchange : Exchange} {question : Question}
    (same : exchange.question = question) (unanswered : exchange.answer? question = none) :
    exchange.Failed := by
  subst same
  rw [answer?, dif_pos rfl] at unanswered
  cases answer_eq : exchange.answer with
  | error fault => exact ⟨fault, answer_eq⟩
  | ok answer =>
      rw [answer_eq] at unanswered
      cases unanswered

end Exchange

/-- The first answer to a question among some exchanges. -/
def firstAnswer? (question : Question) (heard : List Exchange) : Option question.Answer :=
  heard.findSome? (·.answer? question)

/-- A cache after a reply to a question. A failure is not remembered. -/
def ReadCache.hear (cache : ReadCache) (question : Question) :
    Except Fault question.Answer → ReadCache
  | .ok answer => cache.remember question answer
  | .error _ => cache

theorem ReadCache.known_hear {cache : ReadCache} {question : Question}
    (unknown : cache.known question = none) (answer : Except Fault question.Answer) :
    (cache.hear question answer).known =
      Function.update cache.known question (answer.toOption.map question.settle) := by
  cases answer with
  | ok answer => exact known_remember cache question answer
  | error fault =>
      change cache.known = Function.update cache.known question none
      rw [← unknown, Function.update_eq_self]

/-- A cache, the state of the chain below it, and what that chain was asked. -/
structure Cached (σ : Type) where
  base : σ
  heard : List Exchange := []
  cache : ReadCache := {}

/-- A read through a cache. Before it, the chain below the cache changes in some way. -/
structure Turn (σ : Type) where
  change : σ → σ
  question : Question

namespace Cached

def slot : Slot (Cached σ) ReadCache where
  get state := state.cache
  set cache state := { state with cache }

/-- The chain below the cache, which keeps what it is asked. -/
def below (base : Chain σ) : Chain (Cached σ) :=
  .ofAsk (fun question state =>
    let (answer, after) := base.ask question state.base
    (answer, { state with base := after, heard := state.heard ++ [⟨question, answer⟩] })) none

def chain (base : Chain σ) : Chain (Cached σ) :=
  ReadCache.chain slot (below base)

/-- Some reads, one after the other. -/
def reads (base : Chain σ) (turns : List (Turn σ)) (state : Cached σ) : Cached σ :=
  turns.foldl (fun state turn =>
    ((chain base).ask turn.question { state with base := turn.change state.base }).2) state

/-- A cache that knows the first answers, from a chain that was not asked again for them. -/
structure Sound (state : Cached σ) : Prop where
  known_eq : ∀ question,
    state.cache.known question = (firstAnswer? question state.heard).map question.settle
  once : state.heard.Pairwise fun earlier later =>
    earlier.question = later.question → earlier.Failed

variable {base : Chain σ} {state : Cached σ} {question : Question}

theorem sound_start (start : σ) : Sound ({ base := start } : Cached σ) where
  known_eq := ReadCache.known_empty
  once := .nil

theorem Sound.ask_of_first (sound : state.Sound) {answer : question.Answer}
    (first : firstAnswer? question state.heard = some answer) :
    (chain base).ask question state = (.ok (question.settle answer), state) := by
  apply ReadCache.ask_of_known
  change state.cache.known question = _
  rw [sound.known_eq, first, Option.map_some]

theorem Sound.unknown (sound : state.Sound)
    (unanswered : firstAnswer? question state.heard = none) :
    state.cache.known question = none := by
  rw [sound.known_eq, unanswered, Option.map_none]

/-- Without an answer so far, the chain below is asked once, and what it answers is
remembered unless it fails. -/
theorem Sound.ask_of_none (sound : state.Sound)
    (unanswered : firstAnswer? question state.heard = none) :
    (chain base).ask question state =
      ((base.ask question state.base).1.map question.settle,
        { base := (base.ask question state.base).2
          heard := state.heard ++ [⟨question, (base.ask question state.base).1⟩]
          cache := state.cache.hear question (base.ask question state.base).1 }) := by
  have unknown := sound.unknown unanswered
  have asked : (below base).ask question state =
      ((base.ask question state.base).1,
        { state with
          base := (base.ask question state.base).2
          heard := state.heard ++ [⟨question, (base.ask question state.base).1⟩] }) :=
    congrFun (Chain.ask_ofAsk _ _ question) state
  generalize base.ask question state.base = outcome at asked ⊢
  obtain ⟨answer, after⟩ := outcome
  cases answer with
  | ok answer => exact ReadCache.ask_of_answered unknown asked
  | error fault => exact ReadCache.ask_of_failed unknown asked

/-- An exchange at the end of a record that has no answer to its question. -/
theorem firstAnswer?_concat {heard : List Exchange}
    (unanswered : firstAnswer? question heard = none) (answer : Except Fault question.Answer) :
    (fun other => firstAnswer? other (heard ++ [⟨question, answer⟩])) =
      Function.update (firstAnswer? · heard) question answer.toOption := by
  funext other
  rw [firstAnswer?, List.findSome?_append, ← firstAnswer?, List.findSome?_singleton]
  by_cases same : other = question
  · subst same
    rw [unanswered, Exchange.answer?_self, Function.update_self, Option.none_or]
  · rw [Exchange.answer?_of_ne (Ne.symm same), Function.update_of_ne same, Option.or_none]

theorem Sound.ask (sound : state.Sound) (base : Chain σ) (question : Question) :
    Sound ((chain base).ask question state).2 := by
  cases first : firstAnswer? question state.heard with
  | some answer =>
      rw [sound.ask_of_first first]
      exact sound
  | none =>
      rw [sound.ask_of_none first]
      constructor
      · intro other
        dsimp only
        rw [ReadCache.known_hear (sound.unknown first),
          congrFun (firstAnswer?_concat first _) other]
        by_cases same : other = question
        · subst same
          rw [Function.update_self, Function.update_self]
        · rw [Function.update_of_ne same, Function.update_of_ne same, sound.known_eq]
      · rw [List.pairwise_append]
        refine ⟨sound.once, List.pairwise_singleton _ _, ?_⟩
        intro earlier member later last same
        rw [List.mem_singleton.mp last] at same
        exact Exchange.failed_of_answer? same (List.findSome?_eq_none_iff.mp first earlier member)

/-- A change of the chain below is not the cache's concern. -/
theorem Sound.rebase (sound : state.Sound) (now : σ) : Sound { state with base := now } where
  known_eq := sound.known_eq
  once := sound.once

theorem Sound.reads (sound : state.Sound) (base : Chain σ) (turns : List (Turn σ)) :
    Sound (Cached.reads base turns state) := by
  induction turns generalizing state with
  | nil => exact sound
  | cons turn rest ih => exact ih ((sound.rebase _).ask base turn.question)

theorem Sound.firstAnswer?_ask (sound : state.Sound) (base : Chain σ) {other : Question}
    (apart : other ≠ question) :
    firstAnswer? other ((chain base).ask question state).2.heard =
      firstAnswer? other state.heard := by
  cases first : firstAnswer? question state.heard with
  | some answer => rw [sound.ask_of_first first]
  | none =>
      rw [sound.ask_of_none first]
      exact (congrFun (firstAnswer?_concat first _) other).trans (Function.update_of_ne apart ..)

/-- What a read brings depends on the first answer to its question and the state below. -/
theorem Sound.ask_congr (sound : state.Sound) {twin : Cached σ} (twinSound : twin.Sound)
    (base_eq : twin.base = state.base)
    (first_eq : firstAnswer? question twin.heard = firstAnswer? question state.heard) :
    ((chain base).ask question twin).1 = ((chain base).ask question state).1 ∧
      ((chain base).ask question twin).2.base = ((chain base).ask question state).2.base := by
  cases first : firstAnswer? question state.heard with
  | some answer =>
      rw [sound.ask_of_first first, twinSound.ask_of_first (first_eq.trans first)]
      exact ⟨rfl, base_eq⟩
  | none =>
      rw [sound.ask_of_none first, twinSound.ask_of_none (first_eq.trans first), base_eq]
      exact ⟨rfl, rfl⟩

end Cached

/-- A cache freezes first answers. After any reads through it, with the chain below in any
state by now, a question that the chain has answered before is answered by its first answer,
with zero for a balance that was not known, and the chain is not asked. Any other question
is put to the chain once and answered as the chain answers now, or fails as it does. So the
chain is asked for something until it answers for the first time and never again. A read
does not change what a read of anything else brings, or whether it asks. -/
theorem cache_freezes_first_answers (base : Chain σ) (start : σ) (turns : List (Turn σ))
    (now : σ) (question : Question) :
    let state := { Cached.reads base turns { base := start } with base := now }
    let read := (Cached.chain base).ask question state
    (∀ answer, firstAnswer? question state.heard = some answer →
      read = (.ok (question.settle answer), state)) ∧
    (firstAnswer? question state.heard = none →
      read.1 = (base.ask question now).1.map question.settle ∧
      read.2.base = (base.ask question now).2 ∧
      read.2.heard = state.heard ++ [⟨question, (base.ask question now).1⟩]) ∧
    (state.heard.Pairwise fun earlier later =>
      earlier.question = later.question → ∃ fault, earlier.answer = .error fault) ∧
    ∀ other, other ≠ question → ∀ later,
      let next := (Cached.chain base).ask other { read.2 with base := later }
      let alone := (Cached.chain base).ask other { state with base := later }
      next.1 = alone.1 ∧ next.2.base = alone.2.base := by
  intro state read
  have sound : state.Sound := ((Cached.sound_start start).reads base turns).rebase now
  refine ⟨fun answer first => sound.ask_of_first first, ?_, sound.once, ?_⟩
  · intro unanswered
    dsimp only [read]
    rw [sound.ask_of_none unanswered]
    exact ⟨rfl, rfl, rfl⟩
  · intro other apart later
    apply (sound.rebase later).ask_congr ((sound.ask base question).rebase later) rfl
    exact sound.firstAnswer?_ask base apart

/-- A chain that answers every balance with what its state holds, or fails. -/
def balancesOnly : Chain (Except Fault (Option Word)) :=
  .ofAsk (fun question state =>
    match question with
    | .balance _ => (state, state)
    | _ => (.error (.ofText "unavailable"), state)) none

/-- The chain fails, then does not know the balance of account 0, then knows it to be 7. The
cache goes on to answer with zero. -/
theorem balancesOnly_frozen :
    let fails : Turn (Except Fault (Option Word)) :=
      ⟨fun _ => .error (.ofText "unavailable"), .balance 0⟩
    let withholds : Turn (Except Fault (Option Word)) := ⟨fun _ => .ok none, .balance 0⟩
    let state := { Cached.reads balancesOnly [fails, withholds, fails] { base := .ok none } with
      base := .ok (some 7) }
    state.heard.length = 2 ∧
      (Cached.chain balancesOnly).ask (.balance 0) state = (.ok (some 0), state) := by
  intro fails withholds state
  refine ⟨rfl, ?_⟩
  exact (cache_freezes_first_answers balancesOnly (.ok none) [fails, withholds, fails]
    (.ok (some 7)) (.balance 0)).1 none rfl

end EvmAtlas
