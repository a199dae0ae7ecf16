import EvmAtlas.Chain.Layers
import EvmAtlas.Proofs.Answers

/-!
# Calls on a pile of layers

Caches and overlays are piled on a state set, each on the layer before it, all with their
data in one store. `Layers.Serves` says what a layer of such a pile does: in the stores that
it takes for a view, it answers every question as the view says, and touches no data above
its own. A cache takes a store for a view if what it remembers is in the view, an overlay if
its writes over a view of the layer below make up the view. A write to an overlay is then a
write to its view, so that a call on an overlay on top of a pile cannot be told from a call
on the state set at the bottom, which nobody writes to.
-/

namespace EvmAtlas

/-- A layer that stands on another one and has data of its own. -/
inductive Cover where
  | cache
  | overlay
  deriving DecidableEq, Repr

/-- What a cover on a layer is made from. -/
def Cover.spec (cover : Cover) (on : Nat) : LayerSpec :=
  match cover with
  | .cache => .cache on
  | .overlay => .overlay on

namespace Layers

/-- A state set as the only layer. -/
def ofSet (set : StateSet) : Layers :=
  ({} : Layers).push (StateSet.chain (LayerStore.setSlot 0)) (.set set)

/-- Add covers, each on the layer before it. -/
def pile (layers : Layers) (covers : List Cover) : Except LayerError Layers :=
  covers.foldlM (fun layers cover => layers.add (cover.spec (layers.chains.size - 1))) layers

theorem pile_append (layers : Layers) (covers : List Cover) (last : Cover) :
    layers.pile (covers ++ [last]) =
      (layers.pile covers).bind fun piled => piled.add (last.spec (piled.chains.size - 1)) := by
  simp only [pile, List.foldlM_append, List.foldlM_cons, List.foldlM_nil, bind_pure]
  rfl

end Layers

namespace LayerStore

variable {store : LayerStore} {index : Nat}

theorem get_setSlot {set : StateSet} (held : store[index]? = some (.set set)) :
    (setSlot index).get store = set := by
  simp [setSlot, slot, held]

theorem get_cacheSlot {cache : ReadCache} (held : store[index]? = some (.cache cache)) :
    (cacheSlot index).get store = cache := by
  simp [cacheSlot, slot, held]

theorem get_overlaySlot {records : Records}
    (held : store[index]? = some (.overlay records)) :
    (overlaySlot index).get store = records := by
  simp [overlaySlot, slot, held]

theorem getElem?_replace {old : LayerData} (held : store[index]? = some old)
    (data : LayerData) : (store.setIfInBounds index data)[index]? = some data := by
  obtain ⟨inside, -⟩ := Array.getElem?_eq_some_iff.mp held
  rw [Array.getElem?_setIfInBounds_self_of_lt inside]

end LayerStore

/-- A view in which every balance is known. -/
def View.Settled (view : View) : Prop :=
  ∀ question, question.settle (view question) = view question

theorem StateSet.answer_settled (set : StateSet) : View.Settled set.answer := by
  intro question
  cases question with
  | block | nonce | balance | code | storage => rfl

theorem Records.atop_settled {below : View} (settled : below.Settled) (records : Records) :
    View.Settled (records.atop below) := by
  intro question
  cases found : records.find? question with
  | none =>
      rw [atop, found, Option.getD_none]
      exact settled question
  | some answer =>
      rw [atop, found, Option.getD_some]
      cases question with
      | block | nonce | code | storage => rfl
      | balance address =>
          obtain ⟨balance, -, rfl⟩ := Option.map_eq_some_iff.mp found
          rfl

/-- A cache whose answers a view agrees with. -/
def ReadCache.Trusted (cache : ReadCache) (view : View) : Prop :=
  ∀ question answer, cache.known question = some answer → view question = answer

theorem ReadCache.Trusted.remember {cache : ReadCache} {view : View}
    (trusted : cache.Trusted view) (settled : view.Settled) (question : Question) :
    (cache.remember question (view question)).Trusted view := by
  intro other answer known
  rw [known_remember, settled question] at known
  by_cases same : other = question
  · subst same
    rw [Function.update_self] at known
    exact Option.some.inj known
  · rw [Function.update_of_ne same] at known
    exact trusted other answer known

namespace Layers

variable {set : StateSet} {size : Nat} {base : Chain LayerStore}
variable {shows : LayerStore → View → Prop}

/-- A chain over the lowest layers of a store, with a state set at the bottom. In a store
that `shows` a view, it answers with the view and leaves a store that shows the same. -/
structure Serves (set : StateSet) (size : Nat) (chain : Chain LayerStore)
    (shows : LayerStore → View → Prop) : Prop where
  /-- Only the data of the layers themselves matters. -/
  confined : ∀ {store other view}, (∀ index < size, other[index]? = store[index]?) →
    shows store view → shows other view
  bottom : ∀ {store view}, shows store view → store[0]? = some (.set set)
  settled : ∀ {store view}, shows store view → view.Settled
  answers : ∀ {store view}, shows store view → ∀ question, ∃ after,
    chain.ask question store = (.ok (view question), after) ∧ shows after view ∧
      ∀ index, size ≤ index → after[index]? = store[index]?

/-- A store with a state set at the bottom. -/
def ShowsSet (set : StateSet) (store : LayerStore) (view : View) : Prop :=
  store[0]? = some (.set set) ∧ view = set.answer

/-- A store with a cache on a layer. -/
def ShowsCache (shows : LayerStore → View → Prop) (index : Nat) (store : LayerStore)
    (view : View) : Prop :=
  shows store view ∧ ∃ cache, store[index]? = some (.cache cache) ∧ cache.Trusted view

/-- A store with an overlay on a layer. -/
def ShowsOverlay (shows : LayerStore → View → Prop) (index : Nat) (store : LayerStore)
    (view : View) : Prop :=
  ∃ below records, shows store below ∧ store[index]? = some (.overlay records) ∧
    view = records.atop below

theorem serves_set (set : StateSet) :
    Serves set 1 (StateSet.chain (LayerStore.setSlot 0)) (ShowsSet set) where
  confined := by
    intro store other view same shown
    exact ⟨(same 0 Nat.zero_lt_one).trans shown.1, shown.2⟩
  bottom := And.left
  settled := by
    rintro store view ⟨-, rfl⟩
    exact set.answer_settled
  answers := by
    rintro store view ⟨held, rfl⟩ question
    refine ⟨store, ?_, ⟨held, rfl⟩, fun _ _ => rfl⟩
    rw [StateSet.ask_chain, LayerStore.get_setSlot held]

namespace Serves

/-- The data above a chain is not its concern. -/
theorem replace (serves : Serves set size base shows) {store : LayerStore} {view : View}
    (shown : shows store view) (data : LayerData) :
    shows (store.setIfInBounds size data) view := by
  apply serves.confined _ shown
  intro index below
  exact Array.getElem?_setIfInBounds_ne (Nat.ne_of_gt below)

theorem cache (serves : Serves set size base shows) :
    Serves set (size + 1) (ReadCache.chain (LayerStore.cacheSlot size) base)
      (ShowsCache shows size) where
  confined := by
    rintro store other view same ⟨shown, cache, held, trusted⟩
    refine ⟨serves.confined ?_ shown, cache, ?_, trusted⟩
    · intro index below
      exact same index (Nat.lt_succ_of_lt below)
    · exact (same size (Nat.lt_succ_self size)).trans held
  bottom := fun shown => serves.bottom shown.1
  settled := fun shown => serves.settled shown.1
  answers := by
    rintro store view ⟨shown, cache, held, trusted⟩ question
    cases known : cache.known question with
    | some answer =>
        refine ⟨store, ?_, ⟨shown, cache, held, trusted⟩, fun _ _ => rfl⟩
        rw [trusted question answer known]
        apply ReadCache.ask_of_known
        rw [LayerStore.get_cacheSlot held, known]
    | none =>
        obtain ⟨after, asked, stillShown, above⟩ := serves.answers shown question
        have stillHeld : after[size]? = some (.cache cache) :=
          (above size (Nat.le_refl size)).trans held
        have remembered : (ReadCache.chain (LayerStore.cacheSlot size) base).ask question store =
            (.ok (question.settle (view question)),
              (LayerStore.cacheSlot size).modify (·.remember question (view question)) after) := by
          apply ReadCache.ask_of_answered _ asked
          rw [LayerStore.get_cacheSlot held, known]
        rw [serves.settled shown question] at remembered
        refine ⟨_, remembered, ?_, ?_⟩
        · refine ⟨serves.replace stillShown _, _, ?_,
            trusted.remember (serves.settled shown) question⟩
          rw [Slot.modify, LayerStore.get_cacheSlot stillHeld]
          exact LayerStore.getElem?_replace stillHeld _
        · intro index beyond
          rw [← above index (Nat.le_of_succ_le beyond)]
          exact Array.getElem?_setIfInBounds_ne (Nat.ne_of_lt beyond)

theorem overlay (serves : Serves set size base shows) :
    Serves set (size + 1) (Overlay.chain (LayerStore.overlaySlot size) base)
      (ShowsOverlay shows size) where
  confined := by
    rintro store other view same ⟨below, records, shown, held, rfl⟩
    refine ⟨below, records, serves.confined ?_ shown, ?_, rfl⟩
    · intro index lower
      exact same index (Nat.lt_succ_of_lt lower)
    · exact (same size (Nat.lt_succ_self size)).trans held
  bottom := by
    rintro store view ⟨below, records, shown, -, -⟩
    exact serves.bottom shown
  settled := by
    rintro store view ⟨below, records, shown, -, rfl⟩
    exact records.atop_settled (serves.settled shown)
  answers := by
    rintro store view ⟨below, records, shown, held, rfl⟩ question
    cases found : records.find? question with
    | some answer =>
        refine ⟨store, ?_, ⟨below, records, shown, held, rfl⟩, fun _ _ => rfl⟩
        rw [Records.atop, found, Option.getD_some]
        apply Overlay.ask_of_written
        rw [LayerStore.get_overlaySlot held, found]
    | none =>
        obtain ⟨after, asked, stillShown, above⟩ := serves.answers shown question
        refine ⟨after, ?_, ⟨below, records, stillShown, ?_, rfl⟩, ?_⟩
        · rw [Records.atop, found, Option.getD_none, ← asked]
          apply Overlay.ask_of_unwritten
          rw [LayerStore.get_overlaySlot held, found]
        · exact (above size (Nat.le_refl size)).trans held
        · intro index beyond
          exact above index (Nat.le_of_succ_le beyond)

/-- Asking changes nothing that an answer depends on. -/
theorem afterAsking (serves : Serves set size base shows) {store : LayerStore} {view : View}
    (shown : shows store view) (questions : List Question) :
    shows (base.afterAsking questions store) view := by
  induction questions generalizing store with
  | nil => exact shown
  | cons question rest ih =>
      obtain ⟨after, asked, stillShown, -⟩ := serves.answers shown question
      apply ih
      dsimp only
      rw [asked]
      exact stillShown

/-- An overlay on a chain and a state set that answers as the overlay does go on answering
alike, whatever is written to both. -/
theorem overlay_alike (serves : Serves set size base shows) :
    Chain.Alike (fun store other => ShowsOverlay shows size store other.answer)
      (Overlay.chain (LayerStore.overlaySlot size) base) (StateSet.chain .whole) := by
  apply Chain.Alike.of_ask
  · intro question store other shown
    obtain ⟨after, asked, stillShown, -⟩ := serves.overlay.answers shown question
    rw [asked, StateSet.ask_chain]
    exact ⟨rfl, stillShown⟩
  · apply Option.Rel.some
    rintro write store other ⟨below, records, shown, held, answer_eq⟩
    rw [StateSet.perform_writer, ChainWriter.perform_ofPerform, Overlay.keep]
    refine ⟨rfl, below, records.note write, serves.replace shown _, ?_, ?_⟩
    · rw [Slot.modify, LayerStore.get_overlaySlot held]
      exact LayerStore.getElem?_replace held _
    · rw [Records.atop_note, ← answer_eq]
      exact StateSet.answer_write other write

end Serves

/-- Layers in which the last one serves, in a store where no layer has done anything. -/
structure Shown (set : StateSet) (layers : Layers) (top : Chain LayerStore)
    (shows : LayerStore → View → Prop) : Prop where
  size_eq : layers.store.size = layers.chains.size
  top_eq : layers.chains.back? = some top
  serves : Serves set layers.chains.size top shows
  fresh : shows layers.store set.answer

theorem shown_ofSet (set : StateSet) :
    Shown set (ofSet set) (StateSet.chain (LayerStore.setSlot 0)) (ShowsSet set) where
  size_eq := rfl
  top_eq := rfl
  serves := serves_set set
  fresh := ⟨rfl, rfl⟩

namespace Shown

variable {layers : Layers} {top : Chain LayerStore}

theorem fresh_push (shown : Shown set layers top shows) (data : LayerData) :
    shows (layers.store.push data) set.answer ∧
      (layers.store.push data)[layers.chains.size]? = some data := by
  constructor
  · apply shown.serves.confined _ shown.fresh
    intro index below
    rw [← shown.size_eq] at below
    rw [Array.getElem?_push, if_neg (Nat.ne_of_lt below)]
  · rw [← shown.size_eq]
    exact Array.getElem?_push_size

theorem push (shown : Shown set layers top shows) {chain : Chain LayerStore}
    {shows : LayerStore → View → Prop}
    (serves : Serves set (layers.chains.size + 1) chain shows) {data : LayerData}
    (fresh : shows (layers.store.push data) set.answer) :
    Shown set (layers.push chain data) chain shows where
  size_eq := by
    simp [Layers.push, shown.size_eq]
  top_eq := Array.back?_push
  serves := by
    simpa [Layers.push] using serves
  fresh := fresh

theorem cache (shown : Shown set layers top shows) :
    Shown set
      (layers.push (ReadCache.chain (LayerStore.cacheSlot layers.chains.size) top) (.cache {}))
      (ReadCache.chain (LayerStore.cacheSlot layers.chains.size) top)
      (ShowsCache shows layers.chains.size) := by
  obtain ⟨fresh, held⟩ := shown.fresh_push (.cache {})
  refine shown.push shown.serves.cache ⟨fresh, {}, held, ?_⟩
  intro question answer known
  rw [ReadCache.known_empty] at known
  cases known

theorem overlay (shown : Shown set layers top shows) :
    Shown set
      (layers.push (Overlay.chain (LayerStore.overlaySlot layers.chains.size) top)
        (.overlay {}))
      (Overlay.chain (LayerStore.overlaySlot layers.chains.size) top)
      (ShowsOverlay shows layers.chains.size) := by
  obtain ⟨fresh, held⟩ := shown.fresh_push (.overlay {})
  exact shown.push shown.serves.overlay ⟨set.answer, {}, fresh, held, (Records.atop_empty _).symm⟩

theorem add_eq (shown : Shown set layers top shows) (cover : Cover) :
    layers.add (cover.spec (layers.chains.size - 1)) =
      .ok (match cover with
        | .cache =>
            layers.push (ReadCache.chain (LayerStore.cacheSlot layers.chains.size) top)
              (.cache {})
        | .overlay =>
            layers.push (Overlay.chain (LayerStore.overlaySlot layers.chains.size) top)
              (.overlay {})) := by
  have found : layers.chains[layers.chains.size - 1]? = some top :=
    Array.back?_eq_getElem?.symm.trans shown.top_eq
  cases cover with
  | cache | overlay => simp only [Cover.spec, add, pushOn, found]

/-- Covers can always be added, and the last layer serves however many there are. -/
theorem exists_pile (shown : Shown set layers top shows) (covers : List Cover) :
    ∃ piled top shows, layers.pile covers = .ok piled ∧ Shown set piled top shows := by
  induction covers generalizing layers top shows with
  | nil => exact ⟨layers, top, shows, rfl, shown⟩
  | cons cover rest ih =>
      rw [pile, List.foldlM_cons, shown.add_eq]
      cases cover with
      | cache => exact ih shown.cache
      | overlay => exact ih shown.overlay

end Shown

end Layers

/-- Layers are transparent to execution. Whatever caches and overlays stand on a state set, a
call on one more overlay on top of them comes to the same verdict as a call on the state set
itself, with the same data, logs and gas. It leaves the state set at the bottom as it was,
after any number of steps, and afterwards every question to the top is answered as the state
set answers that the call on it has left, whatever else was asked before. -/
theorem layers_transparent_to_calls (set : StateSet) (covers : List Cover)
    (block : Option BlockInfo) (transaction : Option TransactionInfo) (call : Call)
    (config : Option MachineConfig) (steps : Nat) :
    ∃ layers top, (Layers.ofSet set).pile (covers ++ [.overlay]) = .ok layers ∧
      layers.chains.back? = some top ∧
      ∃ verdict store left,
        evaluate top block transaction call config steps layers.store = (verdict, store) ∧
        evaluate (StateSet.chain .whole) block transaction call config steps set =
          (verdict, left) ∧
        ∀ asked question,
          (top.afterAsking asked store)[0]? = some (.set set) ∧
          (top.ask question (top.afterAsking asked store)).1 =
            ((StateSet.chain .whole).ask question left).1 := by
  obtain ⟨layers, top, shows, piled, shown⟩ := (Layers.shown_ofSet set).exists_pile covers
  have whole := shown.overlay
  obtain ⟨verdict_eq, near⟩ := evaluate_alike shown.serves.overlay_alike block transaction call
    config steps whole.fresh
  generalize ran : evaluate (Overlay.chain _ top) block transaction call config steps _ = outcome
    at verdict_eq near
  generalize evaluate (StateSet.chain .whole) block transaction call config steps set = plain
    at verdict_eq near ⊢
  obtain ⟨verdict, store⟩ := outcome
  obtain ⟨_, left⟩ := plain
  cases verdict_eq
  refine ⟨_, _, ?_, whole.top_eq, verdict, store, left, ran, rfl, ?_⟩
  · rw [Layers.pile_append, piled]
    exact shown.add_eq .overlay
  · intro asked question
    have still := whole.serves.afterAsking near asked
    obtain ⟨after, answered, -, -⟩ := whole.serves.answers still question
    refine ⟨whole.serves.bottom still, ?_⟩
    rw [answered, StateSet.ask_chain]
    rfl

end EvmAtlas
