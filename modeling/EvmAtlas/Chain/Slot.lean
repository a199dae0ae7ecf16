/-!
# Slots

A place inside a larger state: how to look at what it holds, and how to replace it. The
layers of a chain each keep their own data in a slot of one common state.
-/

namespace EvmAtlas

/-- A place of type `α` inside a state. -/
structure Slot (σ α : Type) where
  get : σ → α
  set : α → σ → σ

namespace Slot

/-- The whole state as its own place. -/
def whole {σ : Type} : Slot σ σ where
  get state := state
  set value _ := value

/-- The first of a pair. -/
def first {α β : Type} : Slot (α × β) α where
  get state := state.1
  set value state := (value, state.2)

/-- The second of a pair. -/
def second {α β : Type} : Slot (α × β) β where
  get state := state.2
  set value state := (state.1, value)

/-- Replace what a place holds by a function of it. -/
def modify {σ α : Type} (slot : Slot σ α) (change : α → α) (state : σ) : σ :=
  slot.set (change (slot.get state)) state

end Slot

end EvmAtlas
