import EvmAtlas.Bytes

/-!
# Keccak-256

The hash of the machine: the sponge over the 1600-bit permutation with a rate of 136
bytes and a padding of a one bit, zeros and a one bit. The state is five planes of five
64-bit lanes. A round mixes columns (`theta`), turns and scatters lanes (`scatter`),
mixes rows (`Plane.chi`) and adds the round's constant.
-/

namespace EvmAtlas

namespace Keccak

/-- Turn a lane left by a number of bits between 1 and 63. -/
@[inline] def turn (lane : UInt64) (count : UInt64) : UInt64 :=
  (lane <<< count) ||| (lane >>> (64 - count))

/-- Five lanes of one plane, in the order of their column. -/
structure Plane where
  (a b c d e : UInt64)

/-- The five planes of the permutation's state. -/
structure State where
  (p q r s t : Plane)

namespace Plane

/-- Lane-wise exclusive or. -/
@[inline] def xor (left right : Plane) : Plane :=
  ⟨left.a ^^^ right.a, left.b ^^^ right.b, left.c ^^^ right.c, left.d ^^^ right.d,
    left.e ^^^ right.e⟩

/-- What each column of `theta` receives from the parities of its two neighbours. -/
@[inline] def spread (parity : Plane) : Plane :=
  ⟨parity.e ^^^ turn parity.b 1, parity.a ^^^ turn parity.c 1, parity.b ^^^ turn parity.d 1,
    parity.c ^^^ turn parity.e 1, parity.d ^^^ turn parity.a 1⟩

/-- The row step: each lane takes the next but one where the next is clear. -/
@[inline] def chi (plane : Plane) : Plane :=
  ⟨plane.a ^^^ (~~~plane.b &&& plane.c), plane.b ^^^ (~~~plane.c &&& plane.d),
    plane.c ^^^ (~~~plane.d &&& plane.e), plane.d ^^^ (~~~plane.e &&& plane.a),
    plane.e ^^^ (~~~plane.a &&& plane.b)⟩

end Plane

/-- The column step: every lane receives the parities of two columns. -/
@[inline] def theta (state : State) : State :=
  let parity := ((state.p.xor state.q).xor (state.r.xor state.s)).xor state.t
  let spread := parity.spread
  ⟨state.p.xor spread, state.q.xor spread, state.r.xor spread, state.s.xor spread,
    state.t.xor spread⟩

/-- Turn every lane by its own count and move it to its new place. -/
@[inline] def scatter (state : State) : State :=
  ⟨⟨state.p.a, turn state.q.b 44, turn state.r.c 43, turn state.s.d 21, turn state.t.e 14⟩,
    ⟨turn state.p.d 28, turn state.q.e 20, turn state.r.a 3, turn state.s.b 45,
      turn state.t.c 61⟩,
    ⟨turn state.p.b 1, turn state.q.c 6, turn state.r.d 25, turn state.s.e 8,
      turn state.t.a 18⟩,
    ⟨turn state.p.e 27, turn state.q.a 36, turn state.r.b 10, turn state.s.c 15,
      turn state.t.d 56⟩,
    ⟨turn state.p.c 62, turn state.q.d 55, turn state.r.e 39, turn state.s.a 41,
      turn state.t.b 2⟩⟩

def round (state : State) (constant : UInt64) : State :=
  let mixed := scatter (theta state)
  let first := mixed.p.chi
  ⟨{ first with a := first.a ^^^ constant }, mixed.q.chi, mixed.r.chi, mixed.s.chi,
    mixed.t.chi⟩

/-- The constants of the twenty-four rounds. -/
def roundConstants : List UInt64 :=
  [0x0000000000000001, 0x0000000000008082, 0x800000000000808a, 0x8000000080008000,
    0x000000000000808b, 0x0000000080000001, 0x8000000080008081, 0x8000000000008009,
    0x000000000000008a, 0x0000000000000088, 0x0000000080008009, 0x000000008000000a,
    0x000000008000808b, 0x800000000000008b, 0x8000000000008089, 0x8000000000008003,
    0x8000000000008002, 0x8000000000000080, 0x000000000000800a, 0x800000008000000a,
    0x8000000080008081, 0x8000000000008080, 0x0000000080000001, 0x8000000080008008]

def permute (state : State) : State :=
  roundConstants.foldl round state

/-- The state before anything is absorbed. -/
def initial : State :=
  let plane : Plane := ⟨0, 0, 0, 0, 0⟩
  ⟨plane, plane, plane, plane, plane⟩

/-- The number of bytes absorbed at a time. -/
def rate : Nat := 136

/-- The lane written at a position of a byte string, least significant byte first. -/
@[inline] def laneAt (bytes : Bytes) (position : Nat) : UInt64 :=
  let byte (index : Nat) : UInt64 := (bytes.byteAt (position + index)).toUInt64
  byte 0 ||| (byte 1 <<< 8) ||| (byte 2 <<< 16) ||| (byte 3 <<< 24) ||| (byte 4 <<< 32)
    ||| (byte 5 <<< 40) ||| (byte 6 <<< 48) ||| (byte 7 <<< 56)

/-- Five lanes from a position on. -/
@[inline] def planeAt (bytes : Bytes) (position : Nat) : Plane :=
  ⟨laneAt bytes position, laneAt bytes (position + 8), laneAt bytes (position + 16),
    laneAt bytes (position + 24), laneAt bytes (position + 32)⟩

/-- Absorb the block at a position: seventeen lanes. -/
def absorbBlock (bytes : Bytes) (position : Nat) (state : State) : State :=
  permute
    ⟨state.p.xor (planeAt bytes position), state.q.xor (planeAt bytes (position + 40)),
      state.r.xor (planeAt bytes (position + 80)),
      { state.s with
        a := state.s.a ^^^ laneAt bytes (position + 120)
        b := state.s.b ^^^ laneAt bytes (position + 128) },
      state.t⟩

/-- Absorb a number of blocks from a position on. -/
def absorb (bytes : Bytes) : Nat → Nat → State → State
  | 0, _, state => state
  | count + 1, position, state =>
      absorb bytes count (position + rate) (absorbBlock bytes position state)

/-- Fill a message up to whole blocks: a one bit, zeros and a one bit. -/
def pad (message : Bytes) : Bytes :=
  let missing := rate - message.size % rate
  if missing = 1 then message.push 0x81
  else (Bytes.padRight (message.push 0x01) (missing - 2)).push 0x80

/-- The eight bytes of a lane, least significant first. -/
def laneBytes (lane : UInt64) : List UInt8 :=
  (List.range 8).map fun index => (lane >>> UInt64.ofNat (8 * index)).toUInt8

end Keccak

/-- The Keccak-256 hash of a byte string. -/
def keccak (message : Bytes) : Word :=
  let padded := Keccak.pad message
  let state := Keccak.absorb padded (padded.size / Keccak.rate) 0 Keccak.initial
  Word.ofBytes (Bytes.ofList
    ([state.p.a, state.p.b, state.p.c, state.p.d].flatMap Keccak.laneBytes))

end EvmAtlas
