import EvmAtlas.Proofs.Layout
import EvmAtlas.Proofs.Trace

/-!
# Every access is in bounds

No call crashes: a machine finds the operands that it was promised on the stack, and every
region that it reads or writes inside its memory, that of a frame going on behind a call
included. Where the machine reads bytes with a definition that cannot fail, the definitions
ending in a question mark here do the same with positions that are checked, in the number
ranges that positions are computed in, and they never fail either.
-/

namespace EvmAtlas

variable {σ : Type}

/-! ## Checked positions -/

namespace Bytes

theorem extract_min (bytes : Bytes) (start stop : Nat) :
    bytes.extract (min start bytes.size) (min stop bytes.size) = bytes.extract start stop := by
  apply ByteArray.ext
  simp only [ByteArray.data_extract]
  apply Array.ext
  · simp only [Array.size_extract, ByteArray.size_data]
    omega
  · intro index inside _
    simp only [Array.size_extract, ByteArray.size_data] at inside
    simp only [Array.getElem_extract]
    congr 1
    omega

theorem slice?_eq {bytes : Bytes} {start stop : Int} (forward : 0 ≤ start)
    (ordered : start ≤ stop) (inside : stop ≤ bytes.size) :
    bytes.slice? start stop = some (bytes.extract start.toNat stop.toNat) := by
  rw [slice?, if_pos ⟨forward, ordered, inside⟩]

/-- Clipping comes to a window, also where the sum of its numbers wraps around. -/
theorem clipped?_eq {bytes : Bytes} (short : bytes.size < 2 ^ 64) (start : UInt64)
    {size : UInt64} (small : size.toNat < 2 ^ 63) :
    bytes.clipped? start size = some (bytes.window start.toNat size.toNat) := by
  let length := UInt64.ofNat bytes.size
  let first := if length < start then length else start
  let last := if length < first + size ∨ first + size < first then length else first + size
  have length_eq : length.toNat = bytes.size := UInt64.toNat_ofNat_of_lt' short
  have first_eq : first.toNat = min start.toNat bytes.size := by
    dsimp only [first]
    split
    · next past =>
        rw [UInt64.lt_iff_toNat_lt] at past
        omega
    · next within =>
        rw [UInt64.not_lt, UInt64.le_iff_toNat_le] at within
        omega
  have last_eq : last.toNat = min (start.toNat + size.toNat) bytes.size := by
    dsimp only [last]
    split
    · next cut =>
        rw [UInt64.lt_iff_toNat_lt, UInt64.lt_iff_toNat_lt, UInt64.toNat_add] at cut
        omega
    · next whole =>
        rw [not_or, UInt64.lt_iff_toNat_lt, UInt64.lt_iff_toNat_lt, UInt64.toNat_add] at whole
        rw [UInt64.toNat_add]
        omega
  unfold clipped? window
  change (bytes.slice? first.toNat last.toNat).map _ = _
  rw [slice?_eq (by omega) (by omega) (by omega), Option.map_some, Int.toNat_natCast,
    Int.toNat_natCast, first_eq, last_eq, extract_min, toInt_toInt64 small, Int.toNat_sub]

end Bytes

/-- The word that a push reads, from a part of the code that is cut out and then filled with
zeros, by signed positions. -/
def Code.immediate? (code : Code) (pc : UInt64) (count : Nat) : Option Word :=
  let first := min (code.size : Int) (pc + 1).toInt64.toInt
  let last := min (code.size : Int) (first + count)
  (code.bytes.slice? first last).map fun part =>
    Word.ofBytes (part.padRight (count - part.size))

theorem Code.immediate?_eq {code : Code} (short : code.size < 2 ^ 63) {pc : UInt64}
    (inside : pc.toNat < code.size) (count : Nat) :
    code.immediate? pc count = some (code.immediate (pc + 1) count) := by
  have next_eq := Block.toNat_add_one (Nat.lt_trans inside short)
  let first := min (code.size : Int) (pc + 1).toInt64.toInt
  let last := min (code.size : Int) (first + count)
  have first_eq : first = (min (pc + 1).toNat code.size : Nat) := by
    dsimp only [first]
    rw [toInt_toInt64 (by omega)]
    omega
  have last_eq : last = (min ((pc + 1).toNat + count) code.size : Nat) := by
    dsimp only [last]
    omega
  unfold immediate? immediate Bytes.window
  change (code.bytes.slice? first last).map _ = _
  rw [first_eq, last_eq, Bytes.slice?_eq (by omega) (by omega) (by rw [← size]; omega),
    Option.map_some, Int.toNat_natCast, Int.toNat_natCast, size, Bytes.extract_min]

namespace CodeMap

/-- Set the bit of a position, which has to lie inside the map. -/
def setBit? (bits : Bytes) (position : Nat) : Option Bytes :=
  if position / 8 < bits.size then some (setBit bits position) else none

/-- The bit of a position, which has to lie inside the map. -/
def testBit? (bits : Bytes) (position : Nat) : Option Bool :=
  if position / 8 < bits.size then some (testBit bits position) else none

/-- A sweep meets no immediate byte more than 32 bytes past the end of the program. -/
theorem le_of_mem_immediatesFrom {bytes : Bytes} {steps pc position : Nat}
    (member : position ∈ immediatesFrom bytes steps pc) : position < bytes.size + 32 := by
  induction steps generalizing pc with
  | zero => cases member
  | succ steps ih =>
      simp only [immediatesFrom] at member
      split at member
      · next inside =>
          rcases List.mem_append.mp member with inRange | later
          · have width := immediateSize_le (bytes.byteAt pc)
            have upper := (List.mem_range'_1.mp inRange).2
            omega
          · exact ih later
      · cases member

theorem foldlM_setBit? {positions : List Nat} {bits : Bytes}
    (inside : ∀ position ∈ positions, position / 8 < bits.size) :
    positions.foldlM setBit? bits = some (positions.foldl setBit bits) := by
  induction positions generalizing bits with
  | nil => rfl
  | cons first rest ih =>
      rw [List.foldlM_cons, setBit?, if_pos (inside first (.head _)), List.foldl_cons]
      apply ih
      intro position member
      rw [size_setBit]
      exact inside position (.tail _ member)

theorem size_foldl_setBit (positions : List Nat) (bits : Bytes) :
    (positions.foldl setBit bits).size = bits.size := by
  induction positions generalizing bits with
  | nil => rfl
  | cons first rest ih => rw [List.foldl_cons, ih, size_setBit]

/-- The map of a program has room for all its immediate bytes, those past its end included. -/
theorem div_lt_width_of_mem_immediates {bytes : Bytes} {position : Nat}
    (member : position ∈ immediates bytes) : position / 8 < width bytes.size := by
  have near := le_of_mem_immediatesFrom member
  unfold width
  omega

theorem size_ofBytes (bytes : Bytes) : (ofBytes bytes).bits.size = width bytes.size := by
  rw [ofBytes, size_foldl_setBit, Bytes.zeroes, Bytes.size_padRight]
  exact Nat.zero_add _

theorem foldlM_immediates (bytes : Bytes) :
    (immediates bytes).foldlM setBit? (.zeroes (width bytes.size)) =
      some (ofBytes bytes).bits := by
  apply foldlM_setBit?
  intro position member
  rw [Bytes.zeroes, Bytes.size_padRight]
  exact Nat.lt_of_lt_of_le (div_lt_width_of_mem_immediates member) (Nat.le_add_left _ _)

theorem testBit?_ofBytes {bytes : Bytes} {pc : Nat} (inside : pc < bytes.size) :
    testBit? (ofBytes bytes).bits pc = some (testBit (ofBytes bytes).bits pc) := by
  rw [testBit?, if_pos]
  rw [size_ofBytes]
  exact div_lt_width inside

end CodeMap

/-! ## Runs without a crash -/

/-- A status that is no crash, and does not come to one when its frames end. -/
inductive Status.Clear : Status σ → Prop where
  | running {machine : Machine σ} (rooms : ∀ waiting ∈ machine.callers, waiting.HasRoom) :
      Clear (.running machine)
  | ended {machine : Machine σ} {ending : Ending} (orderly : ∀ crash, ending ≠ .crashed crash) :
      Clear (.ended machine ending)

namespace Machine

variable {config : MachineConfig} {machine : Machine σ}

theorem unwind_clear {callers : List Suspended} {ending : Ending}
    (rooms : ∀ waiting ∈ callers, waiting.HasRoom)
    (orderly : ∀ crash, ending ≠ .crashed crash) :
    (unwind config callers machine ending).Clear := by
  induction callers generalizing machine ending with
  | nil => exact .ended orderly
  | cons waiting callers ih =>
      rw [List.forall_mem_cons] at rooms
      obtain ⟨room, rooms⟩ := rooms
      have resumed {back : Machine σ} {flag : Word} {data : Bytes}
          (callers_eq : back.callers = callers)
          (memory_eq : back.frame.memory = waiting.frame.memory) :
          (back.resume waiting.output flag data).Clear := by
        unfold resume
        dsimp only
        split
        · apply Status.Clear.running
          rw [mapMemory_eq, callers_eq]
          exact rooms
        · next outside =>
            rw [memory_eq] at outside
            exact (outside room).elim
      cases ending with
      | returned data => exact resumed rfl rfl
      | reverted data => exact resumed rfl rfl
      | failed fault =>
          simp only [unwind]
          split
          · exact resumed rfl rfl
          · apply ih rooms
            intro crash absurd
            cases absurd
      | crashed crash => exact (orderly crash rfl).elim

theorem Course.clear {room : Prop} {gas : UInt64} {callers : List Suspended} {opcode : Opcode}
    {status : Status σ} (course : Course config room gas callers opcode status) (wide : room)
    (rooms : ∀ waiting ∈ callers, waiting.HasRoom) : status.Clear := by
  have callee {waiting : Suspended} {inner : Machine σ}
      (opens : Opens config room gas callers waiting inner) :
      ∀ waiting ∈ inner.callers, waiting.HasRoom := by
    rw [opens.callers_eq, List.forall_mem_cons]
    exact ⟨opens.hasRoom wide, rooms⟩
  cases course with
  | goesOn lasts same =>
      apply Status.Clear.running
      rw [same.callers_eq]
      exact rooms
  | calls fetched opens => exact .running (callee opens)
  | returns fetched opens =>
      apply unwind_clear (callee opens)
      intro crash absurd
      cases absurd
  | ends same orderly =>
      rw [finish, same.callers_eq]
      exact unwind_clear rooms orderly
  | crashes tight => exact (tight wide).elim

variable {chain : Chain σ} {environment : Environment}

theorem step_clear (limited : environment.config.memoryLimit.toNat < 2 ^ 63)
    (rooms : ∀ waiting ∈ machine.callers, waiting.HasRoom) :
    (machine.step chain environment).Clear := by
  have sequel := step_sequel chain environment machine
  generalize machine.step chain environment = status at sequel ⊢
  cases sequel with
  | refused passes =>
      apply unwind_clear rooms
      intro crash absurd
      cases absurd
  | executed fetched covered course => exact course.clear limited rooms

theorem run_clear (limited : environment.config.memoryLimit.toNat < 2 ^ 63) (steps : Nat)
    {status : Status σ} (clear : status.Clear) :
    (run chain environment steps status).Clear := by
  induction steps generalizing status with
  | zero => exact clear
  | succ steps ih =>
      cases clear with
      | running rooms => exact ih (step_clear limited rooms)
      | ended orderly => exact .ended orderly

theorem begin_clear (config : MachineConfig) (registers : Registers) (call : Call)
    (code : Bytes) (state : σ) : (begin config registers call code state).Clear := by
  unfold begin
  dsimp only
  split
  · apply unwind_clear
    · intro waiting member
      cases member
    · intro crash absurd
      cases absurd
  · apply Status.Clear.running
    intro waiting member
    cases member

/-- The accesses of a machine that are made without a check of their own, all of them in
bounds, and the values that it reads although they may be absent. -/
structure InBounds (environment : Environment) (machine : Machine σ) : Prop where
  /-- The map of the code has a bit for every immediate byte, those past the end of the code
  included. -/
  mapped : (immediates machine.frame.code.bytes).foldlM CodeMap.setBit?
      (.zeroes (CodeMap.width machine.frame.code.size)) = some machine.frame.code.map.bits
  /-- It has a bit for every position that a jump may ask for. -/
  looked : ∀ pc < machine.frame.code.size,
    CodeMap.testBit? machine.frame.code.map.bits pc =
      some (CodeMap.testBit machine.frame.code.map.bits pc)
  /-- A push reads its word from inside the code. -/
  pushed : machine.frame.code.size < 2 ^ 63 → ∀ index,
    machine.fetched? = some (.push index) →
      machine.frame.code.immediate? machine.frame.pc (index.val + 1) =
        some (machine.frame.code.immediate (machine.frame.pc + 1) (index.val + 1))
  /-- Loading call data reads it from inside. -/
  loaded : machine.frame.input.size < 2 ^ 63 → ∀ start,
    machine.frame.input.clipped? start 32 = some (machine.frame.input.window start.toNat 32)
  /-- A copy to a region that passed the check of its instruction, and the data of a call,
  are read from inside any source. -/
  copied : ∀ (opcode : Opcode) (regions : List Region) (size : UInt64),
    opcode.regions? machine.frame.stack = some regions →
    Region.needed? regions = some size → size ≤ environment.config.memoryLimit →
    ∀ region ∈ regions, ∀ source : Bytes, source.size < 2 ^ 63 → ∀ start,
      source.clipped? start region.length.low64 =
        some (source.window start.toNat region.length.low64.toNat)
  /-- A price or a difficulty that is not given reads as zero. -/
  absent : ∀ reading,
    reading = .gasprice ∧ environment.transaction.gasPrice = none ∨
      reading = .difficulty ∧ environment.block.difficulty = none →
    machine.read environment reading = 0
  /-- So does a balance that the chain does not know. -/
  unknown : ∀ (chain : Chain σ) (account : Word) (rest : List Word) (after : σ),
    machine.frame.stack = account :: rest →
    chain.balance account.toAddress machine.chain = (.ok none, after) →
    execute chain environment machine .balance =
      next { machine with chain := after } (0 :: rest)

theorem inBounds (limited : environment.config.memoryLimit.toNat < 2 ^ 63)
    (machine : Machine σ) : machine.InBounds environment where
  mapped := by
    rw [machine.frame.code.map_eq]
    exact CodeMap.foldlM_immediates _
  looked := by
    intro pc inside
    rw [machine.frame.code.map_eq]
    exact CodeMap.testBit?_ofBytes inside
  pushed := by
    intro short index fetched
    apply Code.immediate?_eq short
    apply Code.lt_size_of_ofByte?_ne_stop
    intro stops
    cases fetched.symm.trans stops
  loaded := by
    intro short start
    exact Bytes.clipped?_eq (Nat.lt_trans short (by decide)) start (by decide)
  copied := by
    intro opcode regions size _ asked fits region member source short start
    apply Bytes.clipped?_eq (Nat.lt_trans short (by decide))
    rw [UInt64.le_iff_toNat_le] at fits
    exact Region.length_lt_of_needed? asked (Nat.lt_of_le_of_lt fits limited) region member
  absent := by
    rintro reading (⟨rfl, missing⟩ | ⟨rfl, missing⟩)
    · rw [read, missing]
      rfl
    · rw [read, missing]
      rfl
  unknown := by
    intro chain account rest after operands answered
    simp only [execute, operands, ask, answered, Option.getD_none]

end Machine

theorem Status.Clear.verdict_ne {status : Status σ} (clear : status.Clear) (crash : Crash) :
    status.verdict ≠ .crashed crash := by
  intro crashed
  have judged := status.judged
  rw [crashed] at judged
  cases judged with
  | crashed =>
      cases clear with
      | ended orderly => exact orderly crash rfl

/-- No call crashes. With a limit to memory whose sizes are also signed numbers, a run of any
length finds the operands of every instruction on the stack and every region that it
touches in memory, and the accesses that are made without a check of their own, of the code
map, of immediate bytes and of what is copied, stay in bounds at every machine that the run
comes to. -/
theorem call_stays_in_bounds (chain : Chain σ) (interpreter : Interpreter) (call : Call)
    (steps : Nat) (state : σ)
    (limited : interpreter.environment.config.memoryLimit.toNat < 2 ^ 63) :
    (∀ crash, (interpreter.call chain call steps state).1 ≠ .crashed crash) ∧
    ∀ machine, interpreter.Reaches chain call steps state machine →
      machine.InBounds interpreter.environment := by
  constructor
  · intro crash
    rcases asked : chain.code call.address state with ⟨_ | code, after⟩
    · rw [Interpreter.call, asked]
      intro crashed
      cases crashed
    · rw [Interpreter.verdict_eq asked]
      apply Status.Clear.verdict_ne
      apply Machine.run_clear limited
      exact Machine.begin_clear _ _ _ _ _
  · intro machine _
    exact machine.inBounds limited

/-- An account that writes the last byte of a word of memory and ends with a push that is cut
short. -/
def cutShortAccounts : StateSet :=
  ({} : StateSet).setCode 0 (Bytes.ofList [0x60, 0x01, 0x60, 0x1f, 0x53, 0x61, 0x01])

/-- The byte is written, and the push reads what there is of its word. -/
theorem cutShortAccounts_stay_in_bounds :
    (∀ steps crash, ((Interpreter.fresh none none none).call (StateSet.chain .whole) {} steps
      cutShortAccounts).1 ≠ .crashed crash) ∧
    ∃ machine, (Interpreter.fresh none none none).Reaches (StateSet.chain .whole) {} 3
        cutShortAccounts machine ∧
      machine.frame.memory.size = 32 ∧
      machine.frame.code.immediate? machine.frame.pc 2 =
        some (machine.frame.code.immediate (machine.frame.pc + 1) 2) := by
  have limited : (Interpreter.fresh none none none).environment.config.memoryLimit.toNat <
      2 ^ 63 := by
    decide
  constructor
  · intro steps
    exact (call_stays_in_bounds (StateSet.chain .whole) (.fresh none none none) {} steps
      cutShortAccounts limited).1
  · have comes : (Machine.run (StateSet.chain .whole) (.of none none none) 3
        (Machine.begin (Environment.of none none none).config {} {}
          (cutShortAccounts.account 0).code cutShortAccounts)).running?.any
        (fun machine => machine.frame.memory.size == 32 && machine.frame.code.size == 7 &&
          machine.fetched? == some (.push 1)) = true := by
      decide +kernel
    obtain ⟨machine, ran, seen⟩ := Status.exists_running comes
    simp only [Bool.and_eq_true, beq_iff_eq] at seen
    obtain ⟨⟨written, size_eq⟩, fetched⟩ := seen
    have reaches : (Interpreter.fresh none none none).Reaches (StateSet.chain .whole) {} 3
        cutShortAccounts machine := ⟨_, _, rfl, ran⟩
    obtain ⟨-, bounded⟩ := call_stays_in_bounds (StateSet.chain .whole)
      (.fresh none none none) {} 3 cutShortAccounts limited
    have short : machine.frame.code.size < 2 ^ 63 := by
      rw [size_eq]
      decide
    exact ⟨machine, reaches, written, (bounded machine reaches).pushed short 1 fetched⟩

end EvmAtlas
