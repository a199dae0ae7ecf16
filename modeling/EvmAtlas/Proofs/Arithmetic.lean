import EvmAtlas.Proofs.Failure

/-!
# Results that are computed ahead

`Opcode.value?` says which number an instruction that combines its operands stands for, in
integers without bounds: operands are read as unsigned or as signed numbers, and nothing wraps
around. The word that is computed ahead of a run is that number modulo `2 ^ 256`. Where the
number has a sign, the word reads the same as a signed one, except for the one quotient that is
too large for it.
-/

namespace EvmAtlas

/-! ## The numbers -/

/-- The number that an instruction with one operand stands for. -/
def Unary.value : Unary → Word → Int
  | .iszero, operand => if operand.toNat = 0 then 1 else 0
  | .not, operand => 2 ^ 256 - 1 - operand.toNat

/-- The number that an instruction with two operands stands for. -/
def Binary.value : Binary → Word → Word → Int
  | .add, first, second => first.toNat + second.toNat
  | .mul, first, second => first.toNat * second.toNat
  | .sub, first, second => (first.toNat : Int) - second.toNat
  | .div, first, second =>
      if second.toNat = 0 then 0 else (first.toNat / second.toNat : Nat)
  | .sdiv, first, second =>
      if second.toInt = 0 then 0 else first.toInt.tdiv second.toInt
  | .mod, first, second =>
      if second.toNat = 0 then 0 else (first.toNat % second.toNat : Nat)
  | .smod, first, second =>
      if second.toInt = 0 then 0 else first.toInt.tmod second.toInt
  | .exp, first, second => (first.toNat ^ second.toNat : Nat)
  | .signextend, first, second =>
      if first.toNat < 31 then (second.toNat : Int).bmod (2 ^ (8 * (first.toNat + 1)))
      else second.toNat
  | .lt, first, second => if first.toNat < second.toNat then 1 else 0
  | .gt, first, second => if second.toNat < first.toNat then 1 else 0
  | .slt, first, second => if first.toInt < second.toInt then 1 else 0
  | .sgt, first, second => if second.toInt < first.toInt then 1 else 0
  | .eq, first, second => if first.toNat = second.toNat then 1 else 0
  | .and, first, second => (first.toNat &&& second.toNat : Nat)
  | .or, first, second => (first.toNat ||| second.toNat : Nat)
  | .xor, first, second => (first.toNat ^^^ second.toNat : Nat)
  | .byte, first, second =>
      if first.toNat < 32 then (second.toNat / 256 ^ (31 - first.toNat) % 256 : Nat) else 0
  | .shl, first, second => (second.toNat * 2 ^ first.toNat : Nat)
  | .shr, first, second => (second.toNat / 2 ^ first.toNat : Nat)
  | .sar, first, second => second.toInt / (2 ^ first.toNat : Nat)

/-- The number that an instruction with three operands stands for. -/
def Ternary.value : Ternary → Word → Word → Word → Int
  | .addmod, first, second, third =>
      if third.toNat = 0 then 0 else ((first.toNat + second.toNat) % third.toNat : Nat)
  | .mulmod, first, second, third =>
      if third.toNat = 0 then 0 else (first.toNat * second.toNat % third.toNat : Nat)

/-- The number that an instruction stands for which depends on its operands alone, from exactly
as many operands as it takes, top of the stack first. -/
def Opcode.value? : Opcode → List Word → Option Int
  | .unary operation, [first] => some (operation.value first)
  | .binary operation, [first, second] => some (operation.value first second)
  | .ternary operation, [first, second, third] => some (operation.value first second third)
  | _, _ => none

/-! ## The words -/

namespace Word

/-- Whether a word is a number modulo `2 ^ 256`. -/
def Wraps (word : Word) (number : Int) : Prop :=
  (word.toNat : Int) = number % 2 ^ 256

variable {word divisor shift : Word} {number : Int}

theorem wraps_of_toNat {value : Nat} (same : word.toNat = value) : word.Wraps value := by
  rw [Wraps, ← same]
  have := word.isLt
  omega

theorem wraps_of_toNat_mod {value : Nat} (same : word.toNat = value % 2 ^ 256) :
    word.Wraps value := by
  rw [Wraps, same]
  omega

theorem wraps_toInt (word : Word) : word.Wraps word.toInt := by
  rw [Wraps, BitVec.toInt_eq_toNat_bmod]
  have := word.isLt
  exact (Int.emod_eq_of_lt (by omega) (by omega)).symm.trans Int.bmod_emod.symm

theorem wraps_of_bmod (same : word.toInt = number.bmod (2 ^ 256)) : word.Wraps number := by
  have wraps := word.wraps_toInt
  rw [same] at wraps
  exact wraps.trans Int.bmod_emod

/-- A word that is a number reads as that number with a sign, if it has room for it. -/
theorem Wraps.toInt_eq (wraps : word.Wraps number) : word.toInt = number.bmod (2 ^ 256) := by
  rw [BitVec.toInt_eq_toNat_bmod, wraps]
  exact Int.emod_bmod number (2 ^ 256)

theorem wraps_ofBool {condition : Bool} {holds : Prop} [Decidable holds]
    (same : condition = true ↔ holds) :
    Wraps (ofBool condition) (if holds then 1 else 0) := by
  unfold ofBool
  split
  · next yes =>
      rw [if_pos (same.mp yes)]
      rfl
  · next no =>
      rw [if_neg (no ∘ same.mpr)]
      rfl

theorem wraps_ite {condition holds : Prop} [Decidable condition] [Decidable holds]
    {other : Word} {otherNumber : Int} (same : condition ↔ holds)
    (first : holds → word.Wraps number) (second : ¬ holds → other.Wraps otherNumber) :
    Wraps (if condition then word else other) (if holds then number else otherNumber) := by
  split
  · next yes =>
      rw [if_pos (same.mp yes)]
      exact first (same.mp yes)
  · next no =>
      rw [if_neg (no ∘ same.mpr)]
      exact second (no ∘ same.mpr)

theorem eq_zero_iff : word = 0 ↔ word.toNat = 0 := by
  rw [← BitVec.toNat_inj]
  rfl

theorem eq_zero_iff_toInt : word = 0 ↔ word.toInt = 0 := by
  rw [← BitVec.toInt_inj]
  rfl

/-- Squaring and multiplying gives the power, if there is a round for every bit of the
exponent. -/
theorem toNat_powerRounds {rounds exponent : Nat} (enough : exponent < 2 ^ rounds)
    (base : Word) :
    (powerRounds rounds base exponent).toNat = base.toNat ^ exponent % 2 ^ 256 := by
  induction rounds generalizing base exponent with
  | zero =>
      obtain rfl : exponent = 0 := by omega
      rfl
  | succ rounds ih =>
      unfold powerRounds
      split
      · next spent =>
          rw [spent]
          rfl
      · have squared : (powerRounds rounds (base * base) (exponent / 2)).toNat =
            base.toNat ^ (2 * (exponent / 2)) % 2 ^ 256 := by
          rw [ih (by omega), BitVec.toNat_mul, ← Nat.pow_mod, Nat.pow_mul, Nat.pow_two]
        dsimp only
        split
        · next odd =>
            have parts : exponent = 2 * (exponent / 2) + 1 := by omega
            rw [BitVec.toNat_mul, squared, Nat.mul_mod_mod, Nat.mul_comm, ← Nat.pow_add_one,
              ← parts]
        · next even =>
            have parts : exponent = 2 * (exponent / 2) := by omega
            rw [squared, ← parts]

theorem toNat_power (base exponent : Word) :
    (power base exponent).toNat = base.toNat ^ exponent.toNat % 2 ^ 256 :=
  toNat_powerRounds exponent.isLt base

theorem toInt_signExtend_setWidth {index : Nat} (short : index < 31) (value : Word) :
    ((value.setWidth (8 * (index + 1))).signExtend 256).toInt =
      (value.toNat : Int).bmod (2 ^ (8 * (index + 1))) := by
  rw [BitVec.toInt_signExtend_of_le (by omega), BitVec.toInt_setWidth]

theorem toNat_shiftedByte (lower : Nat) (value : Word) :
    ((value >>> (8 * lower)) &&& (0xff : Word)).toNat = value.toNat / 256 ^ lower % 256 := by
  rw [BitVec.toNat_and, BitVec.toNat_ushiftRight, Nat.shiftRight_eq_div_pow, Nat.pow_mul]
  exact Nat.and_two_pow_sub_one_eq_mod _ 8

/-- Shifting left multiplies. A factor of `2 ^ 256` or more leaves nothing of the word. -/
theorem toNat_shiftLeft (shift value : Word) :
    (shiftLeft shift value).toNat = value.toNat * 2 ^ shift.toNat % 2 ^ 256 := by
  unfold shiftLeft
  split
  · rw [BitVec.toNat_shiftLeft, Nat.shiftLeft_eq]
  · next wide =>
      have factor : 2 ^ 256 ∣ value.toNat * 2 ^ shift.toNat :=
        Nat.dvd_mul_left_of_dvd (Nat.pow_dvd_pow 2 (Nat.not_lt.mp wide)) _
      exact (Nat.mod_eq_zero_of_dvd factor).symm

/-- Shifting right divides. A divisor of `2 ^ 256` or more is larger than the word. -/
theorem toNat_shiftRight (shift value : Word) :
    (shiftRight shift value).toNat = value.toNat / 2 ^ shift.toNat := by
  unfold shiftRight
  split
  · rw [BitVec.toNat_ushiftRight, Nat.shiftRight_eq_div_pow]
  · next wide =>
      have small : value.toNat < 2 ^ shift.toNat :=
        Nat.lt_of_lt_of_le value.isLt (Nat.pow_le_pow_right (by decide) (Nat.not_lt.mp wide))
      exact (Nat.div_eq_of_lt small).symm

/-- A divisor of `2 ^ 256` or more leaves nothing of a signed word but its sign. -/
theorem toInt_ediv_pow {count : Nat} (wide : 256 ≤ count) (value : Word) :
    value.toInt / (2 ^ count : Nat) = if value.toInt < 0 then -1 else 0 := by
  have lower := value.le_toInt
  have upper := value.toInt_lt
  have large : 2 ^ 256 ≤ 2 ^ count := Nat.pow_le_pow_right (by decide) wide
  generalize 2 ^ count = divisor at large
  split
  · next negative => exact Int.ediv_eq_neg_one_of_neg_of_le negative (by omega)
  · exact Int.ediv_eq_zero_of_lt (by omega) (by omega)

/-- Shifting a signed word right divides and rounds down. -/
theorem toInt_shiftRightSigned (shift value : Word) :
    (shiftRightSigned shift value).toInt = value.toInt / (2 ^ shift.toNat : Nat) := by
  rw [shiftRightSigned, BitVec.toInt_sshiftRight, Int.shiftRight_eq_div_pow]
  rcases Nat.le_total shift.toNat 256 with narrow | wide
  · rw [Nat.min_eq_left narrow]
  · rw [Nat.min_eq_right wide, toInt_ediv_pow wide, toInt_ediv_pow (Nat.le_refl _)]

end Word

theorem Unary.wraps_eval (operation : Unary) (operand : Word) :
    Word.Wraps (operation.eval operand) (operation.value operand) := by
  cases operation with
  | iszero => exact Word.wraps_ofBool (beq_iff_eq.trans Word.eq_zero_iff)
  | not =>
      have small := operand.isLt
      have flipped : ((2 ^ 256 - 1 - operand.toNat : Nat) : Int) = value .not operand := by
        rw [value]
        omega
      rw [← flipped]
      exact Word.wraps_of_toNat BitVec.toNat_not

theorem Binary.wraps_eval (operation : Binary) (first second : Word) :
    Word.Wraps (operation.eval first second) (operation.value first second) := by
  cases operation with
  | add => exact Word.wraps_of_toNat_mod (BitVec.toNat_add _ _)
  | mul => exact Word.wraps_of_toNat_mod (BitVec.toNat_mul _ _)
  | sub =>
      have small := second.isLt
      rw [eval, value, Word.Wraps, BitVec.toNat_sub]
      omega
  | div =>
      have quotient : (first.udiv second).toNat = first.toNat / second.toNat :=
        BitVec.toNat_udiv
      rw [value]
      split
      · next zero =>
          rw [zero, Nat.div_zero] at quotient
          exact Word.wraps_of_toNat quotient
      · exact Word.wraps_of_toNat quotient
  | sdiv =>
      have quotient := BitVec.toInt_sdiv first second
      rw [value]
      split
      · next zero =>
          rw [zero, Int.tdiv_zero] at quotient
          exact Word.wraps_of_bmod quotient
      · exact Word.wraps_of_bmod quotient
  | mod =>
      exact Word.wraps_ite Word.eq_zero_iff (fun _ => rfl)
        fun _ => Word.wraps_of_toNat BitVec.toNat_umod
  | smod =>
      refine Word.wraps_ite Word.eq_zero_iff_toInt (fun _ => rfl) fun _ => ?_
      rw [← BitVec.toInt_srem]
      exact Word.wraps_toInt _
  | exp => exact Word.wraps_of_toNat_mod (Word.toNat_power _ _)
  | signextend =>
      refine Word.wraps_ite Iff.rfl (fun short => ?_) fun _ => Word.wraps_of_toNat rfl
      rw [← Word.toInt_signExtend_setWidth short]
      exact Word.wraps_toInt _
  | lt => exact Word.wraps_ofBool BitVec.ult_iff_toNat_lt
  | gt => exact Word.wraps_ofBool BitVec.ult_iff_toNat_lt
  | slt => exact Word.wraps_ofBool BitVec.slt_iff_toInt_lt
  | sgt => exact Word.wraps_ofBool BitVec.slt_iff_toInt_lt
  | eq => exact Word.wraps_ofBool (beq_iff_eq.trans BitVec.toNat_inj.symm)
  | and => exact Word.wraps_of_toNat (BitVec.toNat_and _ _)
  | or => exact Word.wraps_of_toNat (BitVec.toNat_or _ _)
  | xor => exact Word.wraps_of_toNat (BitVec.toNat_xor _ _)
  | byte =>
      exact Word.wraps_ite Iff.rfl (fun _ => Word.wraps_of_toNat (Word.toNat_shiftedByte _ _))
        fun _ => rfl
  | shl => exact Word.wraps_of_toNat_mod (Word.toNat_shiftLeft _ _)
  | shr => exact Word.wraps_of_toNat (Word.toNat_shiftRight _ _)
  | sar =>
      rw [value, ← Word.toInt_shiftRightSigned]
      exact Word.wraps_toInt _

theorem Ternary.wraps_eval (operation : Ternary) (first second third : Word) :
    Word.Wraps (operation.eval first second third) (operation.value first second third) := by
  have reduced (number : Nat) (nonzero : ¬ third.toNat = 0) :
      Word.Wraps (BitVec.ofNat 256 (number % third.toNat)) (number % third.toNat : Nat) := by
    apply Word.wraps_of_toNat
    rw [BitVec.toNat_ofNat, Nat.mod_eq_of_lt]
    exact Nat.lt_trans (Nat.mod_lt _ (Nat.pos_of_ne_zero nonzero)) third.isLt
  cases operation with
  | addmod => exact Word.wraps_ite Word.eq_zero_iff (fun _ => rfl) (reduced _)
  | mulmod => exact Word.wraps_ite Word.eq_zero_iff (fun _ => rfl) (reduced _)

/-- A result that is computed ahead is the number that its instruction stands for. -/
theorem Opcode.exists_value?_eq {opcode : Opcode} {operands : List Word} {result : Word}
    (folds : opcode.fold? operands = some result) :
    ∃ value, opcode.value? operands = some value ∧ result.Wraps value := by
  unfold fold? at folds
  split at folds
  · cases folds
    exact ⟨_, rfl, Unary.wraps_eval _ _⟩
  · cases folds
    exact ⟨_, rfl, Binary.wraps_eval _ _ _⟩
  · cases folds
    exact ⟨_, rfl, Ternary.wraps_eval _ _ _ _⟩
  · cases folds

/-- Computing ahead is the arithmetic of the machine. An instruction whose result depends on its
operands alone has one for all operands, as many as it takes. The result is the number that the
instruction stands for modulo `2 ^ 256`, and read as a signed word it is that number modulo
`2 ^ 256` around zero. -/
theorem folding_is_arithmetic (opcode : Opcode) (foldable : opcode.isFoldable = true)
    (operands : List Word) (counted : operands.length = opcode.arity.pops) :
    ∃ result value, Opcode.fold opcode.toByte operands = .ok result ∧
      opcode.value? operands = some value ∧
      (result.toNat : Int) = value % 2 ^ 256 ∧
      result.toInt = value.bmod (2 ^ 256) := by
  obtain ⟨result, folds⟩ := Opcode.exists_fold?_eq foldable counted
  obtain ⟨value, value_eq, wraps⟩ := Opcode.exists_value?_eq folds
  exact ⟨result, value, Opcode.fold_eq_ok folds, value_eq, wraps, wraps.toInt_eq⟩

/-- The one quotient that is too large for a signed word: the least word divided by -1, which
gives the least word again. -/
theorem least_quotient_folded :
    ∃ result, Opcode.fold 0x05 [BitVec.intMin 256, -1] = .ok result ∧
      result.toInt = -2 ^ 255 := by
  obtain ⟨result, value, folds, value_eq, -, toInt_eq⟩ :=
    folding_is_arithmetic (.binary .sdiv) rfl [BitVec.intMin 256, -1] rfl
  have number : (Opcode.binary .sdiv).value? [BitVec.intMin 256, -1] = some (2 ^ 255) := by
    decide +kernel
  cases number.symm.trans value_eq
  refine ⟨result, folds, ?_⟩
  rw [toInt_eq]
  decide +kernel

end EvmAtlas
