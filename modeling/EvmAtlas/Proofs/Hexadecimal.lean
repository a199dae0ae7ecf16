import Mathlib.Logic.Function.Basic
import EvmAtlas.Json.Quantity

/-!
# Hexadecimal strings are read as they were written

`Hex.Spells` says which digits are those of a number, and the facts about them follow it: they
spell the number, they do not begin with a zero, and there are few enough. So the strings of
quantities, of numbers with a fixed count of digits, and of byte strings are read back as
what they were written from.
-/

namespace EvmAtlas

namespace Hex

theorem value?_digitChar : ∀ digit < 16, value? (Nat.digitChar digit) = some digit := by
  decide

theorem digit_eq_digitChar : ∀ number < 16, digit number = Nat.digitChar number := by
  decide

/-- The fewest digits of a number, by its last digit. -/
inductive Spells : Nat → List Char → Prop
  | single {digit : Nat} (small : digit < 16) : Spells digit [Nat.digitChar digit]
  | concat {number digit : Nat} {digits : List Char} (positive : 0 < number)
      (spelled : Spells number digits) (small : digit < 16) :
      Spells (number * 16 + digit) (digits ++ [Nat.digitChar digit])

theorem spells_toDigits (number : Nat) : Spells number (Nat.toDigits 16 number) := by
  induction number using Nat.strongRecOn with
  | ind number ih =>
      by_cases small : number < 16
      · rw [Nat.toDigits_of_lt_base small]
        exact .single small
      · have long : 16 ≤ number := Nat.le_of_not_lt small
        have shorter : number / 16 < number := Nat.div_lt_self (by omega) (by decide)
        have spelled := Spells.concat (Nat.div_pos long (by decide)) (ih _ shorter)
          (Nat.mod_lt number (by decide))
        rwa [Nat.div_add_mod', ← Nat.toDigits_of_base_le (by decide) long] at spelled

theorem toNat?_concat (digits : List Char) (last : Char) :
    toNat? (digits ++ [last]) =
      (toNat? digits).bind fun total => (value? last).map (total * 16 + ·) := by
  rw [toNat?, List.foldlM_append]
  simp only [List.foldlM_cons, List.foldlM_nil, bind_pure]
  rfl

/-- Digits as they are written. -/
def IsDigits (text : List Char) : Prop :=
  ∀ char ∈ text, ∃ digit < 16, char = Nat.digitChar digit

namespace Spells

variable {number : Nat} {digits : List Char}

theorem toNat? (spelled : Spells number digits) : Hex.toNat? digits = some number := by
  induction spelled with
  | single small => simp [Hex.toNat?, value?_digitChar _ small]
  | concat positive spelled small ih =>
      rw [toNat?_concat, ih, value?_digitChar _ small]
      rfl

theorem isDigits (spelled : Spells number digits) : IsDigits digits := by
  induction spelled with
  | single small =>
      intro char member
      exact ⟨_, small, List.mem_singleton.mp member⟩
  | concat positive spelled small ih =>
      intro char member
      cases List.mem_append.mp member with
      | inl earlier => exact ih char earlier
      | inr last => exact ⟨_, small, List.mem_singleton.mp last⟩

/-- No number but zero begins with a zero. -/
theorem ne_zero_cons (spelled : Spells number digits) (positive : 0 < number)
    (rest : List Char) : digits ≠ '0' :: rest := by
  induction spelled generalizing rest with
  | single small =>
      intro zero
      rw [List.cons.injEq, Nat.digitChar_eq_zero] at zero
      exact Nat.ne_of_gt positive zero.1
  | @concat number digit digits shorter spelled small ih =>
      intro zero
      cases digits with
      | nil => cases spelled.toNat?; exact Nat.lt_irrefl 0 shorter
      | cons first others =>
          rw [List.cons_append, List.cons.injEq] at zero
          exact ih shorter others (by rw [zero.1])

end Spells

theorem quantity?_toDigits {width number : Nat}
    (short : (Nat.toDigits 16 number).length ≤ width) :
    quantity? width ('0' :: 'x' :: Nat.toDigits 16 number) = some number := by
  have spelled := spells_toDigits number
  cases written : Nat.toDigits 16 number with
  | nil => exact absurd written Nat.toDigits_ne_nil
  | cons first rest =>
      have leading : ¬ (first = '0' ∧ rest ≠ []) := by
        rintro ⟨rfl, more⟩
        rcases Nat.eq_zero_or_pos number with rfl | positive
        · cases written
          exact more rfl
        · exact spelled.ne_zero_cons positive rest written
      rw [written] at spelled short
      rw [List.length_cons] at short
      simp only [quantity?, dropPrefix?, List.isEmpty_cons, Bool.false_eq_true, if_false]
      rw [if_neg leading, if_neg (Nat.not_lt.mpr short), spelled.toNat?]

theorem toNat?_replicate_append (count : Nat) (digits : List Char) :
    toNat? (List.replicate count '0' ++ digits) = toNat? digits := by
  induction count with
  | zero => rfl
  | succ count ih => exact ih

theorem toList_padded (width number : Nat) :
    (padded width number).toList =
      List.replicate (width - (Nat.toDigits 16 number).length) '0' ++ Nat.toDigits 16 number :=
  String.toList_ofList

theorem isDigits_padded (width number : Nat) : IsDigits (padded width number).toList := by
  intro char member
  rw [toList_padded] at member
  cases List.mem_append.mp member with
  | inl zero => exact ⟨0, by decide, List.eq_of_mem_replicate zero⟩
  | inr digit => exact (spells_toDigits number).isDigits char digit

theorem fixed?_padded {width number : Nat}
    (short : (Nat.toDigits 16 number).length ≤ width) :
    fixed? width ('0' :: 'x' :: (padded width number).toList) = some number := by
  have length : (padded width number).toList.length = width := by
    rw [toList_padded, List.length_append, List.length_replicate, Nat.sub_add_cancel short]
  simp only [fixed?, dropPrefix?]
  rw [if_pos length, toList_padded, toNat?_replicate_append, (spells_toDigits number).toNat?]

theorem div_lt_sixteen (byte : UInt8) : byte.toNat / 16 < 16 :=
  Nat.div_lt_of_lt_mul byte.toNat_lt

theorem isDigits_flatMap_ofByte (bytes : List UInt8) : IsDigits (bytes.flatMap ofByte) := by
  intro char member
  obtain ⟨byte, -, digit⟩ := List.mem_flatMap.mp member
  have low : byte.toNat % 16 < 16 := Nat.mod_lt _ (by decide)
  rw [ofByte, digit_eq_digitChar _ (div_lt_sixteen byte), digit_eq_digitChar _ low] at digit
  simp only [List.mem_cons, List.not_mem_nil, or_false] at digit
  cases digit with
  | inl upper => exact ⟨_, div_lt_sixteen byte, upper⟩
  | inr lower => exact ⟨_, low, lower⟩

theorem toBytes?_flatMap_ofByte (bytes : List UInt8) :
    toBytes? (bytes.flatMap ofByte) = some bytes := by
  induction bytes with
  | nil => rfl
  | cons byte rest ih =>
      have low : byte.toNat % 16 < 16 := Nat.mod_lt _ (by decide)
      rw [List.flatMap_cons, ofByte, digit_eq_digitChar _ (div_lt_sixteen byte),
        digit_eq_digitChar _ low]
      simp only [List.cons_append, List.nil_append, toBytes?, ih, Option.bind_eq_bind,
        value?_digitChar _ (div_lt_sixteen byte), value?_digitChar _ low, Option.bind_some,
        Nat.div_add_mod, UInt8.ofNat_toNat]
      rfl

theorem byteString?_flatMap_ofByte (bytes : Bytes) :
    byteString? ('0' :: 'x' :: bytes.toList.flatMap ofByte) = some bytes := by
  simp only [byteString?, dropPrefix?, List.isEmpty_cons, Bool.false_eq_true, if_false]
  rw [Option.bind_some, toBytes?_flatMap_ofByte]
  rfl

theorem length_uint64_le (number : UInt64) : (Nat.toDigits 16 number.toNat).length ≤ 16 :=
  (Nat.length_toDigits_le_iff (by decide) (by decide)).mpr number.toNat_lt

theorem length_word_le (word : Word) : (Nat.toDigits 16 word.toNat).length ≤ 64 :=
  (Nat.length_toDigits_le_iff (by decide) (by decide)).mpr word.isLt

theorem length_address_le (address : Address) :
    (Nat.toDigits 16 address.toNat).length ≤ 40 :=
  (Nat.length_toDigits_le_iff (by decide) (by decide)).mpr address.isLt

end Hex

namespace Json

@[simp] theorem toUInt64?_quantity (number : UInt64) :
    (quantity number.toNat).toUInt64? = some number := by
  rw [quantity, toUInt64?, Hex.quantity?_toDigits (Hex.length_uint64_le number), Option.map_some,
    UInt64.ofNat_toNat]

@[simp] theorem toWord?_quantity (word : Word) : (quantity word.toNat).toWord? = some word := by
  rw [quantity, toWord?, Hex.quantity?_toDigits (Hex.length_word_le word), Option.map_some,
    BitVec.ofNat_toNat, BitVec.setWidth_eq]

@[simp] theorem toOption?_quantity (word : Word) :
    toOption? toWord? (quantity word.toNat) = some (some word) := by
  rw [toOption?, toWord?_quantity]
  · rfl
  · nofun

@[simp] theorem toBytes?_bytes (data : Bytes) : (bytes data).toBytes? = some data :=
  Hex.byteString?_flatMap_ofByte data

@[simp] theorem toHash?_fixed (word : Word) : (fixed 64 word.toNat).toHash? = some word := by
  rw [fixed, toHash?, Hex.fixed?_padded (Hex.length_word_le word), Option.map_some,
    BitVec.ofNat_toNat, BitVec.setWidth_eq]

@[simp] theorem toAddress?_fixed (address : Address) :
    (fixed 40 address.toNat).toAddress? = some address := by
  rw [fixed, toAddress?, Hex.fixed?_padded (Hex.length_address_le address), Option.map_some,
    BitVec.ofNat_toNat, BitVec.setWidth_eq]

end Json

end EvmAtlas
