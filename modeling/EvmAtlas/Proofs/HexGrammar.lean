import EvmAtlas.Proofs.Hexadecimal
import EvmAtlas.Text.HexInput

/-!
# Which inputs are hexadecimal

An input is a byte string. `Deletes` says what is left of one without its white space: the bytes of
every blank are gone, wherever they stand, and all others stay, also those that are no text. Of a
text it leaves the text without its blanks, since no bytes of another character are those of a
blank. What is accepted is `IsHexInput`: a prefix of each kind at most, and digits that spell bytes
in pairs.
-/

namespace EvmAtlas

namespace HexInput

/-! ## White space -/

def encode (text : List Char) : List UInt8 :=
  text.flatMap String.utf8EncodeChar

/-- The bytes that are left when those of every blank are deleted. -/
inductive Deletes : List UInt8 → List UInt8 → Prop where
  | nil : Deletes [] []
  | blank {char : Char} {rest left : List UInt8} (blank : isBlank char = true)
      (after : Deletes rest left) : Deletes (String.utf8EncodeChar char ++ rest) left
  | keep {byte : UInt8} {rest left : List UInt8}
      (shown : ∀ char, isBlank char = true → ¬ String.utf8EncodeChar char <+: byte :: rest)
      (after : Deletes rest left) : Deletes (byte :: rest) (byte :: left)

theorem leading?_append (char : Char) (rest : List UInt8) :
    leading? (String.utf8EncodeChar char ++ rest) = some char := by
  have short : (String.utf8EncodeChar char).length ≤ 4 := by
    rw [String.length_utf8EncodeChar]
    exact char.utf8Size_le_four
  rw [leading?, List.take_append, List.take_of_length_le short, List.toByteArray_append]
  exact ByteArray.utf8DecodeChar?_utf8EncodeChar_append

theorem prefix_of_leading? {bytes : List UInt8} {char : Char}
    (leads : leading? bytes = some char) : String.utf8EncodeChar char <+: bytes := by
  have read := String.toByteArray_utf8EncodeChar_of_utf8DecodeChar?_eq_some leads
  have same := congrArg (fun bytes : ByteArray => bytes.data.toList) read
  simp only [List.toList_data_toByteArray, ByteArray.data_extract, Array.toList_extract,
    List.extract_eq_take_drop, Nat.sub_zero, List.drop_zero] at same
  rw [same]
  exact (List.take_prefix _ _).trans (List.take_prefix 4 bytes)

theorem joinFrom_eq_drop (blank : Nat) (bytes : List UInt8) :
    joinFrom blank bytes = joinFrom 0 (bytes.drop blank) := by
  induction blank generalizing bytes with
  | zero => rfl
  | succ blank ih =>
      cases bytes with
      | nil => rfl
      | cons byte rest => exact ih rest

theorem joinFrom_blank {char : Char} (blank : isBlank char = true) (rest : List UInt8) :
    joinFrom 0 (String.utf8EncodeChar char ++ rest) = joinFrom 0 rest := by
  have leads := leading?_append char rest
  have size := String.length_utf8EncodeChar char
  cases encoded : String.utf8EncodeChar char with
  | nil => exact absurd encoded String.utf8EncodeChar_ne_nil
  | cons byte more =>
      rw [encoded] at leads size
      rw [List.cons_append] at leads ⊢
      simp only [joinFrom, leads, Option.filter_some, blank, if_true]
      rw [joinFrom_eq_drop, ← size, List.length_cons, Nat.add_sub_cancel, List.drop_left]

theorem joinFrom_keep {byte : UInt8} {rest : List UInt8}
    (shown : ∀ char, isBlank char = true → ¬ String.utf8EncodeChar char <+: byte :: rest) :
    joinFrom 0 (byte :: rest) = byte :: joinFrom 0 rest := by
  have none : (leading? (byte :: rest)).filter isBlank = none := by
    rw [Option.filter_eq_none_iff]
    intro char leads blank
    exact shown char blank (prefix_of_leading? leads)
  simp only [joinFrom, none]

theorem Deletes.joinFrom_eq {bytes left : List UInt8} (deletes : Deletes bytes left) :
    joinFrom 0 bytes = left := by
  induction deletes with
  | nil => rfl
  | blank blank _ ih => rw [joinFrom_blank blank, ih]
  | keep shown _ ih => rw [joinFrom_keep shown, ih]

theorem deletes_joinFrom (bytes : List UInt8) : Deletes bytes (joinFrom 0 bytes) := by
  induction length_eq : bytes.length using Nat.strongRecOn generalizing bytes with
  | ind length ih =>
      cases bytes with
      | nil => exact .nil
      | cons byte rest =>
          by_cases begins : ∃ char, isBlank char = true ∧
              String.utf8EncodeChar char <+: byte :: rest
          · obtain ⟨char, blank, after, parts⟩ := begins
            have shorter : after.length < length := by
              have size := congrArg List.length parts
              rw [List.length_append, String.length_utf8EncodeChar, length_eq] at size
              have positive := char.utf8Size_pos
              omega
            rw [← parts, joinFrom_blank blank]
            exact .blank blank (ih _ shorter after rfl)
          · have shown : ∀ char, isBlank char = true →
                ¬ String.utf8EncodeChar char <+: byte :: rest := by
              intro char blank here
              exact begins ⟨char, blank, here⟩
            rw [joinFrom_keep shown]
            exact .keep shown (ih _ (length_eq ▸ Nat.lt_succ_self _) rest rfl)

/-- Bytes that begin no character stay. -/
theorem Deletes.append {rest left : List UInt8} (deletes : Deletes rest left)
    (bytes : List UInt8) (inner : ∀ byte ∈ bytes, ¬ byte.IsUTF8FirstByte) :
    Deletes (bytes ++ rest) (bytes ++ left) := by
  induction bytes with
  | nil => exact deletes
  | cons byte bytes ih =>
      obtain ⟨noFirst, inner⟩ := List.forall_mem_cons.mp inner
      refine .keep ?_ (ih inner)
      rintro char - ⟨after, same⟩
      cases encoded : String.utf8EncodeChar char with
      | nil => exact absurd encoded String.utf8EncodeChar_ne_nil
      | cons first more =>
          have begins := @UInt8.isUTF8FirstByte_getElem_zero_utf8EncodeChar char
          simp only [encoded, List.getElem_cons_zero] at begins
          rw [encoded] at same
          obtain ⟨rfl, -⟩ := List.cons.inj same
          exact noFirst begins

/-- A character that is no blank stays. Its other bytes begin no character, and so no blank. -/
theorem Deletes.char {char : Char} {rest left : List UInt8} (shown : isBlank char = false)
    (deletes : Deletes rest left) :
    Deletes (String.utf8EncodeChar char ++ rest) (String.utf8EncodeChar char ++ left) := by
  have leads := leading?_append char rest
  have first := @UInt8.isUTF8FirstByte_getElem_utf8EncodeChar char
  generalize String.utf8EncodeChar char = bytes at leads first
  cases bytes with
  | nil => exact deletes
  | cons byte more =>
      refine .keep ?_ (deletes.append more ?_)
      · rintro other blank ⟨after, same⟩
        have met := (congrArg leading? same.symm).trans (leading?_append other after)
        cases leads.symm.trans met
        simp [blank] at shown
      · intro byte member begins
        obtain ⟨index, inside, rfl⟩ := List.getElem_of_mem member
        have position := @first (index + 1) (Nat.succ_lt_succ inside)
        exact Nat.succ_ne_zero index (position.mp begins)

/-- What is left of a text is the text without its blanks. -/
theorem deletes_encode (text : List Char) :
    Deletes (encode text) (encode (text.filter fun char => !isBlank char)) := by
  induction text with
  | nil => exact .nil
  | cons char text ih =>
      cases blank : isBlank char with
      | true =>
          rw [List.filter_cons_of_neg (by simp [blank])]
          exact .blank blank ih
      | false =>
          rw [List.filter_cons_of_pos (by simp [blank])]
          exact ih.char blank

theorem encode_append (text others : List Char) :
    encode (text ++ others) = encode text ++ encode others :=
  List.flatMap_append

theorem encode_injective : Function.Injective encode := by
  intro text others same
  have bytes : (String.ofList text).toByteArray = (String.ofList others).toByteArray := by
    rw [String.toByteArray_ofList, String.toByteArray_ofList]
    exact congrArg List.toByteArray same
  exact String.ofList_injective (String.toByteArray_inj.mp bytes)

end HexInput

/-! ## Digits -/

namespace Hex

/-- A digit of either case and its value. -/
def IsDigit (char : Char) (value : Nat) : Prop :=
  "0123456789abcdef".toList[value]? = some char ∨ "0123456789ABCDEF".toList[value]? = some char

/-- Digits that spell bytes, two a byte. -/
inductive Pairs : List Char → List UInt8 → Prop where
  | nil : Pairs [] []
  | cons {high low : Char} {byte : UInt8} {digits : List Char} {bytes : List UInt8}
      (upper : IsDigit high (byte.toNat / 16)) (lower : IsDigit low (byte.toNat % 16))
      (rest : Pairs digits bytes) : Pairs (high :: low :: digits) (byte :: bytes)

instance (char : Char) (value : Nat) : Decidable (IsDigit char value) :=
  inferInstanceAs (Decidable (_ ∨ _))

theorem IsDigit.lt_sixteen {char : Char} {value : Nat} (digit : IsDigit char value) :
    value < 16 := by
  rcases digit with lower | upper
  · exact (List.getElem?_eq_some_iff.mp lower).1
  · exact (List.getElem?_eq_some_iff.mp upper).1

theorem toNat_lt_of_value? {char : Char} {value : Nat} (read : value? char = some value) :
    char.toNat < 103 := by
  unfold value? at read
  dsimp only at read
  split at read
  · omega
  · split at read
    · omega
    · split at read
      · omega
      · cases read

theorem value?_eq_some_iff {char : Char} {value : Nat} :
    value? char = some value ↔ IsDigit char value := by
  constructor
  · intro read
    have every : ∀ code < 103, (value? (Char.ofNat code)).all
        fun value => decide (IsDigit (Char.ofNat code) value) := by
      decide
    have here := every char.toNat (toNat_lt_of_value? read)
    rw [Char.ofNat_toNat, read] at here
    exact of_decide_eq_true here
  · intro digit
    have every : ∀ value : Fin 16,
        value? "0123456789abcdef".toList[value.val] = some value.val ∧
          value? "0123456789ABCDEF".toList[value.val] = some value.val := by
      decide
    have small := digit.lt_sixteen
    rcases digit with lower | upper
    · obtain ⟨_, rfl⟩ := List.getElem?_eq_some_iff.mp lower
      exact (every ⟨value, small⟩).1
    · obtain ⟨_, rfl⟩ := List.getElem?_eq_some_iff.mp upper
      exact (every ⟨value, small⟩).2

theorem toBytes?_eq_some_iff {digits : List Char} {bytes : List UInt8} :
    toBytes? digits = some bytes ↔ Pairs digits bytes := by
  constructor
  · intro read
    induction digits using toBytes?.induct generalizing bytes with
    | case1 =>
        cases read
        exact .nil
    | case2 => cases read
    | case3 high low rest ih =>
        simp only [toBytes?, Option.bind_eq_bind, Option.bind_eq_some_iff] at read
        obtain ⟨upper, highRead, lower, lowRead, others, restRead, same⟩ := read
        cases same
        have upperDigit := value?_eq_some_iff.mp highRead
        have lowerDigit := value?_eq_some_iff.mp lowRead
        have upperSmall := upperDigit.lt_sixteen
        have lowerSmall := lowerDigit.lt_sixteen
        have number : (UInt8.ofNat (16 * upper + lower)).toNat = 16 * upper + lower :=
          UInt8.toNat_ofNat_of_lt' (by simp only [UInt8.size]; omega)
        refine .cons ?_ ?_ (ih restRead)
        · rw [number]
          rwa [show (16 * upper + lower) / 16 = upper by omega]
        · rw [number]
          rwa [show (16 * upper + lower) % 16 = lower by omega]
  · intro pairs
    induction pairs with
    | nil => rfl
    | cons upper lower _ ih =>
        simp only [toBytes?, value?_eq_some_iff.mpr upper, value?_eq_some_iff.mpr lower, ih,
          Option.bind_eq_bind, Option.bind_some, Nat.div_add_mod, UInt8.ofNat_toNat]
        rfl

end Hex

/-! ## Prefixes and digits -/

namespace HexInput

/-- A text without white space that spells bytes: a prefix of each kind at most, and digits. -/
def IsHexInput (text : List Char) (bytes : List UInt8) : Prop :=
  ∃ first ∈ [[], ['0', 'x']], ∃ second ∈ [[], ['0', 'X']], ∃ digits,
    text = first ++ (second ++ digits) ∧ Hex.Pairs digits bytes

/-- Whether a byte is a digit. -/
def IsDigitByte (byte : UInt8) : Prop :=
  ∃ value, Hex.IsDigit (codePoint byte) value

theorem encode_codePoint {byte : UInt8} (digit : IsDigitByte byte) :
    encode [codePoint byte] = [byte] := by
  have every : ∀ number < 256, (codePoint (UInt8.ofNat number)).toNat = number ∧
      (number < 128 → encode [codePoint (UInt8.ofNat number)] = [UInt8.ofNat number]) := by
    decide +kernel
  obtain ⟨same, ascii⟩ := every byte.toNat byte.toNat_lt
  obtain ⟨value, digit⟩ := digit
  have low := Hex.toNat_lt_of_value? (Hex.value?_eq_some_iff.mpr digit)
  rw [UInt8.ofNat_toNat] at same ascii
  exact ascii (by omega)

theorem exists_isDigitByte {char : Char} {value : Nat} (digit : Hex.IsDigit char value) :
    ∃ byte, codePoint byte = char ∧ IsDigitByte byte := by
  have low := Hex.toNat_lt_of_value? (Hex.value?_eq_some_iff.mpr digit)
  have same : codePoint (UInt8.ofNat char.toNat) = char := by
    rw [codePoint, UInt8.toNat_ofNat_of_lt' (Nat.lt_trans low (by decide)), Char.ofNat_toNat]
  exact ⟨_, same, value, by rwa [same]⟩

theorem firstBad?_eq_none_iff {bytes : List UInt8} :
    firstBad? bytes = none ↔ ∀ byte ∈ bytes, IsDigitByte byte := by
  simp only [firstBad?, List.find?_eq_none, Bool.not_eq_true, Option.isNone_eq_false_iff,
    Option.isSome_iff_exists, Hex.value?_eq_some_iff, IsDigitByte]

theorem encode_map_codePoint {bytes : List UInt8} (digits : ∀ byte ∈ bytes, IsDigitByte byte) :
    encode (bytes.map codePoint) = bytes := by
  induction bytes with
  | nil => rfl
  | cons byte rest ih =>
      obtain ⟨digit, others⟩ := List.forall_mem_cons.mp digits
      rw [List.map_cons, ← List.singleton_append, encode_append, encode_codePoint digit, ih others]
      rfl

/-- An even number of digits spells bytes. -/
theorem exists_pairs : ∀ {bytes : List UInt8}, (∀ byte ∈ bytes, IsDigitByte byte) →
    bytes.length % 2 = 0 → ∃ spelled, Hex.Pairs (bytes.map codePoint) spelled
  | [], _, _ => ⟨[], .nil⟩
  | [_], _, even => by cases even
  | high :: low :: rest, digits, even => by
      obtain ⟨⟨upper, highDigit⟩, digits⟩ := List.forall_mem_cons.mp digits
      obtain ⟨⟨lower, lowDigit⟩, digits⟩ := List.forall_mem_cons.mp digits
      obtain ⟨spelled, pairs⟩ := exists_pairs digits (by simpa [Nat.add_assoc] using even)
      have read : Hex.toBytes? (codePoint high :: codePoint low :: rest.map codePoint) =
          some (UInt8.ofNat (16 * upper + lower) :: spelled) := by
        simp only [Hex.toBytes?, Hex.value?_eq_some_iff.mpr highDigit,
          Hex.value?_eq_some_iff.mpr lowDigit, Hex.toBytes?_eq_some_iff.mpr pairs]
        rfl
      exact ⟨_, Hex.toBytes?_eq_some_iff.mp read⟩

/-- Digits that spell bytes are bytes themselves, an even number of them. -/
theorem exists_map_codePoint {digits : List Char} {spelled : List UInt8}
    (pairs : Hex.Pairs digits spelled) :
    ∃ bytes : List UInt8, bytes.map codePoint = digits ∧ (∀ byte ∈ bytes, IsDigitByte byte) ∧
      bytes.length % 2 = 0 := by
  induction pairs with
  | nil => exact ⟨[], rfl, nofun, rfl⟩
  | cons upper lower _ ih =>
      obtain ⟨high, rfl, highDigit⟩ := exists_isDigitByte upper
      obtain ⟨low, rfl, lowDigit⟩ := exists_isDigitByte lower
      obtain ⟨rest, rfl, digits, even⟩ := ih
      refine ⟨high :: low :: rest, rfl, ?_, ?_⟩
      · exact List.forall_mem_cons.mpr ⟨highDigit, List.forall_mem_cons.mpr ⟨lowDigit, digits⟩⟩
      · simpa [Nat.add_assoc] using even

/-- What is read of an input depends on what is left of it. -/
theorem readBytes_eq_ok_iff_body {input data : Bytes} :
    readBytes input = .ok data ↔
      ∃ digits, body input.toList = encode digits ∧ Hex.Pairs digits data.toList := by
  unfold readBytes
  dsimp only
  constructor
  · intro read
    split at read
    · cases read
    · next even =>
        split at read
        · cases read
        · next good =>
            have digits := firstBad?_eq_none_iff.mp good
            obtain ⟨spelled, pairs⟩ := exists_pairs digits (Nat.mod_two_ne_one.mp even)
            rw [Hex.toBytes?_eq_some_iff.mpr pairs] at read
            cases read
            exact ⟨_, (encode_map_codePoint digits).symm, pairs⟩
  · rintro ⟨digits, body_eq, pairs⟩
    obtain ⟨bytes, rfl, isDigits, even⟩ := exists_map_codePoint pairs
    rw [encode_map_codePoint isDigits] at body_eq
    rw [body_eq, if_neg (by omega), firstBad?_eq_none_iff.mpr isDigits,
      Hex.toBytes?_eq_some_iff.mpr pairs]
    rfl

/-! ## Prefixes -/

theorem body_eq (input : List UInt8) :
    body input =
      dropLead (encode ['0', 'X']) (dropLead (encode ['0', 'x']) (joinFrom 0 input)) :=
  rfl

theorem exists_dropLead (lead : List Char) (bytes : List UInt8) :
    ∃ first ∈ [[], lead], bytes = encode first ++ dropLead (encode lead) bytes := by
  unfold dropLead
  split
  · next begins =>
      refine ⟨lead, by simp, ?_⟩
      exact (List.prefix_iff_eq_append.mp (List.isPrefixOf_iff_prefix.mp begins)).symm
  · exact ⟨[], by simp, rfl⟩

theorem dropLead_append (lead bytes : List UInt8) : dropLead lead (lead ++ bytes) = bytes := by
  rw [dropLead, if_pos (List.isPrefixOf_iff_prefix.mpr (List.prefix_append _ _)), List.drop_left]

theorem dropLead_of_not_prefix {lead bytes : List UInt8} (apart : ¬ lead <+: bytes) :
    dropLead lead bytes = bytes := by
  rw [dropLead, if_neg (by rwa [List.isPrefixOf_iff_prefix])]

/-- No prefix begins with digits alone. -/
theorem dropLead_digits {letter : UInt8} (noDigit : Hex.value? (codePoint letter) = none)
    {bytes : List UInt8} (digits : ∀ byte ∈ bytes, IsDigitByte byte) :
    dropLead [0x30, letter] bytes = bytes := by
  apply dropLead_of_not_prefix
  rintro ⟨after, rfl⟩
  obtain ⟨value, digit⟩ := digits letter (by simp)
  rw [← Hex.value?_eq_some_iff, noDigit] at digit
  cases digit

/-- A prefix that was there is dropped, one of each kind in this order. -/
theorem body_eq_iff {input : List UInt8} {digits : List Char}
    (isDigits : ∀ byte ∈ encode digits, IsDigitByte byte) :
    body input = encode digits ↔
      ∃ first ∈ [[], ['0', 'x']], ∃ second ∈ [[], ['0', 'X']],
        joinFrom 0 input = encode (first ++ (second ++ digits)) := by
  simp only [encode_append]
  constructor
  · intro same
    obtain ⟨first, isFirst, joined⟩ := exists_dropLead ['0', 'x'] (joinFrom 0 input)
    obtain ⟨second, isSecond, shortened⟩ :=
      exists_dropLead ['0', 'X'] (dropLead (encode ['0', 'x']) (joinFrom 0 input))
    rw [← body_eq, same] at shortened
    exact ⟨first, isFirst, second, isSecond, by rw [← shortened]; exact joined⟩
  · rintro ⟨first, isFirst, second, isSecond, joined⟩
    have shortened : dropLead (encode ['0', 'X']) (encode second ++ encode digits) =
        encode digits := by
      rcases List.mem_cons.mp isSecond with rfl | isSecond
      · exact dropLead_digits (by decide) isDigits
      · rw [List.mem_singleton.mp isSecond, dropLead_append]
    have opened : dropLead (encode ['0', 'x']) (encode first ++ (encode second ++ encode digits)) =
        encode second ++ encode digits := by
      rcases List.mem_cons.mp isFirst with rfl | isFirst
      · rcases List.mem_cons.mp isSecond with rfl | isSecond
        · exact dropLead_digits (by decide) isDigits
        · rw [List.mem_singleton.mp isSecond]
          apply dropLead_of_not_prefix
          rintro ⟨after, same⟩
          cases same
      · rw [List.mem_singleton.mp isFirst, dropLead_append]
    rw [body_eq, joined, opened, shortened]

theorem readBytes_eq_ok_iff {input data : Bytes} :
    readBytes input = .ok data ↔
      ∃ text, Deletes input.toList (encode text) ∧ IsHexInput text data.toList := by
  have isDigits {digits : List Char} (pairs : Hex.Pairs digits data.toList) :
      ∀ byte ∈ encode digits, IsDigitByte byte := by
    obtain ⟨bytes, rfl, isDigits, -⟩ := exists_map_codePoint pairs
    rwa [encode_map_codePoint isDigits]
  rw [readBytes_eq_ok_iff_body]
  constructor
  · rintro ⟨digits, same, pairs⟩
    obtain ⟨first, isFirst, second, isSecond, joined⟩ := (body_eq_iff (isDigits pairs)).mp same
    refine ⟨_, ?_, first, isFirst, second, isSecond, digits, rfl, pairs⟩
    rw [← joined]
    exact deletes_joinFrom _
  · rintro ⟨_, deletes, first, isFirst, second, isSecond, digits, rfl, pairs⟩
    refine ⟨digits, ?_, pairs⟩
    exact (body_eq_iff (isDigits pairs)).mpr ⟨first, isFirst, second, isSecond, deletes.joinFrom_eq⟩

theorem toList_toUTF8 (input : String) : Bytes.toList input.toUTF8 = encode input.toList := by
  have written : String.ofList input.toList = input := String.ofList_toList
  calc Bytes.toList input.toUTF8
    _ = Bytes.toList (String.ofList input.toList).toUTF8 := by rw [written]
    _ = encode input.toList := List.toList_data_toByteArray

/-- A text is read if it spells bytes without its blanks. -/
theorem read_eq_ok_iff {input : String} {data : Bytes} :
    read input = .ok data ↔
      IsHexInput (input.toList.filter fun char => !isBlank char) data.toList := by
  have deletes := deletes_encode input.toList
  rw [read, readBytes_eq_ok_iff, toList_toUTF8]
  constructor
  · rintro ⟨text, left, isInput⟩
    have same := encode_injective (deletes.joinFrom_eq.symm.trans left.joinFrom_eq)
    rwa [same]
  · intro isInput
    exact ⟨_, deletes, isInput⟩

/-! ## Inserted white space -/

/-- A text and one that has blanks inserted anywhere into it. -/
inductive Spaced : List Char → List Char → Prop where
  | nil : Spaced [] []
  | keep {char : Char} {text spaced : List Char} (after : Spaced text spaced) :
      Spaced (char :: text) (char :: spaced)
  | insert {char : Char} {text spaced : List Char} (blank : isBlank char = true)
      (after : Spaced text spaced) : Spaced text (char :: spaced)

theorem Spaced.filter_eq {text spaced : List Char} (inserts : Spaced text spaced)
    (shown : ∀ char ∈ text, isBlank char = false) :
    (spaced.filter fun char => !isBlank char) = text := by
  induction inserts with
  | nil => rfl
  | keep _ ih =>
      obtain ⟨first, rest⟩ := List.forall_mem_cons.mp shown
      rw [List.filter_cons_of_pos (by simp [first]), ih rest]
  | insert blank _ ih => rw [List.filter_cons_of_neg (by simp [blank]), ih shown]

theorem isBlank_of_isDigit {char : Char} {value : Nat} (digit : Hex.IsDigit char value) :
    isBlank char = false := by
  have every : ∀ code < 103, (Hex.value? (Char.ofNat code)).isSome →
      isBlank (Char.ofNat code) = false := by
    decide
  have read := Hex.value?_eq_some_iff.mpr digit
  have shown := every char.toNat (Hex.toNat_lt_of_value? read)
  rw [Char.ofNat_toNat, read] at shown
  exact shown rfl

theorem isBlank_of_pairs {digits : List Char} {bytes : List UInt8}
    (pairs : Hex.Pairs digits bytes) : ∀ char ∈ digits, isBlank char = false := by
  induction pairs with
  | nil => nofun
  | cons upper lower _ ih =>
      exact List.forall_mem_cons.mpr ⟨isBlank_of_isDigit upper,
        List.forall_mem_cons.mpr ⟨isBlank_of_isDigit lower, ih⟩⟩

end HexInput

/-- An input is read exactly if its bytes, when those of all white space are deleted, are a text
that spells bytes: one prefix of each kind at most, and then an even number of digits. Of a text the
blanks are deleted, wherever they stand. So digits that spell bytes are read as these bytes,
whatever white space is inserted into them, with a prefix or without. -/
theorem hex_input_grammar :
    (∀ input data : Bytes, HexInput.readBytes input = .ok data ↔
      ∃ text, HexInput.Deletes input.toList (HexInput.encode text) ∧
        HexInput.IsHexInput text data.toList) ∧
    (∀ (input : String) (data : Bytes), HexInput.read input = .ok data ↔
      HexInput.IsHexInput (input.toList.filter fun char => !isBlank char) data.toList) ∧
    (∀ (data : Bytes) (digits : List Char), Hex.Pairs digits data.toList →
      ∀ lead ∈ [[], ['0', 'x']], ∀ input : String,
        HexInput.Spaced (lead ++ digits) input.toList → HexInput.read input = .ok data) ∧
    ∀ data : Bytes, Hex.Pairs (Hex.ofBytes data).toList data.toList := by
  refine ⟨?_, ?_, ?_, ?_⟩
  · exact fun input data => HexInput.readBytes_eq_ok_iff
  · exact fun input data => HexInput.read_eq_ok_iff
  · intro data digits pairs lead isLead input inserts
    have leads : ∀ lead ∈ [[], ['0', 'x']], ∀ char ∈ lead, isBlank char = false := by
      simp [isBlank]
    have shown : ∀ char ∈ lead ++ digits, isBlank char = false := by
      intro char member
      rcases List.mem_append.mp member with inLead | inDigits
      · exact leads lead isLead char inLead
      · exact HexInput.isBlank_of_pairs pairs char inDigits
    rw [HexInput.read_eq_ok_iff, inserts.filter_eq shown]
    exact ⟨lead, isLead, [], by simp, digits, rfl, pairs⟩
  · intro data
    rw [Hex.ofBytes, String.toList_ofList]
    exact Hex.toBytes?_eq_some_iff.mp (Hex.toBytes?_flatMap_ofByte data.toList)

/-- Three bytes on two lines, with a blank in the prefix and one between the digits of a byte. -/
theorem blankedInput_read :
    HexInput.read "0 x60 0\u00a01\n00\n" = .ok (Bytes.ofList [0x60, 0x01, 0x00]) := by
  have written : "0 x60 0\u00a01\n00\n".toList =
      ['0', ' ', 'x', '6', '0', ' ', '0', '\u00a0', '1', '\n', '0', '0', '\n'] := by
    decide
  have pairs : Hex.Pairs ['6', '0', '0', '1', '0', '0'] [0x60, 0x01, 0x00] :=
    Hex.toBytes?_eq_some_iff.mp (by decide)
  apply hex_input_grammar.2.2.1 _ _ pairs ['0', 'x'] (by simp)
  rw [written]
  exact .keep (.insert rfl (.keep (.keep (.keep (.insert rfl (.keep (.insert rfl (.keep
    (.insert rfl (.keep (.keep (.insert rfl .nil))))))))))))

end EvmAtlas
