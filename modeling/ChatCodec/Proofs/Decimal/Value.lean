import Mathlib.Data.List.Induction
import ChatCodec.Proofs.Decimal.Grammar
import ChatCodec.Schema.Shape
import ChatCodec.Streaming.Scalar

/-!
# The value of an integer literal

An integer of the number grammar has a value in the mathematical sense, digit by digit and
without a bound (`Decimal.intValue`).  Reading under the bounds of a 64-bit word gives this value
where it is within the bounds, and nothing otherwise (`Decimal.readNatural?_eq`,
`Decimal.readInteger?_eq`).  A fold that stops as soon as a word overflows gives the same as one
that goes on, because further digits never make a number less (`Decimal.le_valueFrom`).

An integer is the only word of its value, apart from a negative zero
(`Decimal.ofInt_intValue`): leading zeros are not in the grammar, and the digits of the value are
those of the word, from the last one on.
-/

namespace ChatCodec

set_option autoImplicit false

open Json (IsDigits IsWhole IsInteger)

namespace Decimal

/-- The value of digits that stand behind a number. -/
def valueFrom (start : Nat) (digits : Bytes) : Nat :=
  digits.foldl (fun number byte => number * 10 + (byte.toNat - 0x30)) start

/-- The value of digits. -/
def value (digits : Bytes) : Nat := valueFrom 0 digits

/-- The value of digits, perhaps behind a minus. -/
def intValue : Bytes → Int
  | [] => 0
  | byte :: rest => if byte = Ascii.minus then -(value rest : Int) else (value (byte :: rest) : Int)

/-- The word `-0`, which is an integer of the grammar, but is not printed. -/
abbrev negativeZero : Bytes := [Ascii.minus, Ascii.zero]

/-! ## Digits -/

theorem value_nil : value [] = 0 := rfl

theorem value_concat (digits : Bytes) (byte : UInt8) :
    value (digits ++ [byte]) = value digits * 10 + (byte.toNat - 0x30) := by
  rw [value, valueFrom, List.foldl_append]
  rfl

/-- Further digits never make a number less. -/
theorem le_valueFrom (start : Nat) (digits : Bytes) : start ≤ valueFrom start digits := by
  induction digits generalizing start with
  | nil => exact Nat.le_refl start
  | cons byte rest ih =>
      have further := ih (start * 10 + (byte.toNat - 0x30))
      rw [valueFrom] at further ⊢
      rw [List.foldl_cons]
      omega

/-- **Digits have the value that they are read as**, as far as it fits a word. -/
theorem magnitudeFrom?_eq {digits : Bytes} (all : ∀ byte ∈ digits, Ascii.isDigit byte = true) :
    ∀ {start : Nat}, start < wordSize → magnitudeFrom? start digits =
      if valueFrom start digits < wordSize then some (valueFrom start digits) else none := by
  induction digits with
  | nil =>
      intro start fits
      exact (if_pos fits).symm
  | cons byte rest ih =>
      intro start _
      obtain ⟨digit, others⟩ := List.forall_mem_cons.mp all
      have step : valueFrom start (byte :: rest) =
          valueFrom (start * 10 + (byte.toNat - 0x30)) rest := rfl
      rw [magnitudeFrom?, if_pos digit, step]
      simp only
      by_cases fits : start * 10 + (byte.toNat - 0x30) < wordSize
      · rw [if_pos fits, ih others fits]
      · have further := le_valueFrom (start * 10 + (byte.toNat - 0x30)) rest
        rw [if_neg fits, if_neg (by omega)]

theorem magnitude?_eq {digits : Bytes} (isDigits : IsDigits digits) :
    magnitude? digits = if value digits < wordSize then some (value digits) else none := by
  obtain ⟨first, rest, rfl⟩ := List.exists_cons_of_ne_nil isDigits.1
  exact magnitudeFrom?_eq isDigits.2 (by decide)

/-- The digits of a number have the number as their value. -/
theorem value_ofNat (number : Nat) : value (ofNat number) = number := by
  induction number using Nat.strongRecOn with
  | ind number ih =>
      rw [ofNat]
      by_cases single : number < 10
      · rw [if_pos single]
        have only := value_concat [] (digit number)
        rw [List.nil_append, toNat_digit single] at only
        rw [only, value_nil]
        omega
      · rw [if_neg single, value_concat, ih (number / 10) (by omega),
          toNat_digit (Nat.mod_lt _ (by decide))]
        omega

theorem ofNat_zero : ofNat 0 = [Ascii.zero] := by
  rw [ofNat, if_pos (by decide)]
  rfl

/-- A digit is that of its value. -/
theorem exists_digit {byte : UInt8} (isDigit : Ascii.isDigit byte = true) :
    ∃ value, value < 10 ∧ byte = digit value := by
  simp only [Ascii.isDigit, Ascii.zero, Ascii.nine, Bool.and_eq_true, decide_eq_true_eq,
    UInt8.le_iff_toNat_le, UInt8.reduceToNat] at isDigit
  refine ⟨byte.toNat - 0x30, by omega, UInt8.toNat_inj.mp ?_⟩
  rw [toNat_digit (by omega)]
  omega

/-- Without its last digit a whole part of several digits is one still, and does not begin with a
zero. -/
theorem isWhole_of_concat {front : Bytes} {last : UInt8} (isWhole : IsWhole (front ++ [last]))
    (several : front ≠ []) : IsWhole front ∧ front.head? ≠ some Ascii.zero := by
  obtain ⟨⟨-, all⟩, zeroAlone⟩ := isWhole
  have noZero : front.head? ≠ some Ascii.zero := by
    intro begins
    obtain ⟨first, others, rfl⟩ := List.exists_cons_of_ne_nil several
    exact absurd (List.cons.inj (zeroAlone begins)).2
      (List.append_ne_nil_of_right_ne_nil others (List.cons_ne_nil last []))
  refine ⟨⟨⟨several, fun byte isIn => ?_⟩, fun begins => absurd begins noZero⟩, noZero⟩
  exact all byte (List.mem_append_left [last] isIn)

/-- **A whole part is the digits of its value.** -/
theorem ofNat_value {digits : Bytes} (isWhole : IsWhole digits) :
    ofNat (value digits) = digits := by
  -- The last digit comes off, as printing puts it on last.
  induction digits using List.reverseRecOn with
  | nil => exact absurd rfl isWhole.1.1
  | append_singleton front last ih =>
      have isDigit := isWhole.1.2 last (List.mem_append_right front List.mem_cons_self)
      obtain ⟨small, few, rfl⟩ := exists_digit isDigit
      have whole : value (front ++ [digit small]) = value front * 10 + small := by
        rw [value_concat, toNat_digit few]
        omega
      by_cases single : front = []
      · subst single
        rw [whole, value_nil, Nat.zero_mul, Nat.zero_add, ofNat, if_pos few, List.nil_append]
      · obtain ⟨isFront, noZero⟩ := isWhole_of_concat isWhole single
        have again := ih isFront
        have positive : value front ≠ 0 := by
          intro zero
          rw [zero] at again
          rw [← again, ofNat_zero] at noZero
          exact noZero rfl
        have others : (value front * 10 + small) / 10 = value front := by omega
        have last : (value front * 10 + small) % 10 = small := by omega
        rw [whole, ofNat, if_neg (by omega), others, last, again]

/-! ## Integers -/

theorem intValue_of_isDigits {digits : Bytes} (isDigits : IsDigits digits) :
    intValue digits = value digits := by
  obtain ⟨first, rest, rfl⟩ := List.exists_cons_of_ne_nil isDigits.1
  rw [intValue, if_neg (ne_minus_of_isDigit (isDigits.2 first List.mem_cons_self))]

theorem intValue_minus (digits : Bytes) :
    intValue (Ascii.minus :: digits) = -(value digits : Int) := by
  rw [intValue, if_pos rfl]

/-- A printed integer is an integer of the grammar. -/
theorem isInteger_ofInt (number : Int) : IsInteger (ofInt number) := by
  rw [ofInt]
  split
  · exact .parts (.inr rfl) (Json.isWhole_ofNat _)
  · exact .parts (.inl rfl) (Json.isWhole_ofNat _)

/-- A printed integer has the integer as its value. -/
theorem intValue_ofInt (number : Int) : intValue (ofInt number) = number := by
  rw [ofInt]
  by_cases negative : number < 0
  · rw [if_pos negative, intValue_minus, value_ofNat]
    omega
  · rw [if_neg negative, intValue_of_isDigits (Json.isWhole_ofNat _).1, value_ofNat]
    omega

/-- A negative zero is not printed. -/
theorem ofInt_ne_negativeZero (number : Int) : ofInt number ≠ negativeZero := by
  intro same
  have zero := intValue_ofInt number
  rw [same] at zero
  obtain rfl : (0 : Int) = number := zero
  rw [ofInt, if_neg (by decide), Int.natAbs_zero, ofNat_zero] at same
  cases same

/-- **An integer other than negative zero is the only one of its value.** -/
theorem ofInt_intValue {word : Bytes} (isInteger : IsInteger word) (other : word ≠ negativeZero) :
    ofInt (intValue word) = word := by
  obtain @⟨minus, whole, isMinus, isWhole⟩ := isInteger
  have again := ofNat_value isWhole
  rcases isMinus with rfl | rfl
  · rw [List.nil_append, intValue_of_isDigits isWhole.1, ofInt_natCast, again]
  · rw [List.singleton_append] at other ⊢
    have positive : value whole ≠ 0 := by
      intro zero
      rw [zero, ofNat_zero] at again
      rw [← again] at other
      exact other rfl
    rw [intValue_minus, ofInt, if_pos (by omega), Int.natAbs_neg, Int.natAbs_natCast, again]

/-! ## Reading -/

/-- **An unsigned word is read exactly within its bounds.** -/
theorem readNatural?_eq {word : Bytes} (isInteger : IsInteger word) :
    readNatural? word =
      if 0 ≤ intValue word ∧ intValue word < wordSize then some (intValue word).toNat else none := by
  obtain @⟨minus, whole, isMinus, isWhole⟩ := isInteger
  have read := magnitude?_eq isWhole.1
  rcases isMinus with rfl | rfl
  · obtain ⟨first, rest, rfl⟩ := List.exists_cons_of_ne_nil isWhole.1.1
    rw [List.nil_append, intValue_of_isDigits isWhole.1, readNatural?,
      if_neg (ne_minus_of_isDigit (isWhole.1.2 first List.mem_cons_self)), read]
    split <;> split <;> first | rfl | omega
  · rw [List.singleton_append, readNatural?, if_pos rfl, read, intValue_minus]
    by_cases zero : value whole = 0
    · rw [zero]
      rfl
    · have negative : ¬ (0 ≤ -(value whole : Int) ∧ -(value whole : Int) < wordSize) := by omega
      rw [if_neg negative]
      split
      · rw [Option.filter_some, if_neg (by simpa using zero)]
      · rfl

/-- **A signed word is read exactly within its bounds.** -/
theorem readInteger?_eq {word : Bytes} (isInteger : IsInteger word) :
    readInteger? word =
      if -(signedLimit : Int) ≤ intValue word ∧ intValue word < signedLimit then
        some (intValue word)
      else none := by
  have words : 0 < signedLimit ∧ signedLimit < wordSize := by decide
  obtain @⟨minus, whole, isMinus, isWhole⟩ := isInteger
  have read := magnitude?_eq isWhole.1
  rcases isMinus with rfl | rfl
  · obtain ⟨first, rest, rfl⟩ := List.exists_cons_of_ne_nil isWhole.1.1
    rw [List.nil_append, intValue_of_isDigits isWhole.1, readInteger?,
      if_neg (ne_minus_of_isDigit (isWhole.1.2 first List.mem_cons_self)), read]
    by_cases fits : value (first :: rest) < wordSize
    · rw [if_pos fits, Option.bind_some]
      by_cases small : value (first :: rest) < signedLimit
      · rw [if_pos small, if_pos ⟨by omega, by omega⟩]
      · rw [if_neg small, if_neg (by omega)]
    · rw [if_neg fits, Option.bind_none, if_neg (by omega)]
  · rw [List.singleton_append, readInteger?, if_pos rfl, read, intValue_minus]
    by_cases fits : value whole < wordSize
    · rw [if_pos fits, Option.bind_some]
      by_cases small : value whole ≤ signedLimit
      · rw [if_pos small, if_pos ⟨by omega, by omega⟩]
      · rw [if_neg small, if_neg (by omega)]
    · rw [if_neg fits, Option.bind_none, if_neg (by omega)]

/-! ## Integers of a given type -/

/-- **An integer is read exactly within the range of its type.** -/
theorem read?_eq_ofInt? (width : Width) {word : Bytes} (isInteger : IsInteger word) :
    width.read? word = Sized.ofInt? width (intValue word) := by
  have greatest := width.high_lt
  rw [Width.read?]
  by_cases isSigned : width.isSigned = true
  · have within := width.isSigned_within isSigned
    rw [if_pos isSigned, readInteger?_eq isInteger]
    by_cases fits : -(signedLimit : Int) ≤ intValue word ∧ intValue word < signedLimit
    · rw [if_pos fits, Option.bind_some]
    · rw [if_neg fits, Option.bind_none, Sized.ofInt?, dif_neg (by omega)]
  · have zero := width.low_of_not_isSigned isSigned
    rw [if_neg isSigned, readNatural?_eq isInteger]
    by_cases fits : 0 ≤ intValue word ∧ intValue word < wordSize
    · rw [if_pos fits, Option.bind_some, Int.toNat_of_nonneg fits.1]
    · rw [if_neg fits, Option.bind_none, Sized.ofInt?, dif_neg (by omega)]

end Decimal

end ChatCodec
