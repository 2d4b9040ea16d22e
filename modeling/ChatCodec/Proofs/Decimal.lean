import ChatCodec.Decimal

/-!
# Decimal integers are read back

The digits of a number are digits, the first of them is zero only for zero itself, and
reading them gives the number again, as far as it fits a word
(`Decimal.readNatural?_ofNat`, `Decimal.readInteger?_ofInt`).
-/

namespace ChatCodec

set_option autoImplicit false

namespace Decimal

/-! ## Digits -/

theorem toNat_digit {value : Nat} (small : value < 10) : (digit value).toNat = 0x30 + value := by
  rw [digit, UInt8.toNat_ofNat_of_lt' (by simp only [UInt8.size]; omega)]

theorem isDigit_digit {value : Nat} (small : value < 10) : Ascii.isDigit (digit value) = true := by
  have range := toNat_digit small
  simp only [Ascii.isDigit, Ascii.zero, Ascii.nine, Bool.and_eq_true, decide_eq_true_eq,
    UInt8.le_iff_toNat_le, UInt8.reduceToNat]
  omega

/-- All bytes of a number are digits. -/
theorem isDigit_of_mem_ofNat {number : Nat} : ∀ byte ∈ ofNat number, Ascii.isDigit byte = true := by
  induction number using Nat.strongRecOn with
  | ind number ih =>
      rw [ofNat]
      by_cases single : number < 10
      · rw [if_pos single]
        intro byte isIn
        rw [List.mem_singleton] at isIn
        rw [isIn]
        exact isDigit_digit single
      · rw [if_neg single]
        intro byte isIn
        rw [List.mem_append, List.mem_singleton] at isIn
        rcases isIn with front | rfl
        · exact ih (number / 10) (by omega) byte front
        · exact isDigit_digit (Nat.mod_lt _ (by decide))

theorem ofNat_ne_nil (number : Nat) : ofNat number ≠ [] := by
  rw [ofNat]
  split
  · exact List.cons_ne_nil _ _
  · exact List.append_ne_nil_of_right_ne_nil _ (List.cons_ne_nil _ _)

/-- A number begins with a digit. -/
theorem ofNat_eq_cons (number : Nat) :
    ∃ first rest, ofNat number = first :: rest ∧ Ascii.isDigit first = true := by
  obtain ⟨first, rest, same⟩ := List.exists_cons_of_ne_nil (ofNat_ne_nil number)
  refine ⟨first, rest, same, isDigit_of_mem_ofNat first (?_ : first ∈ ofNat number)⟩
  rw [same]
  exact List.mem_cons_self

/-- Only zero begins with a zero, and nothing follows it. -/
theorem eq_nil_of_ofNat_eq_zero_cons {number : Nat} {rest : Bytes}
    (same : ofNat number = Ascii.zero :: rest) : rest = [] := by
  induction number using Nat.strongRecOn generalizing rest with
  | ind number ih =>
      rw [ofNat] at same
      by_cases single : number < 10
      · rw [if_pos single] at same
        exact (List.cons.inj same).2.symm
      · rw [if_neg single] at same
        obtain ⟨first, others, front, -⟩ := ofNat_eq_cons (number / 10)
        rw [front, List.cons_append] at same
        obtain ⟨rfl, -⟩ := List.cons.inj same
        have alone := ih (number / 10) (by omega) front
        have small : number / 10 < 10 := by
          by_cases many : number / 10 < 10
          · exact many
          · rw [ofNat, if_neg many] at front
            have length := congrArg List.length front
            have positive := List.length_pos_iff.mpr (ofNat_ne_nil (number / 10 / 10))
            rw [alone, List.length_append, List.length_singleton, List.length_singleton] at length
            omega
        rw [ofNat, if_pos small] at front
        have value := congrArg UInt8.toNat (List.cons.inj front).1
        rw [toNat_digit small] at value
        simp only [Ascii.zero, UInt8.reduceToNat] at value
        omega

/-! ## Reading -/

/-- The value of digits behind which one more stands. -/
theorem magnitudeFrom?_concat (bytes : Bytes) (byte : UInt8) (start : Nat) :
    magnitudeFrom? start (bytes ++ [byte]) =
      (magnitudeFrom? start bytes).bind fun number => magnitudeFrom? number [byte] := by
  induction bytes generalizing start with
  | nil => rfl
  | cons head rest ih =>
      rw [List.cons_append, magnitudeFrom?, magnitudeFrom?]
      split
      · simp only
        split
        · exact ih _
        · rfl
      · rfl

theorem magnitudeFrom?_digit {number value : Nat} (small : value < 10)
    (fits : number * 10 + value < wordSize) :
    magnitudeFrom? number [digit value] = some (number * 10 + value) := by
  have same : (digit value).toNat - 0x30 = value := by
    rw [toNat_digit small]
    omega
  rw [magnitudeFrom?, if_pos (isDigit_digit small), same]
  simp only [if_pos fits, magnitudeFrom?]

/-- **The digits of a number that fits a word have the number as their value.** -/
theorem magnitude?_ofNat {number : Nat} (fits : number < wordSize) :
    magnitude? (ofNat number) = some number := by
  have fromZero : magnitudeFrom? 0 (ofNat number) = some number := by
    induction number using Nat.strongRecOn with
    | ind number ih =>
        rw [ofNat]
        by_cases single : number < 10
        · rw [if_pos single, magnitudeFrom?_digit single (by omega), Nat.zero_mul, Nat.zero_add]
        · have whole : number / 10 * 10 + number % 10 = number := by omega
          rw [if_neg single, magnitudeFrom?_concat, ih (number / 10) (by omega) (by omega),
            Option.bind_some, magnitudeFrom?_digit (Nat.mod_lt _ (by decide)) (by omega), whole]
  obtain ⟨first, rest, same, -⟩ := ofNat_eq_cons number
  rw [same] at fromZero ⊢
  exact fromZero

/-- Only digits have a value, and at least one. -/
theorem exists_cons_of_magnitude? {bytes : Bytes} {number : Nat}
    (read : magnitude? bytes = some number) :
    ∃ first rest, bytes = first :: rest ∧ Ascii.isDigit first = true := by
  cases bytes with
  | nil => cases read
  | cons first rest =>
      refine ⟨first, rest, rfl, ?_⟩
      rw [magnitude?, magnitudeFrom?] at read
      by_cases digit : Ascii.isDigit first = true
      · exact digit
      · rw [if_neg digit] at read
        cases read

theorem ne_minus_of_isDigit {byte : UInt8} (digit : Ascii.isDigit byte = true) :
    byte ≠ Ascii.minus := by
  rintro rfl
  exact absurd digit (by decide)

/-- **A number that fits a word is read back.** -/
theorem readNatural?_ofNat {number : Nat} (fits : number < wordSize) :
    readNatural? (ofNat number) = some number := by
  have value := magnitude?_ofNat fits
  obtain ⟨first, rest, same, digit⟩ := ofNat_eq_cons number
  rw [same] at value ⊢
  rw [readNatural?, if_neg (ne_minus_of_isDigit digit), value]

/-- **An integer that fits a signed word is read back.** -/
theorem readInteger?_ofInt {number : Int} (low : -(signedLimit : Int) ≤ number)
    (high : number < signedLimit) : readInteger? (ofInt number) = some number := by
  have words : signedLimit < wordSize := by decide
  have value := magnitude?_ofNat (show number.natAbs < wordSize by omega)
  rw [ofInt]
  by_cases negative : number < 0
  · rw [if_pos negative, readInteger?, if_pos rfl, value, Option.bind_some, if_pos (by omega),
      show -(number.natAbs : Int) = number by omega]
  · rw [if_neg negative]
    obtain ⟨first, rest, same, digit⟩ := ofNat_eq_cons number.natAbs
    rw [same] at value ⊢
    rw [readInteger?, if_neg (ne_minus_of_isDigit digit), value, Option.bind_some,
      if_pos (by omega), show (number.natAbs : Int) = number by omega]

theorem ofInt_natCast (number : Nat) : ofInt number = ofNat number := by
  rw [ofInt, if_neg (by omega), Int.natAbs_natCast]

end Decimal

end ChatCodec
