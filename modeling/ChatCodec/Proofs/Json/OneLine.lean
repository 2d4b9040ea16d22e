import ChatCodec.Proofs.Decimal
import ChatCodec.Proofs.Printing
import ChatCodec.Proofs.Text.Literal

/-!
# The compact form of opaque JSON is one line

The compact printer puts no white space between tokens.  Control characters in texts are
escaped, and numbers are written with digits, signs, points and the letter of an exponent.
The form of a value is therefore unbroken (`Json.Value.isUnbroken_print`): it has no control
byte at all, and in particular no line feed.
-/

namespace ChatCodec

set_option autoImplicit false

/-- Bytes of which none is a control byte. -/
def IsUnbroken (bytes : Bytes) : Prop := ∀ byte ∈ bytes, 0x20 ≤ byte.toNat

instance (bytes : Bytes) : Decidable (IsUnbroken bytes) :=
  List.decidableBAll (fun byte : UInt8 => 0x20 ≤ byte.toNat) bytes

namespace IsUnbroken

variable {first second : Bytes}

theorem nil : IsUnbroken [] := fun _ isIn => by cases isIn

theorem cons {byte : UInt8} (visible : 0x20 ≤ byte.toNat) (rest : IsUnbroken second) :
    IsUnbroken (byte :: second) :=
  List.forall_mem_cons.mpr ⟨visible, rest⟩

theorem append (front : IsUnbroken first) (rest : IsUnbroken second) :
    IsUnbroken (first ++ second) :=
  List.forall_mem_append.mpr ⟨front, rest⟩

/-- Unbroken bytes have no line feed. -/
theorem lineFeed_not_mem (unbroken : IsUnbroken first) : Ascii.lineFeed ∉ first :=
  fun isIn => absurd (unbroken _ isIn) (by decide)

end IsUnbroken

/-! ## Texts -/

/-- A character that is no control character has no control byte. -/
theorem isUnbroken_encodeChar {character : Char} (visible : 0x20 ≤ character.toNat) :
    IsUnbroken (String.utf8EncodeChar character) := by
  have value : ∀ number, (UInt8.ofNat number).toNat = number % 256 := fun _ => rfl
  rw [Char.toNat] at visible
  simp only [String.utf8EncodeChar]
  split
  · exact .cons (by rw [value]; omega) .nil
  · -- The leading byte of a longer form is at least `C0`, and the others are at least `80`.
    have leads : ∀ part mark : Nat, part < 0x20 → mark = 0xC0 ∨ mark = 0xE0 ∧ part < 0x10 ∨
        mark = 0xF0 ∧ part < 0x08 → 0x20 ≤ (UInt8.ofNat (part + mark)).toNat := by
      intro part mark _ marked
      rw [value]
      omega
    have continues : ∀ part : Nat, 0x20 ≤ (UInt8.ofNat (part % 0x40 + 0x80)).toNat := by
      intro part
      rw [value]
      omega
    split
    · exact .cons (leads _ _ (by omega) (by omega)) (.cons (continues _) .nil)
    · split
      · exact .cons (leads _ _ (by omega) (by omega))
          (.cons (continues _) (.cons (continues _) .nil))
      · exact .cons (leads _ _ (by omega) (by omega))
          (.cons (continues _) (.cons (continues _) (.cons (continues _) .nil)))

/-- A text without control characters has no control byte. -/
theorem isUnbroken_bytesOf {characters : List Char}
    (visible : ∀ character ∈ characters, 0x20 ≤ character.toNat) :
    IsUnbroken (bytesOf (String.ofList characters)) := by
  intro byte isIn
  rw [bytesOf, Utf8.encode, String.toList_ofList] at isIn
  obtain ⟨character, isOne, within⟩ := List.mem_flatMap.mp isIn
  exact isUnbroken_encodeChar (visible character isOne) byte within

/-- What stands for a byte in a string literal is unbroken, whatever the byte. -/
theorem isUnbroken_escapedByte (byte : UInt8) : IsUnbroken (escapedByte byte) := by
  have digit : ∀ value, value < 16 → 0x20 ≤ (Ascii.hexDigit value).toNat := by decide
  have letter : ∀ {other : UInt8}, 0x20 ≤ other.toNat → IsUnbroken [Ascii.backslash, other] :=
    fun visible => .cons (by decide) (.cons visible .nil)
  have small := byte.toNat_lt
  rw [escapedByte]
  iterate 7
    split
    · exact letter (by decide)
  split
  · exact .cons (by decide) (.cons (by decide) (.cons (by decide) (.cons (by decide)
      (.cons (digit _ (by omega)) (.cons (digit _ (by omega)) .nil)))))
  · next visible =>
      rw [Ascii.isControl_iff] at visible
      exact .cons (by omega) .nil

/-- A string literal is unbroken. -/
theorem isUnbroken_quoted (text : String) : IsUnbroken (quoted text) := by
  rw [quoted]
  refine .cons (by decide) (.append (fun byte isIn => ?_) (.cons (by decide) .nil))
  obtain ⟨other, -, within⟩ := List.mem_flatMap.mp isIn
  exact isUnbroken_escapedByte other byte within

/-! ## Numbers -/

namespace Json

theorem isUnbroken_ofInt (number : Int) : IsUnbroken (Decimal.ofInt number) := by
  have digits : IsUnbroken (Decimal.ofNat number.natAbs) := by
    intro byte isIn
    have range := (Ascii.isDigit_iff byte).mp (Decimal.isDigit_of_mem_ofNat byte isIn)
    omega
  rw [Decimal.ofInt]
  split
  · exact .cons (by decide) digits
  · exact digits

namespace Number

/-- The digits of a number are no control characters. -/
theorem visible_toDigits (number : Nat) :
    ∀ character ∈ Nat.toDigits 10 number, 0x20 ≤ character.toNat := by
  intro character isIn
  have digit := Nat.isDigit_of_mem_toDigits (by decide) (by decide) isIn
  rw [Char.isDigit, Bool.and_eq_true, decide_eq_true_eq, ge_iff_le, UInt32.le_iff_toNat_le] at digit
  exact Nat.le_trans (by decide) digit.1

variable {digits : List Char} (visible : ∀ digit ∈ digits, 0x20 ≤ digit.toNat)

include visible

theorem visible_positional (exponent : Int) :
    ∀ character ∈ positional digits exponent, 0x20 ≤ character.toNat := by
  have zeros : ∀ count, ∀ character ∈ zeros count, 0x20 ≤ character.toNat := by
    intro count character isIn
    rw [(List.mem_replicate.mp isIn).2]
    decide
  rw [positional]
  split
  · simp only [List.forall_mem_append]
    exact ⟨⟨visible, zeros _⟩,
      List.forall_mem_cons.mpr ⟨by decide, List.forall_mem_singleton.mpr (by decide)⟩⟩
  · split
    · simp only [List.forall_mem_append, List.forall_mem_cons]
      exact ⟨fun digit isIn => visible digit (List.mem_of_mem_take isIn), by decide,
        fun digit isIn => visible digit (List.mem_of_mem_drop isIn)⟩
    · simp only [List.forall_mem_append, List.forall_mem_cons]
      exact ⟨⟨by decide, by decide, zeros _⟩, visible⟩

theorem visible_scientific (power : Int) :
    ∀ character ∈ scientific digits power, 0x20 ≤ character.toNat := by
  have behind : ∀ character ∈ 'e' :: (if power < 0 then '-' else '+') ::
      Nat.toDigits 10 power.natAbs, 0x20 ≤ character.toNat := by
    simp only [List.forall_mem_cons]
    refine ⟨by decide, ?_, visible_toDigits _⟩
    split <;> decide
  rcases digits with _ | ⟨first, _ | ⟨second, rest⟩⟩
  · exact behind
  · exact List.forall_mem_append.mpr ⟨visible, behind⟩
  · have mantissa : ∀ character ∈ first :: '.' :: second :: rest, 0x20 ≤ character.toNat := by
      simp only [List.forall_mem_cons] at visible ⊢
      exact ⟨visible.1, by decide, visible.2⟩
    exact List.forall_mem_append.mpr ⟨mantissa, behind⟩

omit visible

/-- Numbers are printed without control bytes. -/
theorem isUnbroken_print : ∀ number : Number, IsUnbroken number.print
  | .integer value _ => isUnbroken_ofInt value
  | .double bits => by
      have digits := visible_toDigits (Shortest.ofBits bits).digits
      have magnitude : ∀ power exponent, ∀ character ∈
          (if -5 ≤ power ∧ power ≤ 15 then
            positional (Nat.toDigits 10 (Shortest.ofBits bits).digits) exponent
          else scientific (Nat.toDigits 10 (Shortest.ofBits bits).digits) power),
            0x20 ≤ character.toNat := by
        intro power exponent
        split
        · exact visible_positional digits exponent
        · exact visible_scientific digits power
      rw [print, doubleText]
      apply isUnbroken_bytesOf
      split
      · exact List.forall_mem_cons.mpr ⟨by decide, magnitude _ _⟩
      · exact magnitude _ _

end Number

/-! ## Values -/

mutual

/-- **The form of a value is unbroken.** -/
theorem Value.isUnbroken_print : ∀ value : Value, IsUnbroken value.print
  | .null => by
      rw [Value.print, Value.printBefore, List.append_nil]
      decide
  | .bool value => by
      rw [Value.print, Value.printBefore, List.append_nil]
      cases value
      · decide
      · decide
  | .number value => by
      rw [Value.print, Value.printBefore, List.append_nil]
      exact value.isUnbroken_print
  | .text value => by
      rw [Value.print, Value.printBefore, List.append_nil]
      exact isUnbroken_quoted value
  | .array .nil => by
      rw [Value.print_array]
      decide
  | .array (.cons head tail) => by
      rw [Value.print_array, Items.print_cons]
      exact .cons (by decide) (.append (.append head.isUnbroken_print tail.isUnbroken_printTail)
        (.cons (by decide) .nil))
  | .object .nil => by
      rw [Value.print_object]
      decide
  | .object (.cons key value tail) => by
      rw [Value.print_object, Members.print_cons]
      exact .cons (by decide) (.append (.append (.append (isUnbroken_quoted key)
        (.cons (by decide) value.isUnbroken_print)) tail.isUnbroken_printTail)
        (.cons (by decide) .nil))

theorem Items.isUnbroken_printTail : ∀ items : Items, IsUnbroken items.printTail
  | .nil => .nil
  | .cons head tail => by
      rw [Items.printTail]
      exact .append (.cons (by decide) head.isUnbroken_print) tail.isUnbroken_printTail

theorem Members.isUnbroken_printTail : ∀ members : Members, IsUnbroken members.printTail
  | .nil => .nil
  | .cons key value tail => by
      rw [Members.printTail]
      exact .append (.append (.cons (by decide) (isUnbroken_quoted key))
        (.cons (by decide) value.isUnbroken_print)) tail.isUnbroken_printTail

end

end Json

end ChatCodec
