import ChatCodec.Proofs.Decimal
import ChatCodec.Proofs.Printing
import ChatCodec.Proofs.Text.Wellformed

/-!
# The compact form of opaque JSON is strict JSON

The grammar of RFC 8259 without its white space is a predicate on bytes (`Json.IsCompact`).  An
array has its items separated by commas and an object its members; there is no comma behind the
last of them.  The compact printer keeps to it, whatever the value
(`Json.Value.isCompact_print`), and what it prints is UTF-8 (`Json.Value.isText_print`).

The only scalars for which this takes an argument are doubles.  The digits that are printed for
one do not begin with a zero unless the double is zero: the shortest decimal is taken from an
interval of positive numbers, and leaving out trailing zeros keeps it positive
(`Shortest.ofBits_cases`).
-/

namespace ChatCodec

set_option autoImplicit false

namespace Json

/-! ## The grammar -/

/-- One digit or more. -/
def IsDigits (bytes : Bytes) : Prop :=
  bytes ≠ [] ∧ ∀ byte ∈ bytes, Ascii.isDigit byte = true

/-- A whole part: digits of which the first is no zero, or a zero alone. -/
def IsWhole (bytes : Bytes) : Prop :=
  IsDigits bytes ∧ (bytes.head? = some Ascii.zero → bytes = [Ascii.zero])

/-- An optional fraction. -/
inductive IsFraction : Bytes → Prop where
  | none : IsFraction []
  | some {digits : Bytes} (isDigits : IsDigits digits) : IsFraction (Ascii.dot :: digits)

/-- An optional exponent. -/
inductive IsExponent : Bytes → Prop where
  | none : IsExponent []
  | some {letter : UInt8} {sign digits : Bytes} (isLetter : letter = 0x65 ∨ letter = 0x45)
      (isSign : sign = [] ∨ sign = [Ascii.plus] ∨ sign = [Ascii.minus])
      (isDigits : IsDigits digits) : IsExponent (letter :: (sign ++ digits))

/-- A number. -/
inductive IsNumber : Bytes → Prop where
  | parts {minus whole fraction exponent : Bytes} (isMinus : minus = [] ∨ minus = [Ascii.minus])
      (isWhole : IsWhole whole) (isFraction : IsFraction fraction)
      (isExponent : IsExponent exponent) : IsNumber (minus ++ (whole ++ (fraction ++ exponent)))

/-- Parts with commas between them. -/
def separated (parts : List Bytes) : Bytes := [Ascii.comma].intercalate parts

/-- A member: the literal of its key, a colon, and its value. -/
def memberForm (member : Bytes × Bytes) : Bytes := member.1 ++ Ascii.colon :: member.2

/-- The form of an array of items. -/
def arrayForm (items : List Bytes) : Bytes :=
  Ascii.openBracket :: separated items ++ [Ascii.closeBracket]

/-- The form of an object of members. -/
def objectForm (members : List (Bytes × Bytes)) : Bytes :=
  Ascii.openBrace :: separated (members.map memberForm) ++ [Ascii.closeBrace]

/-- **Strict JSON without white space between its tokens.** -/
inductive IsCompact : Bytes → Prop where
  | null : IsCompact (bytesOf "null")
  | true : IsCompact (bytesOf "true")
  | false : IsCompact (bytesOf "false")
  | number {bytes : Bytes} (isNumber : IsNumber bytes) : IsCompact bytes
  | text {bytes : Bytes} (isLiteral : IsStringLiteral bytes) : IsCompact bytes
  | array (items : List Bytes) (all : ∀ item ∈ items, IsCompact item) :
      IsCompact (arrayForm items)
  | object (members : List (Bytes × Bytes))
      (keys : ∀ member ∈ members, IsStringLiteral member.1)
      (all : ∀ member ∈ members, IsCompact member.2) : IsCompact (objectForm members)

/-! ## Integers -/

/-- The digits of a number are a whole part. -/
theorem isWhole_ofNat (number : Nat) : IsWhole (Decimal.ofNat number) := by
  refine ⟨⟨Decimal.ofNat_ne_nil number, Decimal.isDigit_of_mem_ofNat⟩, fun begins => ?_⟩
  obtain ⟨first, rest, same⟩ := List.exists_cons_of_ne_nil (Decimal.ofNat_ne_nil number)
  rw [same, List.head?_cons, Option.some.injEq] at begins
  rw [begins] at same
  rw [same, Decimal.eq_nil_of_ofNat_eq_zero_cons same]

theorem isNumber_ofInt (number : Int) : IsNumber (Decimal.ofInt number) := by
  have parts : ∀ {minus : Bytes}, minus = [] ∨ minus = [Ascii.minus] →
      IsNumber (minus ++ (Decimal.ofNat number.natAbs ++ ([] ++ []))) := fun isMinus =>
    .parts isMinus (isWhole_ofNat _) .none .none
  rw [Decimal.ofInt]
  split
  · simpa using parts (.inr rfl)
  · simpa using parts (.inl rfl)

end Json

/-! ## Shortest decimals -/

namespace Shortest

namespace Interval

/-- The neighbour of a value lies in the interval. -/
theorem holds_of_neighbour? {interval : Interval} {candidate : Nat}
    (found : interval.neighbour? = some candidate) : interval.holds candidate = true := by
  unfold neighbour? at found
  simp only at found
  split at found
  · next below above =>
      split at found
      · cases found; exact below
      · split at found
        · cases found; exact above
        · split at found
          · cases found; exact below
          · cases found; exact above
  · next below _ => cases found; exact below
  · next _ above => cases found; exact above
  · cases found

/-- Zero does not lie in an interval of positive numbers. -/
theorem pos_of_holds {interval : Interval} (positive : 0 < interval.low) {candidate : Nat}
    (holds : interval.holds candidate = true) : 0 < candidate := by
  rcases Nat.eq_zero_or_pos candidate with rfl | later
  · unfold Interval.holds at holds
    simp only [Nat.zero_mul] at holds
    split at holds <;> simp only [Bool.and_eq_true, decide_eq_true_eq] at holds <;> omega
  · exact later

theorem low_pos_ofParts {significand : Nat} (positive : 0 < significand) (exponent : Int)
    (narrow : Bool) : 0 < (ofParts significand exponent narrow).low := by
  have factor : 0 < Nat.pow 2 (exponent - 2).toNat := Nat.pow_pos (by decide)
  refine Nat.mul_pos ?_ factor
  split <;> omega

theorem low_pos_shift {interval : Interval} (positive : 0 < interval.low) (power : Int) :
    0 < (interval.shift power).low :=
  Nat.mul_pos positive (Nat.pow_pos (by decide))

end Interval

/-- Leaving out trailing zeros keeps a decimal positive. -/
theorem digits_pos_trimZeros : ∀ (count : Nat) {decimal : ScaledDecimal}, 0 < decimal.digits →
    0 < (trimZeros count decimal).digits
  | 0, _, positive => positive
  | count + 1, decimal, positive => by
      rw [trimZeros]
      split
      · exact digits_pos_trimZeros count (show 0 < decimal.digits / 10 by omega)
      · exact positive

/-- The shortest decimal of positive numbers is positive, if there is any of so many digits. -/
theorem ofInterval_cases {interval : Interval} (positive : 0 < interval.low) :
    0 < (ofInterval interval).digits ∨ ofInterval interval = ⟨0, 20⟩ := by
  unfold ofInterval
  simp only
  generalize searched : (List.range 17).findSome? _ = found
  cases found with
  | none => exact .inr rfl
  | some decimal =>
      obtain ⟨count, -, here⟩ := List.exists_of_findSome?_eq_some searched
      obtain ⟨digits, neighbour, rfl⟩ := Option.map_eq_some_iff.mp here
      have lies := Interval.holds_of_neighbour? neighbour
      exact .inl (digits_pos_trimZeros 20
        (Interval.pos_of_holds (Interval.low_pos_shift positive _) lies))

/-- **The shortest decimal of a double is positive** or a zero with one of two exponents. -/
theorem ofBits_cases (bits : UInt64) :
    0 < (ofBits bits).digits ∨ ofBits bits = ⟨0, 0⟩ ∨ ofBits bits = ⟨0, 20⟩ := by
  unfold ofBits
  simp only
  split
  · exact .inr (.inl rfl)
  · next nonzero =>
      split
      · next subnormal =>
          have fraction : 0 < bits.toNat % signBit % hiddenBit := by
            have division := Nat.div_add_mod (bits.toNat % signBit) hiddenBit
            rw [subnormal] at division
            omega
          exact (ofInterval_cases (Interval.low_pos_ofParts fraction _ _)).imp_right .inr
      · exact (ofInterval_cases (Interval.low_pos_ofParts (Nat.add_pos_left (by decide) _) _
          _)).imp_right .inr

end Shortest

namespace Json

/-! ## Doubles -/

namespace Number

theorem bytesOf_ofList_append (first second : List Char) :
    bytesOf (String.ofList (first ++ second)) =
      bytesOf (String.ofList first) ++ bytesOf (String.ofList second) := by
  rw [String.ofList_append]
  exact Utf8.encode_append _ _

theorem bytesOf_ofList_cons (first : Char) (rest : List Char) :
    bytesOf (String.ofList (first :: rest)) =
      String.utf8EncodeChar first ++ bytesOf (String.ofList rest) := by
  simp only [bytesOf, Utf8.encode, String.toList_ofList, List.flatMap_cons]

/-- A digit as a character is a digit as a byte. -/
theorem encodeChar_of_isDigit {digit : Char} (isDigit : digit.isDigit = true) :
    ∃ byte, String.utf8EncodeChar digit = [byte] ∧ Ascii.isDigit byte = true ∧
      (byte = Ascii.zero → digit = '0') := by
  rw [Char.isDigit, Bool.and_eq_true, decide_eq_true_eq, decide_eq_true_eq, ge_iff_le,
    UInt32.le_iff_toNat_le, UInt32.le_iff_toNat_le] at isDigit
  obtain ⟨low, high⟩ := isDigit
  have low : 0x30 ≤ digit.val.toNat := low
  have high : digit.val.toNat ≤ 0x39 := high
  have value : (UInt8.ofNat digit.val.toNat).toNat = digit.val.toNat :=
    Nat.mod_eq_of_lt (by omega)
  refine ⟨UInt8.ofNat digit.val.toNat, ?_, ?_, fun zero => ?_⟩
  · simp only [String.utf8EncodeChar, if_pos (show digit.val.toNat ≤ 0x7F by omega)]
  · rw [Ascii.isDigit_iff, value]
    exact ⟨low, high⟩
  · have same := congrArg UInt8.toNat zero
    rw [value] at same
    exact Char.ext (UInt32.toNat_inj.mp same)

/-- Digits as characters are digits as bytes. -/
theorem isDigits_of_chars {digits : List Char} (notEmpty : digits ≠ [])
    (all : ∀ digit ∈ digits, digit.isDigit = true) :
    IsDigits (bytesOf (String.ofList digits)) := by
  have bytes : ∀ {digits : List Char}, (∀ digit ∈ digits, digit.isDigit = true) →
      ∀ byte ∈ bytesOf (String.ofList digits), Ascii.isDigit byte = true := by
    intro digits all
    induction digits with
    | nil => exact fun byte isIn => by cases isIn
    | cons first rest ih =>
        obtain ⟨isDigit, following⟩ := List.forall_mem_cons.mp all
        obtain ⟨byte, single, isByte, -⟩ := encodeChar_of_isDigit isDigit
        rw [bytesOf_ofList_cons, single]
        exact List.forall_mem_cons.mpr ⟨isByte, ih following⟩
  refine ⟨?_, bytes all⟩
  obtain ⟨first, rest, rfl⟩ := List.exists_cons_of_ne_nil notEmpty
  obtain ⟨byte, single, -⟩ := encodeChar_of_isDigit (all first List.mem_cons_self)
  rw [bytesOf_ofList_cons, single]
  exact List.cons_ne_nil _ _

/-- Digits of which the first is no zero are a whole part, and so is any single digit. -/
theorem isWhole_of_chars {first : Char} {rest : List Char}
    (all : ∀ digit ∈ first :: rest, digit.isDigit = true) (lead : first = '0' → rest = []) :
    IsWhole (bytesOf (String.ofList (first :: rest))) := by
  refine ⟨isDigits_of_chars (List.cons_ne_nil _ _) all, ?_⟩
  obtain ⟨byte, single, -, onlyZero⟩ := encodeChar_of_isDigit (all first List.mem_cons_self)
  rw [bytesOf_ofList_cons, single]
  intro begins
  have isZero : byte = Ascii.zero := Option.some.inj begins
  rw [lead (onlyZero isZero), isZero]
  rfl

/-- Characters that are the whole part, the fraction and the exponent of a number. -/
def IsMagnitude (characters : List Char) : Prop :=
  ∃ whole fraction exponent, bytesOf (String.ofList characters) = whole ++ (fraction ++ exponent) ∧
    IsWhole whole ∧ IsFraction fraction ∧ IsExponent exponent

variable {first : Char} {rest : List Char}
  (all : ∀ digit ∈ first :: rest, digit.isDigit = true)

theorem isDigit_of_mem_zeros (count : Nat) : ∀ digit ∈ zeros count, digit.isDigit = true := by
  intro digit isIn
  rw [(List.mem_replicate.mp isIn).2]
  rfl

/-- A whole part and a fraction are a magnitude. -/
theorem IsMagnitude.point {digits : List Char} (lead : first = '0' → rest = [])
    (notEmpty : digits ≠ []) (decimals : ∀ digit ∈ digits, digit.isDigit = true)
    (all : ∀ digit ∈ first :: rest, digit.isDigit = true) :
    IsMagnitude (first :: rest ++ '.' :: digits) := by
  refine ⟨_, _, [], ?_, isWhole_of_chars all lead, .some (isDigits_of_chars notEmpty decimals),
    .none⟩
  rw [bytesOf_ofList_append, bytesOf_ofList_cons '.', List.append_nil]
  rfl

include all

/-- **Positional notation is a magnitude**, if the first digit is a zero only where nothing but
a fraction follows it. -/
theorem isMagnitude_positional {exponent : Int}
    (lead : first = '0' → rest = [] ∧ exponent ≤ 0) :
    IsMagnitude (positional (first :: rest) exponent) := by
  obtain ⟨isDigit, others⟩ := List.forall_mem_cons.mp all
  rw [positional]
  split
  · next whole =>
      -- zeros are appended to the digits
      refine @IsMagnitude.point first (rest ++ zeros exponent.toNat) ['0'] ?_
        (List.cons_ne_nil _ _) (List.forall_mem_singleton.mpr rfl) ?_
      · intro zero
        obtain ⟨alone, small⟩ := lead zero
        rw [alone, show exponent.toNat = 0 by omega]
        rfl
      · exact List.forall_mem_cons.mpr ⟨isDigit,
          List.forall_mem_append.mpr ⟨others, isDigit_of_mem_zeros _⟩⟩
  · next fractional =>
      simp only [List.length_cons] at *
      split
      · next inside =>
          -- the point stands between the digits
          obtain ⟨count, counted⟩ : ∃ count, ((rest.length + 1 : Nat) + exponent).toNat =
              count + 1 := ⟨_, (Nat.succ_pred_eq_of_pos (by omega)).symm⟩
          rw [counted, List.take_succ_cons, List.drop_succ_cons]
          refine .point (fun zero => by rw [(lead zero).1, List.take_nil]) ?_
            (fun digit isIn => others digit (List.mem_of_mem_drop isIn))
            (List.forall_mem_cons.mpr ⟨isDigit, fun digit isIn =>
              others digit (List.mem_of_mem_take isIn)⟩)
          rw [Ne, List.drop_eq_nil_iff]
          omega
      · -- zeros stand in front of the digits
        refine @IsMagnitude.point '0' [] _ (fun _ => rfl)
          (List.append_ne_nil_of_right_ne_nil _ (List.cons_ne_nil _ _)) ?_
          (List.forall_mem_singleton.mpr rfl)
        exact List.forall_mem_append.mpr ⟨isDigit_of_mem_zeros _, all⟩

/-- **Scientific notation is a magnitude.** -/
theorem isMagnitude_scientific (power : Int) : IsMagnitude (scientific (first :: rest) power) := by
  obtain ⟨isDigit, others⟩ := List.forall_mem_cons.mp all
  have isWhole : IsWhole (bytesOf (String.ofList [first])) :=
    isWhole_of_chars (List.forall_mem_singleton.mpr isDigit) fun _ => rfl
  have isExponent : IsExponent (bytesOf (String.ofList
      ('e' :: (if power < 0 then '-' else '+') :: Nat.toDigits 10 power.natAbs))) := by
    have isDigits : IsDigits (bytesOf (String.ofList (Nat.toDigits 10 power.natAbs))) :=
      isDigits_of_chars Nat.toDigits_ne_nil fun digit isIn =>
        Nat.isDigit_of_mem_toDigits (by decide) (by decide) isIn
    rw [bytesOf_ofList_cons, bytesOf_ofList_cons]
    by_cases negative : power < 0
    · rw [if_pos negative]
      exact @IsExponent.some _ [Ascii.minus] _ (.inl rfl) (.inr (.inr rfl)) isDigits
    · rw [if_neg negative]
      exact @IsExponent.some _ [Ascii.plus] _ (.inl rfl) (.inr (.inl rfl)) isDigits
  cases rest with
  | nil => exact ⟨_, [], _, bytesOf_ofList_append [first] _, isWhole, .none, isExponent⟩
  | cons second rest =>
      refine ⟨_, _, _, ?_, isWhole,
        .some (isDigits_of_chars (List.cons_ne_nil second rest) others), isExponent⟩
      have point : String.utf8EncodeChar '.' = [Ascii.dot] := rfl
      rw [scientific, bytesOf_ofList_append, bytesOf_ofList_cons, bytesOf_ofList_cons '.', point,
        bytesOf_ofList_cons first []]
      simp only [List.append_assoc, List.cons_append, List.nil_append]
      rfl

omit all

/-- The digits of a positive number do not begin with a zero. -/
theorem ne_zero_of_toDigits {number : Nat} (positive : 0 < number) {first : Char}
    {rest : List Char} (digits : Nat.toDigits 10 number = first :: rest) : first ≠ '0' := by
  induction number using Nat.strongRecOn generalizing rest with
  | ind number ih =>
      by_cases single : number < 10
      · rw [Nat.toDigits_of_lt_base single] at digits
        obtain ⟨rfl, -⟩ := List.cons.inj digits
        rw [Ne, Nat.digitChar_eq_zero]
        omega
      · rw [Nat.toDigits_of_base_le (by decide) (Nat.le_of_not_lt single)] at digits
        obtain ⟨front, others, same⟩ :=
          List.exists_cons_of_ne_nil (Nat.toDigits_ne_nil (n := number / 10) (b := 10))
        rw [same, List.cons_append] at digits
        obtain ⟨rfl, -⟩ := List.cons.inj digits
        exact ih (number / 10) (by omega) (by omega) same

/-- **The text of a double is a number.** -/
theorem isNumber_doubleText (bits : UInt64) : IsNumber (bytesOf (doubleText bits)) := by
  have isDecimal := Shortest.ofBits_cases bits
  rw [doubleText]
  generalize Shortest.ofBits bits = decimal at isDecimal ⊢
  obtain ⟨first, rest, digits⟩ :=
    List.exists_cons_of_ne_nil (Nat.toDigits_ne_nil (n := decimal.digits) (b := 10))
  have all : ∀ digit ∈ first :: rest, digit.isDigit = true := fun digit isIn =>
    Nat.isDigit_of_mem_toDigits (by decide) (by decide) (digits ▸ isIn)
  have magnitude : IsMagnitude
      (if -5 ≤ ((first :: rest).length : Int) + decimal.exponent - 1 ∧
          ((first :: rest).length : Int) + decimal.exponent - 1 ≤ 15 then
        positional (first :: rest) decimal.exponent
      else scientific (first :: rest) (((first :: rest).length : Int) + decimal.exponent - 1)) := by
    split
    · next near =>
        refine isMagnitude_positional all fun zero => ?_
        rcases isDecimal with positive | rfl | rfl
        · exact absurd zero (ne_zero_of_toDigits positive digits)
        · obtain ⟨-, rfl⟩ := List.cons.inj digits
          exact ⟨rfl, Int.le_refl 0⟩
        · -- a zero with an exponent of twenty is not written in positional notation
          obtain ⟨-, rfl⟩ := List.cons.inj digits
          exact absurd near.2 (by rw [List.length_singleton]; decide)
    · exact isMagnitude_scientific all _
  simp only [digits]
  obtain ⟨whole, fraction, exponent, same, isWhole, isFraction, isExponent⟩ := magnitude
  split
  · rw [bytesOf_ofList_cons, same]
    exact @IsNumber.parts [Ascii.minus] _ _ _ (.inr rfl) isWhole isFraction isExponent
  · rw [same]
    exact @IsNumber.parts [] _ _ _ (.inl rfl) isWhole isFraction isExponent

end Number

/-! ## Values -/

theorem isNumber_print : ∀ number : Number, IsNumber number.print
  | .integer value _ => isNumber_ofInt value
  | .double bits => Number.isNumber_doubleText bits

/-- The forms of the items. -/
def Items.forms : Items → List Bytes
  | .nil => []
  | .cons head tail => head.print :: tail.forms

/-- The literals of the keys and the forms of the values. -/
def Members.forms : Members → List (Bytes × Bytes)
  | .nil => []
  | .cons key value tail => (quoted key, value.print) :: tail.forms

theorem separated_singleton (part : Bytes) : separated [part] = part :=
  List.intercalate_singleton

theorem separated_cons (first second : Bytes) (rest : List Bytes) :
    separated (first :: second :: rest) = first ++ Ascii.comma :: separated (second :: rest) := by
  rw [separated, List.intercalate_cons_cons, List.append_assoc]
  rfl

/-- One more part stands behind a comma. -/
theorem separated_concat (last : Bytes) : ∀ {parts : List Bytes}, parts ≠ [] →
    separated (parts ++ [last]) = separated parts ++ Ascii.comma :: last
  | [first], _ => by
      rw [List.singleton_append, separated_cons, separated_singleton, separated_singleton]
  | first :: second :: rest, _ => by
      have following := separated_concat last (List.cons_ne_nil second rest)
      rw [List.cons_append] at following
      rw [List.cons_append, List.cons_append, separated_cons, separated_cons, following,
        List.append_assoc, List.cons_append]

theorem Items.separated_forms : ∀ items : Items, separated items.forms = items.print
  | .nil => rfl
  | .cons head .nil => by
      rw [print_cons, printTail, List.append_nil, forms, forms, separated_singleton]
  | .cons head (.cons next tail) => by
      have following := separated_forms (.cons next tail)
      rw [forms] at following
      rw [forms, forms, separated_cons, following, print_cons, print_cons, printTail]
      rfl

theorem Members.separated_forms : ∀ members : Members,
    separated (members.forms.map memberForm) = members.print
  | .nil => rfl
  | .cons key value .nil => by
      rw [print_cons, printTail, List.append_nil, forms, forms, List.map_cons, List.map_nil,
        separated_singleton, memberForm]
  | .cons key value (.cons next other tail) => by
      have following := separated_forms (.cons next other tail)
      rw [forms, List.map_cons] at following
      rw [forms, forms, List.map_cons, List.map_cons, separated_cons, following, print_cons,
        print_cons, printTail, memberForm]
      simp only [List.append_assoc, List.cons_append]

/-- The form of an array. -/
theorem Value.print_array_eq (items : Items) :
    (Value.array items).print = arrayForm items.forms := by
  rw [print_array, arrayForm, items.separated_forms]

/-- The form of an object. -/
theorem Value.print_object_eq (members : Members) :
    (Value.object members).print = objectForm members.forms := by
  rw [print_object, objectForm, members.separated_forms]

mutual

/-- **The form of a value is strict JSON without white space.** -/
theorem Value.isCompact_print : ∀ value : Value, IsCompact value.print
  | .null => by
      rw [Value.print, Value.printBefore, List.append_nil]
      exact .null
  | .bool value => by
      rw [Value.print, Value.printBefore, List.append_nil]
      cases value with
      | true => exact .true
      | false => exact .false
  | .number value => by
      rw [Value.print, Value.printBefore, List.append_nil]
      exact .number (isNumber_print value)
  | .text value => by
      rw [Value.print, Value.printBefore, List.append_nil]
      exact .text (isStringLiteral_quoted value)
  | .array items => by
      rw [Value.print_array_eq]
      exact .array _ items.isCompact_forms
  | .object members => by
      rw [Value.print_object_eq]
      exact .object _ (fun member isIn => (members.isCompact_forms member isIn).1)
        fun member isIn => (members.isCompact_forms member isIn).2

theorem Items.isCompact_forms : ∀ items : Items, ∀ item ∈ items.forms, IsCompact item
  | .nil => List.forall_mem_nil _
  | .cons head tail => List.forall_mem_cons.mpr ⟨head.isCompact_print, tail.isCompact_forms⟩

theorem Members.isCompact_forms : ∀ members : Members, ∀ member ∈ members.forms,
    IsStringLiteral member.1 ∧ IsCompact member.2
  | .nil => List.forall_mem_nil _
  | .cons key value tail => List.forall_mem_cons.mpr
      ⟨⟨isStringLiteral_quoted key, value.isCompact_print⟩, tail.isCompact_forms⟩

end

/-! ## UTF-8 -/

open Utf8 (IsText isText_of_ascii isText_bytesOf isText_quoted)

theorem isText_print_number : ∀ number : Number, IsText number.print
  | .integer value _ => by
      have digits : ∀ byte ∈ Decimal.ofNat value.natAbs, byte.toNat < 0x80 := fun byte isIn => by
        have range := (Ascii.isDigit_iff byte).mp (Decimal.isDigit_of_mem_ofNat byte isIn)
        omega
      refine isText_of_ascii ?_
      rw [Number.print, Decimal.ofInt]
      split
      · exact List.forall_mem_cons.mpr ⟨by decide, digits⟩
      · exact digits
  | .double bits => isText_bytesOf _

mutual

/-- **The form of a value is UTF-8.** -/
theorem Value.isText_print : ∀ value : Value, IsText value.print
  | .null => by
      rw [Value.print, Value.printBefore, List.append_nil]
      exact isText_bytesOf _
  | .bool value => by
      rw [Value.print, Value.printBefore, List.append_nil]
      cases value <;> exact isText_bytesOf _
  | .number value => by
      rw [Value.print, Value.printBefore, List.append_nil]
      exact isText_print_number value
  | .text value => by
      rw [Value.print, Value.printBefore, List.append_nil]
      exact isText_quoted value
  | .array .nil => isText_bytesOf "[]"
  | .array (.cons head tail) => by
      rw [Value.print_array, Items.print_cons]
      exact (isText_bytesOf "[").append
        ((head.isText_print.append tail.isText_printTail).append (isText_bytesOf "]"))
  | .object .nil => isText_bytesOf "\x7b\x7d"
  | .object (.cons key value tail) => by
      rw [Value.print_object, Members.print_cons]
      exact (isText_bytesOf "\x7b").append
        ((((isText_quoted key).append ((isText_bytesOf ":").append value.isText_print)).append
          tail.isText_printTail).append (isText_bytesOf "\x7d"))

theorem Items.isText_printTail : ∀ items : Items, IsText items.printTail
  | .nil => isText_bytesOf ""
  | .cons head tail => by
      rw [Items.printTail]
      exact ((isText_bytesOf ",").append head.isText_print).append tail.isText_printTail

theorem Members.isText_printTail : ∀ members : Members, IsText members.printTail
  | .nil => isText_bytesOf ""
  | .cons key value tail => by
      rw [Members.printTail]
      exact (((isText_bytesOf ",").append (isText_quoted key)).append
        ((isText_bytesOf ":").append value.isText_print)).append tail.isText_printTail

end

end Json

end ChatCodec
