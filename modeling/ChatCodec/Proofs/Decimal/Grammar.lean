import ChatCodec.Proofs.Decimal.Literal
import ChatCodec.Proofs.Json.Compact

/-!
# Number literals and the number grammar

The number grammar of RFC 8259 has a predicate of its own (`Json.IsNumber`), which knows nothing
of how a literal is cut off the front of a text, part by part.  The words that are read as
number literals are exactly the numbers of the grammar, and a literal denotes an integer exactly
if it has neither a fraction nor an exponent (`numberToken?_eq_some_iff`).

For each part there is one lemma in either direction.  What is cut off keeps to the grammar of
the part.  What keeps to it is cut off again, if what follows does not go on with the part: a
whole part and a fraction stop where there is no further digit, and the fraction and the exponent
may be left out where there is no dot and no letter.
-/

namespace ChatCodec

set_option autoImplicit false

open Ascii (Stops)

namespace Json

/-- An integer: a number without fraction and exponent. -/
inductive IsInteger : Bytes → Prop where
  | parts {minus whole : Bytes} (isMinus : minus = [] ∨ minus = [Ascii.minus])
      (isWhole : IsWhole whole) : IsInteger (minus ++ whole)

/-- A number with a fraction or an exponent. -/
inductive IsDouble : Bytes → Prop where
  | parts {minus whole fraction exponent : Bytes} (isMinus : minus = [] ∨ minus = [Ascii.minus])
      (isWhole : IsWhole whole) (isFraction : IsFraction fraction)
      (isExponent : IsExponent exponent) (further : fraction ≠ [] ∨ exponent ≠ []) :
      IsDouble (minus ++ (whole ++ (fraction ++ exponent)))

/-- The numbers are the integers and the others. -/
theorem isNumber_iff {word : Bytes} : IsNumber word ↔ IsInteger word ∨ IsDouble word := by
  constructor
  · rintro @⟨minus, whole, fraction, exponent, isMinus, isWhole, isFraction, isExponent⟩
    by_cases integer : fraction = [] ∧ exponent = []
    · rw [integer.1, integer.2, List.append_nil, List.append_nil]
      exact .inl (.parts isMinus isWhole)
    · have further := Classical.not_and_iff_not_or_not.mp integer
      exact .inr (.parts isMinus isWhole isFraction isExponent further)
  · rintro (⟨isMinus, isWhole⟩ | ⟨isMinus, isWhole, isFraction, isExponent, -⟩)
    · have number := IsNumber.parts isMinus isWhole .none .none
      rwa [List.append_nil, List.append_nil] at number
    · exact .parts isMinus isWhole isFraction isExponent

end Json

namespace NumberLiteral

open Json (IsDigits IsWhole IsFraction IsExponent IsInteger IsDouble)

/-! ## What is cut off keeps to the grammar -/

theorem isDigits_of_cutDigits {bytes digits rest : Bytes}
    (cutOff : cutDigits bytes = .ok (digits, rest)) : IsDigits digits ∧ bytes = digits ++ rest := by
  cases bytes with
  | nil => cases cutOff
  | cons byte following =>
      rw [cutDigits] at cutOff
      by_cases digit : Ascii.isDigit byte = true
      · rw [if_pos digit] at cutOff
        cases cutOff
        refine ⟨⟨List.cons_ne_nil _ _, List.forall_mem_cons.mpr ⟨digit, ?_⟩⟩, ?_⟩
        · exact Ascii.all_of_mem_takeWhile
        · rw [List.cons_append, List.takeWhile_append_dropWhile]
      · rw [if_neg digit] at cutOff
        cases cutOff

theorem isWhole_of_cutWhole {bytes whole rest : Bytes}
    (cutOff : cutWhole bytes = .ok (whole, rest)) : IsWhole whole ∧ bytes = whole ++ rest := by
  cases bytes with
  | nil => cases cutOff
  | cons byte following =>
      rw [cutWhole.eq_def] at cutOff
      simp only at cutOff
      by_cases zero : byte = Ascii.zero
      · subst zero
        rw [if_pos rfl] at cutOff
        have alone : IsWhole [Ascii.zero] := by
          refine ⟨⟨List.cons_ne_nil _ _, ?_⟩, fun _ => rfl⟩
          exact List.forall_mem_singleton.mpr (by decide)
        cases following with
        | nil =>
            cases cutOff
            exact ⟨alone, rfl⟩
        | cons next following =>
            simp only at cutOff
            split at cutOff <;> cases cutOff
            exact ⟨alone, rfl⟩
      · rw [if_neg zero] at cutOff
        obtain ⟨isDigits, same⟩ := isDigits_of_cutDigits cutOff
        refine ⟨⟨isDigits, fun begins => ?_⟩, same⟩
        obtain ⟨first, others, rfl⟩ := List.exists_cons_of_ne_nil isDigits.1
        rw [List.cons_append] at same
        rw [List.head?_cons, ← (List.cons.inj same).1] at begins
        exact absurd (Option.some.inj begins) zero

theorem isFraction_of_cutFraction {bytes rest : Bytes} {fraction : Option Bytes}
    (cutOff : cutFraction bytes = .ok (fraction, rest)) :
    ∃ word, IsFraction word ∧ bytes = word ++ rest ∧ (fraction = none ↔ word = []) := by
  cases bytes with
  | nil =>
      cases cutOff
      exact ⟨[], .none, rfl, iff_of_true rfl rfl⟩
  | cons byte following =>
      rw [cutFraction] at cutOff
      by_cases dot : byte = Ascii.dot
      · rw [if_pos dot] at cutOff
        obtain ⟨⟨digits, behind⟩, cutDigits, same⟩ := map_eq_ok_iff.mp cutOff
        cases same
        obtain ⟨isDigits, rfl⟩ := isDigits_of_cutDigits cutDigits
        exact ⟨byte :: digits, dot ▸ .some isDigits, rfl, by simp only [reduceCtorEq]⟩
      · rw [if_neg dot] at cutOff
        cases cutOff
        exact ⟨[], .none, rfl, iff_of_true rfl rfl⟩

/-- A sign is a plus or a minus, or is left out. -/
theorem exists_sign_of_cutSign (bytes : Bytes) :
    ∃ sign, (sign = [] ∨ sign = [Ascii.plus] ∨ sign = [Ascii.minus]) ∧
      bytes = sign ++ (cutSign bytes).2 := by
  cases bytes with
  | nil => exact ⟨[], .inl rfl, rfl⟩
  | cons byte rest =>
      rw [cutSign]
      by_cases minus : byte = Ascii.minus
      · exact ⟨[Ascii.minus], .inr (.inr rfl), by rw [if_pos minus, minus]; rfl⟩
      rw [if_neg minus]
      by_cases plus : byte = Ascii.plus
      · exact ⟨[Ascii.plus], .inr (.inl rfl), by rw [if_pos plus, plus]; rfl⟩
      · exact ⟨[], .inl rfl, by rw [if_neg plus]; rfl⟩

theorem isExponent_of_cutExponent {bytes rest : Bytes} {exponent : Option (Bool × Bytes)}
    (cutOff : cutExponent bytes = .ok (exponent, rest)) :
    ∃ word, IsExponent word ∧ bytes = word ++ rest ∧ (exponent = none ↔ word = []) := by
  cases bytes with
  | nil =>
      cases cutOff
      exact ⟨[], .none, rfl, iff_of_true rfl rfl⟩
  | cons byte following =>
      rw [cutExponent] at cutOff
      by_cases letter : byte = 0x65 ∨ byte = 0x45
      · rw [if_pos letter] at cutOff
        obtain ⟨sign, isSign, whole⟩ := exists_sign_of_cutSign following
        revert cutOff whole
        generalize cutSign following = signed
        obtain ⟨negative, unsigned⟩ := signed
        intro cutOff whole
        obtain ⟨⟨digits, behind⟩, cutDigits, same⟩ := map_eq_ok_iff.mp cutOff
        cases same
        obtain ⟨isDigits, rfl⟩ := isDigits_of_cutDigits cutDigits
        refine ⟨byte :: (sign ++ digits), .some letter isSign isDigits, ?_,
          by simp only [reduceCtorEq]⟩
        rw [whole, List.cons_append, List.append_assoc]
      · rw [if_neg letter] at cutOff
        cases cutOff
        exact ⟨[], .none, rfl, iff_of_true rfl rfl⟩

/-- **What is read as a literal is a number**, and an integer if it says so. -/
theorem isNumber_of_ofBytes? {word : Bytes} {literal : NumberLiteral}
    (read : ofBytes? word = some literal) :
    if literal.isInteger = true then IsInteger word else IsDouble word := by
  have cutOff := ofBytes?_eq_some_iff.mp read
  have minus := (cutMinus_local word).1
  have isMinus : ∀ negative : Bool, (if negative = true then [Ascii.minus] else []) = [] ∨
      (if negative = true then [Ascii.minus] else []) = [Ascii.minus] := by decide
  rw [cut] at cutOff
  revert cutOff minus
  generalize cutMinus word = signed
  obtain ⟨negative, unsigned⟩ := signed
  intro cutOff minus
  obtain ⟨⟨whole, behindWhole⟩, cutWhole, cutOff⟩ := bind_eq_ok_iff.mp cutOff
  obtain ⟨⟨fraction, behindFraction⟩, cutFraction, cutOff⟩ := bind_eq_ok_iff.mp cutOff
  obtain ⟨⟨exponent, behind⟩, cutExponent, cutOff⟩ := bind_eq_ok_iff.mp cutOff
  cases cutOff
  obtain ⟨isWhole, sameWhole⟩ := isWhole_of_cutWhole cutWhole
  obtain ⟨point, isFraction, sameFraction, noFraction⟩ := isFraction_of_cutFraction cutFraction
  obtain ⟨power, isExponent, sameExponent, noExponent⟩ := isExponent_of_cutExponent cutExponent
  rw [sameWhole, sameFraction, sameExponent, List.append_nil] at minus
  rw [minus]
  simp only [isInteger, Bool.and_eq_true, Option.isNone_iff_eq_none, noFraction, noExponent]
  split
  · next integer =>
      rw [integer.1, integer.2, List.append_nil, List.append_nil]
      exact .parts (isMinus _) isWhole
  · next other =>
      exact .parts (isMinus _) isWhole isFraction isExponent
        (Classical.not_and_iff_not_or_not.mp other)

/-! ## What keeps to the grammar is cut off -/

section

variable {rest : Bytes}

theorem cutDigits_append {digits : Bytes} (isDigits : IsDigits digits)
    (stops : Stops Ascii.isDigit rest) : cutDigits (digits ++ rest) = .ok (digits, rest) := by
  obtain ⟨notNil, all⟩ := isDigits
  obtain ⟨first, others, rfl⟩ := List.exists_cons_of_ne_nil notNil
  obtain ⟨digit, digits⟩ := List.forall_mem_cons.mp all
  rw [List.cons_append, cutDigits, if_pos digit, Ascii.takeWhile_append digits stops,
    Ascii.dropWhile_append digits stops]

theorem cutWhole_append {whole : Bytes} (isWhole : IsWhole whole)
    (stops : Stops Ascii.isDigit rest) : cutWhole (whole ++ rest) = .ok (whole, rest) := by
  obtain ⟨isDigits, zeroAlone⟩ := isWhole
  have byDigits := cutDigits_append isDigits stops
  obtain ⟨first, others, rfl⟩ := List.exists_cons_of_ne_nil isDigits.1
  rw [List.cons_append] at byDigits ⊢
  rw [cutWhole.eq_def]
  simp only
  by_cases zero : first = Ascii.zero
  · subst zero
    obtain rfl := (List.cons.inj (zeroAlone rfl)).2
    rw [if_pos rfl]
    cases rest with
    | nil => rfl
    | cons next rest =>
        rw [List.nil_append]
        simp only [Ascii.stops_cons.mp stops, Bool.false_eq_true, if_false]
  · rw [if_neg zero]
    exact byDigits

theorem cutFraction_append {word : Bytes} (isFraction : IsFraction word)
    (stops : Stops Ascii.isDigit rest) (noDot : Stops (· == Ascii.dot) rest) :
    ∃ fraction, cutFraction (word ++ rest) = .ok (fraction, rest) ∧
      (fraction = none ↔ word = []) := by
  cases isFraction with
  | none => exact ⟨none, cutFraction_of_stops noDot, iff_of_true rfl rfl⟩
  | @some digits isDigits =>
      refine ⟨some digits, ?_, by simp only [reduceCtorEq]⟩
      rw [List.cons_append, cutFraction, if_pos rfl, cutDigits_append isDigits stops]
      rfl

/-- A sign is taken off digits. -/
theorem cutSign_append {sign digits : Bytes}
    (isSign : sign = [] ∨ sign = [Ascii.plus] ∨ sign = [Ascii.minus]) (isDigits : IsDigits digits) :
    (cutSign (sign ++ (digits ++ rest))).2 = digits ++ rest := by
  obtain ⟨notNil, all⟩ := isDigits
  obtain ⟨first, others, rfl⟩ := List.exists_cons_of_ne_nil notNil
  have digit := all first List.mem_cons_self
  rcases isSign with rfl | rfl | rfl
  · have noPlus : first ≠ Ascii.plus := by
      rintro rfl
      exact absurd digit (by decide)
    rw [List.nil_append, List.cons_append, cutSign,
      if_neg (Decimal.ne_minus_of_isDigit digit), if_neg noPlus]
  · rfl
  · rfl

theorem cutExponent_append {word : Bytes} (isExponent : IsExponent word)
    (stops : Stops Ascii.isDigit rest) (noLetter : Stops isExponentByte rest) :
    ∃ exponent, cutExponent (word ++ rest) = .ok (exponent, rest) ∧
      (exponent = none ↔ word = []) := by
  cases isExponent with
  | none => exact ⟨none, cutExponent_of_stops noLetter, iff_of_true rfl rfl⟩
  | @some letter sign digits isLetter isSign isDigits =>
      have behind := @cutSign_append rest sign digits isSign isDigits
      refine ⟨some ((cutSign (sign ++ (digits ++ rest))).1, digits), ?_,
        by simp only [reduceCtorEq]⟩
      rw [List.cons_append, cutExponent, if_pos isLetter, List.append_assoc]
      simp only [behind, cutDigits_append isDigits stops]
      rfl

/-- A minus is taken off a whole part. -/
theorem cutMinus_append {minus whole : Bytes} (isMinus : minus = [] ∨ minus = [Ascii.minus])
    (isWhole : IsWhole whole) :
    cutMinus (minus ++ (whole ++ rest)) = (!minus.isEmpty, whole ++ rest) := by
  obtain ⟨⟨notNil, all⟩, -⟩ := isWhole
  obtain ⟨first, others, rfl⟩ := List.exists_cons_of_ne_nil notNil
  rcases isMinus with rfl | rfl
  · rw [List.nil_append, List.cons_append, cutMinus,
      if_neg (Decimal.ne_minus_of_isDigit (all first List.mem_cons_self))]
    rfl
  · rfl

/-- The rest of a number begins with no digit behind its whole part, and with no dot behind its
fraction. -/
theorem stops_exponent {exponent : Bytes} (isExponent : IsExponent exponent) :
    Stops Ascii.isDigit exponent ∧ Stops (· == Ascii.dot) exponent := by
  cases isExponent with
  | none => exact ⟨Ascii.stops_nil, Ascii.stops_nil⟩
  | some isLetter _ _ =>
      rcases isLetter with rfl | rfl
      · exact ⟨Ascii.stops_cons.mpr (by decide), Ascii.stops_cons.mpr (by decide)⟩
      · exact ⟨Ascii.stops_cons.mpr (by decide), Ascii.stops_cons.mpr (by decide)⟩

theorem stops_fraction {fraction exponent : Bytes} (isFraction : IsFraction fraction)
    (isExponent : IsExponent exponent) : Stops Ascii.isDigit (fraction ++ exponent) := by
  cases isFraction with
  | none => exact (stops_exponent isExponent).1
  | some _ => exact Ascii.stops_cons.mpr (by decide)

end

/-- **A number is read as a literal with its parts.** -/
theorem ofBytes?_of_parts {minus whole fraction exponent : Bytes}
    (isMinus : minus = [] ∨ minus = [Ascii.minus]) (isWhole : IsWhole whole)
    (isFraction : IsFraction fraction) (isExponent : IsExponent exponent) :
    ∃ fraction? exponent?,
      ofBytes? (minus ++ (whole ++ (fraction ++ exponent))) =
        some ⟨!minus.isEmpty, whole, fraction?, exponent?⟩ ∧
      (fraction? = none ↔ fraction = []) ∧ (exponent? = none ↔ exponent = []) := by
  obtain ⟨stops, noDot⟩ := stops_exponent isExponent
  obtain ⟨fraction?, cutFraction, noFraction⟩ := cutFraction_append isFraction stops noDot
  obtain ⟨exponent?, cutExponent, noExponent⟩ :=
    @cutExponent_append [] exponent isExponent Ascii.stops_nil Ascii.stops_nil
  refine ⟨fraction?, exponent?, ?_, noFraction, noExponent⟩
  rw [List.append_nil] at cutExponent
  rw [ofBytes?_eq_some_iff, cut, cutMinus_append isMinus isWhole]
  simp only [cutWhole_append isWhole (stops_fraction isFraction isExponent), cutFraction,
    cutExponent, bind, Except.bind]
  rfl

/-- An integer is a literal without fraction and exponent. -/
theorem ofBytes?_of_isWhole {minus whole : Bytes} (isMinus : minus = [] ∨ minus = [Ascii.minus])
    (isWhole : IsWhole whole) :
    ofBytes? (minus ++ whole) = some ⟨!minus.isEmpty, whole, none, none⟩ := by
  obtain ⟨fraction?, exponent?, read, noFraction, noExponent⟩ :=
    ofBytes?_of_parts isMinus isWhole .none .none
  rw [noFraction.mpr rfl, noExponent.mpr rfl, List.append_nil, List.append_nil] at read
  exact read

end NumberLiteral

/-! ## Tokens of numbers -/

open Json (IsInteger IsDouble IsNumber)

/-- **A word has the token of an integer or of a double exactly if it is one in the grammar.** -/
theorem numberToken?_eq_some_iff {word : Bytes} {token : Token} :
    numberToken? word = some token ↔
      (IsInteger word ∧ token = .integer) ∨ (IsDouble word ∧ token = .double) := by
  constructor
  · intro known
    obtain ⟨literal, read, rfl⟩ := Option.map_eq_some_iff.mp known
    have isNumber := NumberLiteral.isNumber_of_ofBytes? read
    by_cases integer : literal.isInteger = true
    · rw [if_pos integer] at isNumber
      exact .inl ⟨isNumber, if_pos integer⟩
    · rw [if_neg integer] at isNumber
      exact .inr ⟨isNumber, if_neg integer⟩
  · rintro (⟨⟨isMinus, isWhole⟩, rfl⟩ | ⟨⟨isMinus, isWhole, isFraction, isExponent, further⟩, rfl⟩)
    · rw [numberToken?, NumberLiteral.ofBytes?_of_isWhole isMinus isWhole]
      rfl
    · obtain ⟨fraction?, exponent?, read, noFraction, noExponent⟩ :=
        NumberLiteral.ofBytes?_of_parts isMinus isWhole isFraction isExponent
      rw [numberToken?, read, Option.map_some, if_neg]
      rw [NumberLiteral.isInteger, Bool.and_eq_true, Option.isNone_iff_eq_none,
        Option.isNone_iff_eq_none, noFraction, noExponent]
      exact Classical.not_and_iff_not_or_not.mpr further

/-- Words outside the grammar have no token. -/
theorem numberToken?_eq_none_iff {word : Bytes} : numberToken? word = none ↔ ¬ IsNumber word := by
  rw [Json.isNumber_iff, Option.eq_none_iff_forall_ne_some]
  constructor
  · rintro noToken (isInteger | isDouble)
    · exact noToken .integer (numberToken?_eq_some_iff.mpr (.inl ⟨isInteger, rfl⟩))
    · exact noToken .double (numberToken?_eq_some_iff.mpr (.inr ⟨isDouble, rfl⟩))
  · intro outside token known
    exact outside ((numberToken?_eq_some_iff.mp known).imp And.left And.left)

end ChatCodec
