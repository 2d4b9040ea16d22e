import ChatCodec.Lexer.Scanned
import ChatCodec.Proofs.Decimal
import ChatCodec.Proofs.Successes
import ChatCodec.Proofs.Text.Munch

/-!
# What follows a number literal

Each part of a literal takes bytes of numbers off the front, and takes the same ones
whatever else stands in the place of what followed, as long as this begins alike or does not
begin with a byte of a number (`NumberLiteral.Takes`).  Put together, a literal is cut off
just as it is read by itself (`NumberLiteral.takes_of_cut`, `NumberLiteral.cut_append`).

A printed integer is a literal without fraction and exponent
(`NumberLiteral.ofBytes?_ofInt`).
-/

namespace ChatCodec

set_option autoImplicit false

open Ascii (Stops)

/-- What may stand in the place of `rest` behind a number: something that begins alike, or
that does not go on with a number. -/
def Replaces (other rest : Bytes) : Prop :=
  other.head? = rest.head? ∨ Stops isNumberByte other

namespace Replaces

variable {other rest : Bytes}

theorem of_stops (stops : Stops isNumberByte other) : Replaces other rest := .inr stops

theorem append (replaces : Replaces other rest) (word : Bytes) :
    Replaces (word ++ other) (word ++ rest) := by
  cases word with
  | nil => exact replaces
  | cons byte word => exact .inl rfl

/-- A class of bytes of numbers that stops before the one stops before the other. -/
theorem stops (replaces : Replaces other rest) {inClass : UInt8 → Bool}
    (within : ∀ byte, inClass byte = true → isNumberByte byte = true)
    (stopped : Stops inClass rest) : Stops inClass other := by
  rcases replaces with alike | ends
  · intro byte isIn
    rw [alike] at isIn
    exact stopped byte isIn
  · exact ends.mono within

end Replaces

theorem isNumberByte_of_isDigit (byte : UInt8) (digit : Ascii.isDigit byte = true) :
    isNumberByte byte = true := by
  simp only [isNumberByte, Ascii.isAlphanumeric, digit, Bool.or_true, Bool.true_or]

theorem isNumberByte_of_eq {byte : UInt8} (other : UInt8) (isNumber : isNumberByte other = true)
    (same : (byte == other) = true) : isNumberByte byte = true := by
  rw [beq_iff_eq] at same
  rw [same, isNumber]

namespace NumberLiteral

variable {Part : Type}

/-- A cutter takes a word off the front, whatever replaces what follows. -/
structure Takes (cutter : Bytes → Except Bytes (Part × Bytes)) (part : Part)
    (word rest : Bytes) : Prop where
  all : ∀ byte ∈ word, isNumberByte byte = true
  local_ : ∀ other, Replaces other rest → cutter (word ++ other) = .ok (part, other)

/-! ## The parts -/

theorem takes_of_cutDigits {bytes digits rest : Bytes}
    (cutOff : cutDigits bytes = .ok (digits, rest)) :
    bytes = digits ++ rest ∧ digits ≠ [] ∧ Takes cutDigits digits digits rest := by
  cases bytes with
  | nil => cases cutOff
  | cons byte following =>
      rw [cutDigits] at cutOff
      by_cases digit : Ascii.isDigit byte = true
      · rw [if_pos digit] at cutOff
        cases cutOff
        refine ⟨?_, List.cons_ne_nil _ _, ?_, ?_⟩
        · rw [List.cons_append, List.takeWhile_append_dropWhile]
        · intro other isIn
          rcases List.mem_cons.mp isIn with rfl | inRun
          · exact isNumberByte_of_isDigit other digit
          · exact isNumberByte_of_isDigit other (Ascii.all_of_mem_takeWhile other inRun)
        · intro other replaces
          have stopped := replaces.stops isNumberByte_of_isDigit (Ascii.stops_dropWhile following)
          rw [List.cons_append, cutDigits, if_pos digit,
            Ascii.takeWhile_append Ascii.all_of_mem_takeWhile stopped,
            Ascii.dropWhile_append Ascii.all_of_mem_takeWhile stopped]
      · rw [if_neg digit] at cutOff
        cases cutOff

theorem takes_of_cutWhole {bytes whole rest : Bytes}
    (cutOff : cutWhole bytes = .ok (whole, rest)) :
    bytes = whole ++ rest ∧ whole ≠ [] ∧ Takes cutWhole whole whole rest := by
  cases bytes with
  | nil => cases cutOff
  | cons byte following =>
      rw [cutWhole.eq_def] at cutOff
      simp only at cutOff
      by_cases zero : byte = Ascii.zero
      · rw [if_pos zero] at cutOff
        subst zero
        have alone : whole = [Ascii.zero] ∧ rest = following ∧ Stops Ascii.isDigit following := by
          cases following with
          | nil =>
              cases cutOff
              exact ⟨rfl, rfl, Ascii.stops_nil⟩
          | cons next following =>
              simp only at cutOff
              by_cases digit : Ascii.isDigit next = true
              · rw [if_pos digit] at cutOff
                cases cutOff
              · rw [if_neg digit] at cutOff
                cases cutOff
                rw [Bool.not_eq_true] at digit
                exact ⟨rfl, rfl, Ascii.stops_cons.mpr digit⟩
        obtain ⟨rfl, rfl, stopped⟩ := alone
        refine ⟨rfl, List.cons_ne_nil _ _, List.forall_mem_singleton.mpr (by decide), ?_⟩
        intro other replaces
        have stops := replaces.stops isNumberByte_of_isDigit stopped
        rw [List.singleton_append, cutWhole.eq_def]
        simp only [if_true]
        cases other with
        | nil => rfl
        | cons next other =>
            simp only [Ascii.stops_cons.mp stops, Bool.false_eq_true, if_false]
      · rw [if_neg zero] at cutOff
        obtain ⟨same, notNil, all, local_⟩ := takes_of_cutDigits cutOff
        refine ⟨same, notNil, all, ?_⟩
        intro other replaces
        have byDigits := local_ other replaces
        obtain ⟨first, digits, rfl⟩ := List.exists_cons_of_ne_nil notNil
        rw [List.cons_append] at same byDigits ⊢
        rw [← (List.cons.inj same).1] at byDigits ⊢
        rw [cutWhole.eq_def]
        simp only [if_neg zero]
        exact byDigits

/-- Without a dot there is no fraction. -/
theorem cutFraction_of_stops {bytes : Bytes} (stops : Stops (· == Ascii.dot) bytes) :
    cutFraction bytes = .ok (none, bytes) := by
  cases bytes with
  | nil => rfl
  | cons byte rest => rw [cutFraction, if_neg stops.ne]

theorem takes_of_cutFraction {bytes rest : Bytes} {fraction : Option Bytes}
    (cutOff : cutFraction bytes = .ok (fraction, rest)) :
    ∃ word, bytes = word ++ rest ∧ Takes cutFraction fraction word rest ∧
      (fraction = none → word = []) := by
  have noDot : ∀ byte, (byte == Ascii.dot) = true → isNumberByte byte = true :=
    fun byte => isNumberByte_of_eq Ascii.dot (by decide)
  cases bytes with
  | nil =>
      cases cutOff
      refine ⟨[], rfl, ⟨fun _ isIn => (List.not_mem_nil isIn).elim, ?_⟩, fun _ => rfl⟩
      intro other replaces
      exact cutFraction_of_stops (replaces.stops noDot Ascii.stops_nil)
  | cons byte following =>
      rw [cutFraction] at cutOff
      by_cases dot : byte = Ascii.dot
      · rw [if_pos dot] at cutOff
        obtain ⟨⟨digits, behind⟩, cutDigits, same⟩ := map_eq_ok_iff.mp cutOff
        cases same
        obtain ⟨rfl, -, all, local_⟩ := takes_of_cutDigits cutDigits
        refine ⟨byte :: digits, rfl, ⟨?_, ?_⟩, fun none => by cases none⟩
        · intro other isIn
          rcases List.mem_cons.mp isIn with rfl | inDigits
          · rw [dot]
            decide
          · exact all other inDigits
        · intro other replaces
          rw [List.cons_append, cutFraction, if_pos dot, local_ other replaces]
          rfl
      · rw [if_neg dot] at cutOff
        cases cutOff
        refine ⟨[], rfl, ⟨fun _ isIn => (List.not_mem_nil isIn).elim, ?_⟩, fun _ => rfl⟩
        intro other replaces
        exact cutFraction_of_stops (replaces.stops noDot (Ascii.stops_of_ne dot))

/-- A sign is taken off whatever begins alike behind it. -/
theorem cutSign_local (bytes : Bytes) :
    ∃ sign, bytes = sign ++ (cutSign bytes).2 ∧ (∀ byte ∈ sign, isNumberByte byte = true) ∧
      ∀ other, other.head? = (cutSign bytes).2.head? →
        cutSign (sign ++ other) = ((cutSign bytes).1, other) := by
  cases bytes with
  | nil =>
      refine ⟨[], rfl, fun _ isIn => (List.not_mem_nil isIn).elim, ?_⟩
      intro other alike
      rw [List.head?_eq_none_iff.mp alike]
      rfl
  | cons byte rest =>
      by_cases minus : byte = Ascii.minus
      · subst minus
        exact ⟨[Ascii.minus], rfl, List.forall_mem_singleton.mpr (by decide), fun other _ => rfl⟩
      by_cases plus : byte = Ascii.plus
      · subst plus
        exact ⟨[Ascii.plus], rfl, List.forall_mem_singleton.mpr (by decide), fun other _ => rfl⟩
      have whole : cutSign (byte :: rest) = (false, byte :: rest) := by
        rw [cutSign, if_neg minus, if_neg plus]
      rw [whole]
      refine ⟨[], rfl, fun _ isIn => (List.not_mem_nil isIn).elim, ?_⟩
      intro other alike
      obtain ⟨tail, rfl⟩ : ∃ tail, other = byte :: tail := by
        cases other with
        | nil => cases alike
        | cons first tail => exact ⟨tail, by rw [Option.some.inj alike]⟩
      rw [List.nil_append, cutSign, if_neg minus, if_neg plus]

/-- A minus is taken off whatever begins alike behind it. -/
theorem cutMinus_local (bytes : Bytes) :
    bytes = (if (cutMinus bytes).1 then [Ascii.minus] else []) ++ (cutMinus bytes).2 ∧
      ∀ other, other.head? = (cutMinus bytes).2.head? →
        cutMinus ((if (cutMinus bytes).1 then [Ascii.minus] else []) ++ other) =
          ((cutMinus bytes).1, other) := by
  cases bytes with
  | nil =>
      refine ⟨rfl, ?_⟩
      intro other alike
      rw [List.head?_eq_none_iff.mp alike]
      rfl
  | cons byte rest =>
      by_cases minus : byte = Ascii.minus
      · subst minus
        exact ⟨rfl, fun other _ => rfl⟩
      have whole : cutMinus (byte :: rest) = (false, byte :: rest) := by
        rw [cutMinus, if_neg minus]
      rw [whole]
      refine ⟨rfl, ?_⟩
      intro other alike
      obtain ⟨tail, rfl⟩ : ∃ tail, other = byte :: tail := by
        cases other with
        | nil => cases alike
        | cons first tail => exact ⟨tail, by rw [Option.some.inj alike]⟩
      rw [if_neg Bool.false_ne_true, List.nil_append, cutMinus, if_neg minus]

/-- Whether a byte introduces an exponent. -/
def isExponentByte (byte : UInt8) : Bool := byte == 0x65 || byte == 0x45

theorem isExponentByte_iff (byte : UInt8) :
    isExponentByte byte = true ↔ byte = 0x65 ∨ byte = 0x45 := by
  rw [isExponentByte, Bool.or_eq_true, beq_iff_eq, beq_iff_eq]

theorem isNumberByte_of_isExponentByte (byte : UInt8) (letter : isExponentByte byte = true) :
    isNumberByte byte = true := by
  rcases (isExponentByte_iff byte).mp letter with rfl | rfl <;> decide

/-- Without the letter E there is no exponent. -/
theorem cutExponent_of_stops {bytes : Bytes} (stops : Stops isExponentByte bytes) :
    cutExponent bytes = .ok (none, bytes) := by
  cases bytes with
  | nil => rfl
  | cons byte rest =>
      have differs : ¬ (byte = 0x65 ∨ byte = 0x45) := by
        rw [← isExponentByte_iff, Ascii.stops_cons.mp stops]
        decide
      rw [cutExponent, if_neg differs]

theorem takes_of_cutExponent {bytes rest : Bytes} {exponent : Option (Bool × Bytes)}
    (cutOff : cutExponent bytes = .ok (exponent, rest)) :
    ∃ word, bytes = word ++ rest ∧ Takes cutExponent exponent word rest ∧
      (exponent = none → word = []) := by
  cases bytes with
  | nil =>
      cases cutOff
      refine ⟨[], rfl, ⟨fun _ isIn => (List.not_mem_nil isIn).elim, ?_⟩, fun _ => rfl⟩
      intro other replaces
      exact cutExponent_of_stops (replaces.stops isNumberByte_of_isExponentByte Ascii.stops_nil)
  | cons byte following =>
      rw [cutExponent] at cutOff
      by_cases letter : byte = 0x65 ∨ byte = 0x45
      · rw [if_pos letter] at cutOff
        obtain ⟨sign, same, signNumeric, signLocal⟩ := cutSign_local following
        revert cutOff same signLocal
        generalize cutSign following = signed
        obtain ⟨negative, unsigned⟩ := signed
        intro cutOff same signLocal
        obtain ⟨⟨digits, behind⟩, cutDigits, whole⟩ := map_eq_ok_iff.mp cutOff
        cases whole
        obtain ⟨rfl, notNil, all, local_⟩ := takes_of_cutDigits cutDigits
        refine ⟨byte :: (sign ++ digits), ?_, ⟨?_, ?_⟩, fun none => by cases none⟩
        · rw [same, List.cons_append, List.append_assoc]
        · intro other isIn
          rcases List.mem_cons.mp isIn with rfl | inRest
          · exact isNumberByte_of_isExponentByte other ((isExponentByte_iff other).mpr letter)
          · rcases List.mem_append.mp inRest with inSign | inDigits
            · exact signNumeric other inSign
            · exact all other inDigits
        · intro other replaces
          have alike : (digits ++ other).head? = (digits ++ rest).head? := by
            obtain ⟨first, others, rfl⟩ := List.exists_cons_of_ne_nil notNil
            rfl
          rw [List.cons_append, cutExponent, if_pos letter, List.append_assoc,
            signLocal (digits ++ other) alike]
          simp only [local_ other replaces]
          rfl
      · rw [if_neg letter] at cutOff
        cases cutOff
        refine ⟨[], rfl, ⟨fun _ isIn => (List.not_mem_nil isIn).elim, ?_⟩, fun _ => rfl⟩
        intro other replaces
        refine cutExponent_of_stops
          (replaces.stops isNumberByte_of_isExponentByte (Ascii.stops_cons.mpr ?_))
        rw [← Bool.not_eq_true, isExponentByte_iff]
        exact letter

/-! ## Whole literals -/

/-- **A literal that is cut off is a word of its own**, which is taken whatever replaces what
follows.  Without fraction and exponent it is a sign and the whole part. -/
theorem takes_of_cut {bytes rest : Bytes} {literal : NumberLiteral}
    (cutOff : cut bytes = .ok (literal, rest)) :
    ∃ word, bytes = word ++ rest ∧ word ≠ [] ∧ Takes cut literal word rest ∧
      (literal.isInteger = true →
        word = (if literal.negative then [Ascii.minus] else []) ++ literal.whole) := by
  obtain ⟨same, minusLocal⟩ := cutMinus_local bytes
  rw [cut] at cutOff
  revert cutOff same minusLocal
  generalize cutMinus bytes = signed
  obtain ⟨negative, unsigned⟩ := signed
  intro cutOff same minusLocal
  obtain ⟨⟨whole, behindWhole⟩, cutWhole, cutOff⟩ := bind_eq_ok_iff.mp cutOff
  obtain ⟨⟨fraction, behindFraction⟩, cutFraction, cutOff⟩ := bind_eq_ok_iff.mp cutOff
  obtain ⟨⟨exponent, behind⟩, cutExponent, cutOff⟩ := bind_eq_ok_iff.mp cutOff
  cases cutOff
  obtain ⟨rfl, notNil, allWhole, localWhole⟩ := takes_of_cutWhole cutWhole
  obtain ⟨point, rfl, ⟨allPoint, localPoint⟩, noPoint⟩ := takes_of_cutFraction cutFraction
  obtain ⟨power, rfl, ⟨allPower, localPower⟩, noPower⟩ := takes_of_cutExponent cutExponent
  simp only at same minusLocal
  generalize minus : (if negative = true then [Ascii.minus] else []) = sign at same minusLocal
  refine ⟨sign ++ (whole ++ (point ++ power)), ?_, ?_, ⟨?_, ?_⟩, ?_⟩
  · rw [same]
    simp only [List.append_assoc]
  · intro empty
    exact notNil (List.append_eq_nil_iff.mp (List.append_eq_nil_iff.mp empty).2).1
  · have allSign : ∀ byte ∈ sign, isNumberByte byte = true := by
      rw [← minus]
      cases negative with
      | true => exact List.forall_mem_singleton.mpr (by decide)
      | false =>
          intro byte isIn
          cases isIn
    intro byte isIn
    simp only [List.mem_append] at isIn
    rcases isIn with inSign | inWhole | inPoint | inPower
    · exact allSign byte inSign
    · exact allWhole byte inWhole
    · exact allPoint byte inPoint
    · exact allPower byte inPower
  · intro other replaces
    have alike : (whole ++ (point ++ (power ++ other))).head? =
        (whole ++ (point ++ (power ++ rest))).head? := by
      obtain ⟨first, others, rfl⟩ := List.exists_cons_of_ne_nil notNil
      rfl
    simp only [List.append_assoc]
    rw [cut, minusLocal _ alike]
    simp only [localWhole _ ((replaces.append power).append point)]
    simp only [localPoint _ (replaces.append power), localPower _ replaces, bind, Except.bind]
    rfl
  · intro integer
    simp only [isInteger, Bool.and_eq_true, Option.isNone_iff_eq_none] at integer
    rw [noPoint integer.1, noPower integer.2, List.append_nil, List.append_nil, ← minus]

/-- A literal begins with a minus or a digit. -/
theorem begins_of_cut {byte : UInt8} {rest : Bytes} {result : NumberLiteral × Bytes}
    (cutOff : cut (byte :: rest) = .ok result) :
    (byte == Ascii.minus || Ascii.isDigit byte) = true := by
  by_cases minus : byte = Ascii.minus
  · rw [minus]
    decide
  rw [cut, cutMinus, if_neg minus] at cutOff
  obtain ⟨⟨whole, behind⟩, cutWhole, -⟩ := bind_eq_ok_iff.mp cutOff
  rw [NumberLiteral.cutWhole.eq_def] at cutWhole
  simp only at cutWhole
  by_cases zero : byte = Ascii.zero
  · rw [zero]
    decide
  · rw [if_neg zero, cutDigits] at cutWhole
    by_cases digit : Ascii.isDigit byte = true
    · rw [digit, Bool.or_true]
    · rw [if_neg digit] at cutWhole
      cases cutWhole

theorem ofBytes?_eq_some_iff {word : Bytes} {literal : NumberLiteral} :
    ofBytes? word = some literal ↔ cut word = .ok (literal, []) := by
  rw [ofBytes?]
  constructor
  · intro read
    split at read
    · next found => cases read; exact found
    · cases read
  · intro cutOff
    rw [cutOff]

/-- The bytes of a literal, of which there is at least one. -/
theorem exists_cons_of_ofBytes? {word : Bytes} {literal : NumberLiteral}
    (read : ofBytes? word = some literal) :
    ∃ byte rest, word = byte :: rest ∧ (byte == Ascii.minus || Ascii.isDigit byte) = true ∧
      ∀ other ∈ word, isNumberByte other = true := by
  have cutOff := ofBytes?_eq_some_iff.mp read
  obtain ⟨word', same, notNil, taken, -⟩ := takes_of_cut cutOff
  rw [List.append_nil] at same
  subst same
  obtain ⟨byte, rest, rfl⟩ := List.exists_cons_of_ne_nil notNil
  exact ⟨byte, rest, rfl, begins_of_cut cutOff, taken.all⟩

/-- A literal without fraction and exponent is a sign and the whole part. -/
theorem eq_of_isInteger {word : Bytes} {literal : NumberLiteral}
    (read : ofBytes? word = some literal) (integer : literal.isInteger = true) :
    word = (if literal.negative then [Ascii.minus] else []) ++ literal.whole := by
  obtain ⟨word', same, -, -, parts⟩ := takes_of_cut (ofBytes?_eq_some_iff.mp read)
  rw [List.append_nil] at same
  rw [same]
  exact parts integer

/-- **A literal is cut off from what does not go on with a number.** -/
theorem cut_append {word rest : Bytes} {literal : NumberLiteral}
    (read : ofBytes? word = some literal) (stops : Stops isNumberByte rest) :
    cut (word ++ rest) = .ok (literal, rest) := by
  obtain ⟨word', same, -, taken, -⟩ := takes_of_cut (ofBytes?_eq_some_iff.mp read)
  rw [List.append_nil] at same
  rw [same]
  exact taken.local_ rest (.of_stops stops)

/-! ## Printed integers -/

theorem cutWhole_ofNat (number : Nat) :
    cutWhole (Decimal.ofNat number) = .ok (Decimal.ofNat number, []) := by
  obtain ⟨first, rest, same, digit⟩ := Decimal.ofNat_eq_cons number
  have digits : ∀ byte ∈ rest, Ascii.isDigit byte = true := by
    intro byte isIn
    refine Decimal.isDigit_of_mem_ofNat byte (?_ : byte ∈ Decimal.ofNat number)
    rw [same]
    exact List.mem_cons_of_mem first isIn
  rw [same, cutWhole.eq_def]
  simp only
  by_cases zero : first = Ascii.zero
  · rw [zero] at same
    rw [if_pos zero, Decimal.eq_nil_of_ofNat_eq_zero_cons same]
  · have takes := Ascii.takeWhile_append digits Ascii.stops_nil
    have drops := Ascii.dropWhile_append digits Ascii.stops_nil
    rw [List.append_nil] at takes drops
    rw [if_neg zero, cutDigits, if_pos digit, takes, drops]

/-- **A printed integer is a literal** without fraction and exponent. -/
theorem ofBytes?_ofInt (number : Int) :
    ofBytes? (Decimal.ofInt number) =
      some ⟨decide (number < 0), Decimal.ofNat number.natAbs, none, none⟩ := by
  rw [ofBytes?_eq_some_iff, cut, Decimal.ofInt]
  by_cases negative : number < 0
  · rw [if_pos negative, cutMinus, if_pos rfl]
    simp only [cutWhole_ofNat, bind, Except.bind, cutFraction, cutExponent, negative, decide_true]
    rfl
  · obtain ⟨first, rest, same, digit⟩ := Decimal.ofNat_eq_cons number.natAbs
    have unsigned : cutMinus (Decimal.ofNat number.natAbs) = (false, Decimal.ofNat number.natAbs) := by
      rw [same, cutMinus, if_neg (Decimal.ne_minus_of_isDigit digit)]
    rw [if_neg negative, unsigned]
    simp only [cutWhole_ofNat, bind, Except.bind, cutFraction, cutExponent, negative, decide_false]
    rfl

end NumberLiteral

end ChatCodec
