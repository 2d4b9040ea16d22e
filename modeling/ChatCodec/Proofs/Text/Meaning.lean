import ChatCodec.Proofs.Text.Wellformed

/-!
# What a string literal means

The bytes between the quotes of a literal are a sequence of units, and `Means` says what such a
sequence stands for, unit by unit.  A raw byte stands for itself and an escape for its character.
A leading surrogate directly followed by a trailing one is the character of the pair, and any
other surrogate is one replacement character, whatever comes next.

The scan of a text agrees with this on both counts.  It comes to a closing quote behind exactly the
bytes that are such a sequence (`TextScan.closed_iff`), and the units it finds spell the meaning
(`Means.exists_units`); every sequence has one (`IsStringBody.exists_means`).

Two facts about the meaning follow.  It is UTF-8 exactly if the bytes of the literal are
(`Means.isText_iff`): every escape starts with an ASCII byte and every character with an ASCII or a
leading byte, so neither can go on with a character that raw bytes have begun.  And it does not
depend on how a character is spelled (`exists_spell_respelled`).
-/

namespace ChatCodec

set_option autoImplicit false

open TextUnit (isLeading isTrailing spell)
open TextScan (IsText)

/-! ## Units and their meaning -/

/-- The letters that have an escape, with the bytes that their escapes stand for. -/
def letterEscapes : List (UInt8 × UInt8) :=
  [(Ascii.quote, Ascii.quote), (Ascii.backslash, Ascii.backslash), (Ascii.slash, Ascii.slash),
    (0x62, Ascii.backspace), (0x66, Ascii.formFeed), (0x6E, Ascii.lineFeed),
    (0x72, Ascii.carriageReturn), (0x74, Ascii.tab)]

/-- A hexadecimal digit of either case, and its value. -/
inductive IsHexDigit : UInt8 → Nat → Prop where
  | digit {byte : UInt8} (least : 0x30 ≤ byte.toNat) (greatest : byte.toNat ≤ 0x39) :
      IsHexDigit byte (byte.toNat - 0x30)
  | lower {byte : UInt8} (least : 0x61 ≤ byte.toNat) (greatest : byte.toNat ≤ 0x66) :
      IsHexDigit byte (byte.toNat - 0x61 + 10)
  | upper {byte : UInt8} (least : 0x41 ≤ byte.toNat) (greatest : byte.toNat ≤ 0x46) :
      IsHexDigit byte (byte.toNat - 0x41 + 10)

/-- The six bytes of a `\u` escape, and its code unit. -/
inductive IsCodeEscape : Bytes → Nat → Prop where
  | mk {first second third fourth : UInt8} {a b c d : Nat} (isFirst : IsHexDigit first a)
      (isSecond : IsHexDigit second b) (isThird : IsHexDigit third c)
      (isFourth : IsHexDigit fourth d) :
      IsCodeEscape [Ascii.backslash, TextUnit.unicodeLetter, first, second, third, fourth]
        (((a * 16 + b) * 16 + c) * 16 + d)

/-- One unit of a text. -/
inductive IsUnit : Bytes → Prop where
  | raw {byte : UInt8} (isRaw : Ascii.IsRaw byte) : IsUnit [byte]
  | letter {letter value : UInt8} (known : (letter, value) ∈ letterEscapes) :
      IsUnit [Ascii.backslash, letter]
  | code {escape : Bytes} {unit : Nat} (isCode : IsCodeEscape escape unit) : IsUnit escape

/-- Bytes that are a sequence of units. -/
def IsUnits (body : Bytes) : Prop :=
  ∃ units : List Bytes, (∀ unit ∈ units, IsUnit unit) ∧ body = units.flatten

/-- The escapes of a character. -/
inductive CharEscape : Bytes → Char → Prop where
  | letter {letter value : UInt8} (known : (letter, value) ∈ letterEscapes) :
      CharEscape [Ascii.backslash, letter] (Char.ofUInt8 value)
  /-- A code unit that is no surrogate. -/
  | code {escape : Bytes} {unit : Nat} (isCode : IsCodeEscape escape unit)
      (noSurrogate : unit < 0xD800 ∨ 0xE000 ≤ unit) : CharEscape escape (Char.ofNat unit)
  /-- A leading surrogate directly followed by a trailing one. -/
  | pair {escape other : Bytes} {leading trailing : Nat} (isCode : IsCodeEscape escape leading)
      (leads : 0xD800 ≤ leading ∧ leading < 0xDC00) (isOther : IsCodeEscape other trailing)
      (trails : 0xDC00 ≤ trailing ∧ trailing < 0xE000) :
      CharEscape (escape ++ other)
        (Char.ofNat (0x10000 + (leading - 0xD800) * 0x400 + (trailing - 0xDC00)))

/-- Bytes that begin with the escape of a trailing surrogate. -/
def BeginsTrailing (bytes : Bytes) : Prop :=
  ∃ escape trailing rest, IsCodeEscape escape trailing ∧
    (0xDC00 ≤ trailing ∧ trailing < 0xE000) ∧ bytes = escape ++ rest

/-- What the bytes between the quotes of a literal stand for. -/
inductive Means : Bytes → Bytes → Prop where
  | nil : Means [] []
  | raw {byte : UInt8} {rest meaning : Bytes} (isRaw : Ascii.IsRaw byte)
      (following : Means rest meaning) : Means (byte :: rest) (byte :: meaning)
  | escape {escape rest meaning : Bytes} {character : Char}
      (isEscape : CharEscape escape character) (following : Means rest meaning) :
      Means (escape ++ rest) (String.utf8EncodeChar character ++ meaning)
  /-- A surrogate outside a pair. -/
  | lone {escape rest meaning : Bytes} {unit : Nat} (isCode : IsCodeEscape escape unit)
      (surrogate : 0xD800 ≤ unit ∧ unit < 0xE000)
      (unpaired : unit < 0xDC00 → ¬ BeginsTrailing rest) (following : Means rest meaning) :
      Means (escape ++ rest) (String.utf8EncodeChar (Char.ofNat 0xFFFD) ++ meaning)

/-- A character as it stands, or one of its escapes. -/
def SpellsChar (character : Char) (spelling : Bytes) : Prop :=
  (spelling = String.utf8EncodeChar character ∧ ∀ byte ∈ spelling, Ascii.IsRaw byte) ∨
    CharEscape spelling character

/-! ## The units -/

theorem hexValue?_eq_some_iff {byte : UInt8} {value : Nat} :
    Ascii.hexValue? byte = some value ↔ IsHexDigit byte value := by
  have range : ∀ low high : UInt8, (decide (low ≤ byte) && decide (byte ≤ high)) = true ↔
      low.toNat ≤ byte.toNat ∧ byte.toNat ≤ high.toNat := fun low high => by
    simp only [Bool.and_eq_true, decide_eq_true_eq, UInt8.le_iff_toNat_le]
  simp only [Ascii.hexValue?, Ascii.isDigit_iff, range, UInt8.reduceToNat]
  constructor
  · intro found
    repeat' split at found
    · next fits => cases found; exact .digit fits.1 fits.2
    · next fits =>
        cases found
        rw [show byte.toNat - 0x57 = byte.toNat - 0x61 + 10 by omega]
        exact .lower fits.1 fits.2
    · next fits =>
        cases found
        rw [show byte.toNat - 0x37 = byte.toNat - 0x41 + 10 by omega]
        exact .upper fits.1 fits.2
    · cases found
  · intro isDigit
    cases isDigit with
    | digit least greatest => rw [if_pos ⟨least, greatest⟩]
    | lower least greatest =>
        rw [if_neg (by omega), if_pos ⟨least, greatest⟩, Option.some.injEq]
        omega
    | upper least greatest =>
        rw [if_neg (by omega), if_neg (by omega), if_pos ⟨least, greatest⟩, Option.some.injEq]
        omega

/-- The digits of an escape are read as its code unit. -/
theorem isCodeEscape_iff {escape : Bytes} {unit : Nat} :
    IsCodeEscape escape unit ↔ ∃ first second third fourth,
      escape = [Ascii.backslash, TextUnit.unicodeLetter, first, second, third, fourth] ∧
        Ascii.hexFour? first second third fourth = some unit := by
  simp only [Ascii.hexFour?, Option.bind_eq_bind, Option.bind_eq_some_iff, hexValue?_eq_some_iff,
    Option.some.injEq]
  constructor
  · rintro ⟨isFirst, isSecond, isThird, isFourth⟩
    exact ⟨_, _, _, _, rfl, _, isFirst, _, isSecond, _, isThird, _, isFourth, rfl⟩
  · rintro ⟨_, _, _, _, rfl, _, isFirst, _, isSecond, _, isThird, _, isFourth, rfl⟩
    exact .mk isFirst isSecond isThird isFourth

theorem letterEscapes_known {letter value : UInt8} (known : (letter, value) ∈ letterEscapes) :
    letter ≠ TextUnit.unicodeLetter ∧ TextUnit.ofLetter? letter = some value ∧
      letter ∈ [Ascii.quote, Ascii.backslash, Ascii.slash, 0x62, 0x66, 0x6E, 0x72, 0x74] ∧
      value.toNat < 0x80 ∧ letter.toNat < 0x80 := by
  simp only [letterEscapes, List.mem_cons, Prod.mk.injEq, List.not_mem_nil, or_false] at known
  rcases known with ⟨rfl, rfl⟩ | ⟨rfl, rfl⟩ | ⟨rfl, rfl⟩ | ⟨rfl, rfl⟩ | ⟨rfl, rfl⟩ | ⟨rfl, rfl⟩ |
    ⟨rfl, rfl⟩ | ⟨rfl, rfl⟩ <;> decide

theorem exists_letterEscape {letter : UInt8}
    (known : letter ∈ [Ascii.quote, Ascii.backslash, Ascii.slash, 0x62, 0x66, 0x6E, 0x72, 0x74]) :
    ∃ value, (letter, value) ∈ letterEscapes := by
  have letters : [Ascii.quote, Ascii.backslash, Ascii.slash, 0x62, 0x66, 0x6E, 0x72, 0x74] =
      letterEscapes.map Prod.fst := rfl
  rw [letters] at known
  obtain ⟨⟨_, value⟩, isIn, rfl⟩ := List.mem_map.mp known
  exact ⟨value, isIn⟩

theorem mem_letters_of_ofLetter? {letter value : UInt8}
    (known : TextUnit.ofLetter? letter = some value) :
    letter ∈ [Ascii.quote, Ascii.backslash, Ascii.slash, 0x62, 0x66, 0x6E, 0x72, 0x74] := by
  unfold TextUnit.ofLetter? at known
  repeat' split at known
  · next same => rcases same with rfl | rfl | rfl <;> decide
  all_goals first
    | cases known; done
    | (next same => rw [same]; decide)

/-- **What the grammar of literals lets stand between the quotes is a sequence of units.** -/
theorem isStringBody_iff {body : Bytes} : IsStringBody body ↔ IsUnits body := by
  constructor
  · intro isBody
    -- one unit in front of those of the rest
    have behind : ∀ {unit rest : Bytes}, IsUnit unit → IsUnits rest → IsUnits (unit ++ rest) :=
      fun isUnit ⟨units, areUnits, same⟩ =>
        ⟨_ :: units, List.forall_mem_cons.mpr ⟨isUnit, areUnits⟩, by
          rw [same, List.flatten_cons]⟩
    induction isBody with
    | nil => exact ⟨[], List.forall_mem_nil _, rfl⟩
    | raw isRaw _ ih => exact behind (.raw isRaw) ih
    | letter known _ ih =>
        obtain ⟨value, isEscape⟩ := exists_letterEscape known
        exact behind (.letter isEscape) ih
    | code digits _ ih =>
        obtain ⟨unit, digits⟩ := Option.isSome_iff_exists.mp digits
        exact behind (.code (isCodeEscape_iff.mpr ⟨_, _, _, _, rfl, digits⟩)) ih
  · rintro ⟨units, areUnits, rfl⟩
    induction units with
    | nil => exact .nil
    | cons unit units ih =>
        obtain ⟨isUnit, others⟩ := List.forall_mem_cons.mp areUnits
        rw [List.flatten_cons]
        cases isUnit with
        | raw isRaw => exact .raw isRaw (ih others)
        | letter known => exact .letter (letterEscapes_known known).2.2.1 (ih others)
        | code isCode =>
            obtain ⟨_, _, _, _, rfl, digits⟩ := isCodeEscape_iff.mp isCode
            exact .code (by rw [digits]; rfl) (ih others)

/-- An ASCII byte is the one byte of its character. -/
theorem Utf8.encodeChar_ofUInt8 {byte : UInt8} (ascii : byte.toNat < 0x80) :
    String.utf8EncodeChar (Char.ofUInt8 byte) = [byte] := by
  have value : (Char.ofUInt8 byte).val.toNat = byte.toNat := rfl
  simp only [String.utf8EncodeChar, value, if_pos (by omega : byte.toNat ≤ 0x7F),
    UInt8.ofNat_toNat]

/-! ## Where the scan comes to a closing quote -/

namespace TextScan

/-- **A scan that comes to a closing quote has units behind it**, and nothing else. -/
theorem exists_isStringBody (bytes : Bytes) : ∀ {units : List TextUnit} {length : Nat},
    ofBytes bytes = ⟨units, .closed, length⟩ →
      ∃ body rest, bytes = body ++ Ascii.quote :: rest ∧ length = body.length + 1 ∧
        IsStringBody body := by
  -- One step for each kind of unit; the other cases end without a quote.
  have extend : ∀ (front : Bytes) {rest : Bytes} {unit : TextUnit} {units : List TextUnit}
      {length : Nat},
      (∀ {units : List TextUnit} {length : Nat}, ofBytes rest = ⟨units, .closed, length⟩ →
        ∃ body others, rest = body ++ Ascii.quote :: others ∧ length = body.length + 1 ∧
          IsStringBody body) →
      (∀ {body : Bytes}, IsStringBody body → IsStringBody (front ++ body)) →
      (ofBytes rest).behind unit front.length = ⟨units, .closed, length⟩ →
        ∃ body others, front ++ rest = body ++ Ascii.quote :: others ∧
          length = body.length + 1 ∧ IsStringBody body := by
    intro front rest unit units length ih isUnit scanned
    cases inner : ofBytes rest with
    | mk inside ending taken =>
        rw [inner] at scanned
        cases scanned
        obtain ⟨body, others, rfl, rfl, isBody⟩ := ih inner
        exact ⟨front ++ body, others, (List.append_assoc _ _ _).symm,
          by rw [List.length_append, Nat.add_assoc], isUnit isBody⟩
  fun_induction ofBytes bytes with
  | case2 rest =>
      intro units length scanned
      cases scanned
      exact ⟨[], rest, rfl, rfl, .nil⟩
  | case4 first second third fourth rest unit digits _ ih =>
      intro units length scanned
      exact extend [Ascii.backslash, TextUnit.unicodeLetter, first, second, third, fourth] ih
        (.code (by rw [digits]; rfl)) scanned
  | case7 letter rest notCode value known _ ih =>
      intro units length scanned
      exact extend [Ascii.backslash, letter] ih (.letter (mem_letters_of_ofLetter? known)) scanned
  | case10 byte rest notQuote notBackslash visible ih =>
      intro units length scanned
      rw [Ascii.isControl_iff, Nat.not_lt] at visible
      exact extend [byte] ih (.raw ⟨visible, notQuote, notBackslash⟩) scanned
  | _ => intro units length scanned; cases scanned

end TextScan

/-! ## The units of a piece of text -/

/-- The units that a piece of text is cut into, whatever text follows it. -/
structure HasUnits (piece : Bytes) (units : List TextUnit) : Prop where
  isText : ∀ {tail : Bytes} {following : List TextUnit}, IsText tail following →
    IsText (piece ++ tail) (units ++ following)

namespace HasUnits

theorem nil : HasUnits [] [] := ⟨fun isText => isText⟩

theorem append {piece other : Bytes} {units following : List TextUnit}
    (first : HasUnits piece units) (second : HasUnits other following) :
    HasUnits (piece ++ other) (units ++ following) := by
  refine ⟨fun isText => ?_⟩
  rw [List.append_assoc, List.append_assoc]
  exact first.isText (second.isText isText)

/-- A piece that the scan reads as one unit. -/
theorem one {piece : Bytes} {unit : TextUnit}
    (step : ∀ rest, TextScan.ofBytes (piece ++ rest) =
      (TextScan.ofBytes rest).behind unit piece.length) : HasUnits piece [unit] :=
  ⟨fun isText => isText.behind step⟩

theorem raw {byte : UInt8} (isRaw : Ascii.IsRaw byte) : HasUnits [byte] [.byte byte] := by
  have visible : Ascii.isControl byte = false := by
    rw [← Bool.not_eq_true, Ascii.isControl_iff, Nat.not_lt]
    exact isRaw.1
  exact one fun rest => TextScan.ofBytes_byte rest isRaw.2.1 isRaw.2.2 visible

theorem letter {letter value : UInt8} (known : (letter, value) ∈ letterEscapes) :
    HasUnits [Ascii.backslash, letter] [.byte value] := by
  obtain ⟨notCode, found, -⟩ := letterEscapes_known known
  exact one fun rest => TextScan.ofBytes_letter rest notCode found

theorem code {escape : Bytes} {unit : Nat} (isCode : IsCodeEscape escape unit) :
    HasUnits escape [.code unit] := by
  obtain ⟨_, _, _, _, rfl, digits⟩ := isCodeEscape_iff.mp isCode
  exact one fun rest => TextScan.ofBytes_code rest digits

theorem rawBytes : ∀ {bytes : Bytes}, (∀ byte ∈ bytes, Ascii.IsRaw byte) →
    HasUnits bytes (bytes.map .byte)
  | [], _ => nil
  | byte :: _, areRaw =>
      (raw (areRaw byte List.mem_cons_self)).append
        (rawBytes fun other isIn => areRaw other (List.mem_cons_of_mem byte isIn))

/-- With a closing quote behind them, the units are all there is. -/
theorem closed {body : Bytes} {units : List TextUnit} (hasUnits : HasUnits body units) :
    IsText (body ++ [Ascii.quote]) units := by
  have isText := hasUnits.isText TextScan.isText_quote
  rwa [List.append_nil] at isText

/-- In front of a closing quote, the scan finds the units and ends there. -/
theorem scan {body : Bytes} {units : List TextUnit} (hasUnits : HasUnits body units)
    (rest : Bytes) :
    TextScan.ofBytes (body ++ Ascii.quote :: rest) = ⟨units, .closed, body.length + 1⟩ := by
  have isText := hasUnits.closed rest
  rwa [List.append_assoc, List.singleton_append, List.length_append, List.length_singleton]
    at isText

end HasUnits

theorem IsUnit.exists_unit {piece : Bytes} (isUnit : IsUnit piece) :
    ∃ unit, HasUnits piece [unit] := by
  cases isUnit with
  | raw isRaw => exact ⟨_, .raw isRaw⟩
  | letter known => exact ⟨_, .letter known⟩
  | code isCode => exact ⟨_, .code isCode⟩

/-- **A sequence of units can be cut into units.** -/
theorem IsUnits.exists_units {body : Bytes} (areUnits : IsUnits body) :
    ∃ units, HasUnits body units := by
  obtain ⟨pieces, areUnits, rfl⟩ := areUnits
  induction pieces with
  | nil => exact ⟨[], .nil⟩
  | cons piece pieces ih =>
      obtain ⟨isUnit, others⟩ := List.forall_mem_cons.mp areUnits
      obtain ⟨unit, hasUnit⟩ := isUnit.exists_unit
      obtain ⟨units, hasUnits⟩ := ih others
      exact ⟨_, hasUnit.append hasUnits⟩

/-- **Exactly the sequences of units end where their closing quote stands.** -/
theorem TextScan.closed_iff (body rest : Bytes) :
    ((ofBytes (body ++ Ascii.quote :: rest)).ending = .closed ∧
        (ofBytes (body ++ Ascii.quote :: rest)).length = body.length + 1) ↔ IsUnits body := by
  constructor
  · rintro ⟨closed, length⟩
    cases scanned : ofBytes (body ++ Ascii.quote :: rest) with
    | mk units ending taken =>
        rw [scanned] at closed length
        subst closed
        obtain ⟨front, others, same, taken, isBody⟩ := exists_isStringBody _ scanned
        -- Both ways of dividing the bytes have the quote at the same place.
        have sameLength : body.length = front.length := Nat.succ.inj (length.symm.trans taken)
        rw [(List.append_inj same sameLength).1]
        exact isStringBody_iff.mp isBody
  · intro areUnits
    obtain ⟨units, hasUnits⟩ := areUnits.exists_units
    rw [hasUnits.scan rest]
    exact ⟨rfl, rfl⟩

/-- What can be cut into units is a sequence of units. -/
theorem HasUnits.isUnits {body : Bytes} {units : List TextUnit} (hasUnits : HasUnits body units) :
    IsUnits body := by
  refine (TextScan.closed_iff body []).mp ?_
  rw [hasUnits.scan []]
  exact ⟨rfl, rfl⟩

/-! ## What the units spell -/

namespace TextUnit

/-- The first unit is a trailing surrogate. -/
def LeadsOffTrailing (units : List TextUnit) : Prop :=
  ∃ trailing rest, isTrailing trailing = true ∧ units = .code trailing :: rest

theorem isLeading_iff {unit : Nat} : isLeading unit = true ↔ 0xD800 ≤ unit ∧ unit < 0xDC00 := by
  simp only [isLeading, Bool.and_eq_true, decide_eq_true_eq]

theorem isTrailing_iff {unit : Nat} :
    isTrailing unit = true ↔ 0xDC00 ≤ unit ∧ unit < 0xE000 := by
  simp only [isTrailing, Bool.and_eq_true, decide_eq_true_eq]

theorem surrogate_iff {unit : Nat} :
    (isLeading unit || isTrailing unit) = true ↔ 0xD800 ≤ unit ∧ unit < 0xE000 := by
  rw [Bool.or_eq_true, isLeading_iff, isTrailing_iff]
  omega

/-- A code unit stands alone where no pair can come of it. -/
theorem spell_unpaired {unit : Nat} {rest : List TextUnit}
    (unpaired : isLeading unit = true → ¬ LeadsOffTrailing rest) :
    spell (.code unit :: rest) = String.utf8EncodeChar (alone unit) ++ spell rest := by
  by_cases leads : isLeading unit = true
  · match rest with
    | [] => simp only [spell]
    | .byte value :: rest => simp only [spell]
    | .code next :: rest =>
        have notTrailing : isTrailing next = false := by
          rw [← Bool.not_eq_true]
          exact fun trails => unpaired leads ⟨next, rest, trails, rfl⟩
        rw [spell, notTrailing, Bool.and_false, if_neg Bool.false_ne_true]
  · exact spell_alone leads rest

/-- **What units spell goes on behind them**, unless a trailing surrogate comes next. -/
theorem spell_append {following : List TextUnit} (apart : ¬ LeadsOffTrailing following)
    (units : List TextUnit) : spell (units ++ following) = spell units ++ spell following := by
  induction units using spell.induct with
  | case1 => rfl
  | case2 value rest ih =>
      rw [List.cons_append, spell, spell, ih]
      rfl
  | case3 unit next rest paired ih =>
      rw [List.cons_append, List.cons_append, spell, spell, if_pos paired, if_pos paired, ih,
        List.append_assoc]
  | case4 unit next rest notPaired ih =>
      rw [List.cons_append] at ih
      rw [List.cons_append, List.cons_append, spell, spell, if_neg notPaired, if_neg notPaired, ih,
        List.append_assoc]
  | case5 unit rest noCode ih =>
      -- No pair can come of the unit: behind it there is a byte, or nothing of `units`.
      have unpaired : ¬ LeadsOffTrailing rest ∧ ¬ LeadsOffTrailing (rest ++ following) := by
        cases rest with
        | nil => exact ⟨(by rintro ⟨_, _, _, same⟩; cases same), apart⟩
        | cons first others =>
            cases first with
            | byte value =>
                constructor <;> (rintro ⟨_, _, _, same⟩; cases same)
            | code next => exact absurd rfl (noCode next others)
      rw [List.cons_append, spell_unpaired fun _ => unpaired.1, spell_unpaired fun _ => unpaired.2,
        ih, List.append_assoc]

/-- Bytes spell themselves. -/
theorem spell_map_byte_append (bytes : Bytes) (following : List TextUnit) :
    spell (bytes.map .byte ++ following) = bytes ++ spell following := by
  induction bytes with
  | nil => rfl
  | cons byte rest ih =>
      rw [List.map_cons, List.cons_append, spell, ih]
      rfl

end TextUnit

open TextUnit (LeadsOffTrailing)

/-- A character's escape is cut into units that spell the character, whatever follows. -/
theorem CharEscape.exists_units {escape : Bytes} {character : Char}
    (isEscape : CharEscape escape character) :
    ∃ units, HasUnits escape units ∧
      ∀ following, spell (units ++ following) =
          String.utf8EncodeChar character ++ spell following ∧
        ¬ LeadsOffTrailing (units ++ following) := by
  cases isEscape with
  | @letter letter value known =>
      obtain ⟨-, -, -, ascii, -⟩ := letterEscapes_known known
      refine ⟨_, .letter known, fun following => ⟨?_, ?_⟩⟩
      · rw [Utf8.encodeChar_ofUInt8 ascii, List.singleton_append, spell]
        rfl
      · rintro ⟨_, _, -, same⟩
        cases same
  | @code _ unit isCode noSurrogate =>
      refine ⟨_, .code isCode, fun following => ⟨?_, ?_⟩⟩
      · rw [List.singleton_append,
          TextUnit.spell_alone (by rw [TextUnit.isLeading_iff]; omega), TextUnit.alone,
          if_neg (by rw [TextUnit.surrogate_iff]; omega)]
      · rintro ⟨_, _, trails, same⟩
        cases same
        rw [TextUnit.isTrailing_iff] at trails
        omega
  | @pair _ _ leading trailing isCode leads isOther trails =>
      refine ⟨_, (HasUnits.code isCode).append (.code isOther), fun following => ⟨?_, ?_⟩⟩
      · simp only [List.cons_append, List.nil_append]
        rw [spell, TextUnit.isLeading_iff.mpr leads, TextUnit.isTrailing_iff.mpr trails,
          Bool.and_self, if_pos rfl]
        rfl
      · rintro ⟨_, _, wrong, same⟩
        cases same
        rw [TextUnit.isTrailing_iff] at wrong
        omega

/-- **The units of a text spell its meaning.** -/
theorem Means.exists_units {body meaning : Bytes} (means : Means body meaning) :
    ∃ units, HasUnits body units ∧ spell units = meaning ∧
      (LeadsOffTrailing units → BeginsTrailing body) := by
  induction means with
  | nil => exact ⟨[], .nil, rfl, fun ⟨_, _, _, same⟩ => by cases same⟩
  | raw isRaw _ ih =>
      obtain ⟨units, hasUnits, rfl, -⟩ := ih
      refine ⟨_, (HasUnits.raw isRaw).append hasUnits, by rw [List.singleton_append, spell], ?_⟩
      rintro ⟨_, _, -, same⟩
      cases same
  | escape isEscape _ ih =>
      obtain ⟨units, hasUnits, rfl, -⟩ := ih
      obtain ⟨front, frontUnits, spells⟩ := isEscape.exists_units
      exact ⟨_, frontUnits.append hasUnits, (spells units).1,
        fun trails => absurd trails (spells units).2⟩
  | @lone escape rest meaning unit isCode surrogate unpaired _ ih =>
      obtain ⟨units, hasUnits, rfl, begins⟩ := ih
      refine ⟨_, (HasUnits.code isCode).append hasUnits, ?_, ?_⟩
      · rw [List.singleton_append,
          TextUnit.spell_unpaired fun leads trails =>
            unpaired (TextUnit.isLeading_iff.mp leads).2 (begins trails),
          TextUnit.alone, if_pos (TextUnit.surrogate_iff.mpr surrogate)]
        rfl
      · rintro ⟨trailing, following, trails, same⟩
        cases same
        exact ⟨escape, unit, rest, isCode, TextUnit.isTrailing_iff.mp trails, rfl⟩

/-- The meaning of a text is what its one sequence of units spells. -/
theorem Means.eq_spell {body meaning : Bytes} {units : List TextUnit} (means : Means body meaning)
    (isText : IsText (body ++ [Ascii.quote]) units) : meaning = spell units := by
  obtain ⟨others, hasUnits, rfl, -⟩ := means.exists_units
  have same := (isText []).symm.trans (hasUnits.closed [])
  rw [TextScan.mk.injEq] at same
  rw [same.1]

/-! ## Every text has a meaning -/

/-- What follows a `\u` escape is a sequence of units again. -/
theorem IsStringBody.of_code {first second third fourth : UInt8} {rest : Bytes}
    (isBody : IsStringBody (Ascii.backslash :: TextUnit.unicodeLetter :: first :: second :: third ::
      fourth :: rest)) : IsStringBody rest := by
  cases isBody with
  | raw isRaw _ => exact absurd rfl isRaw.2.2
  | letter known _ => exact absurd known (by decide)
  | code _ following => exact following

/-- **Every sequence of units has a meaning.**  The recursion is on the length, since a pair of
surrogates takes up two units at once. -/
theorem IsStringBody.exists_means : ∀ {body : Bytes}, IsStringBody body →
    ∃ meaning, Means body meaning
  | _, .nil => ⟨[], .nil⟩
  | _, .raw isRaw following => by
      obtain ⟨meaning, means⟩ := following.exists_means
      exact ⟨_, .raw isRaw means⟩
  | _, .letter known following => by
      obtain ⟨meaning, means⟩ := following.exists_means
      obtain ⟨value, isEscape⟩ := exists_letterEscape known
      exact ⟨_, .escape (.letter isEscape) means⟩
  | _, @IsStringBody.code _ _ _ _ rest digits following => by
      obtain ⟨unit, digits⟩ := Option.isSome_iff_exists.mp digits
      have isCode := isCodeEscape_iff.mpr ⟨_, _, _, _, rfl, digits⟩
      by_cases pairs : (0xD800 ≤ unit ∧ unit < 0xDC00) ∧ BeginsTrailing rest
      · obtain ⟨leads, escape, trailing, behind, isOther, trails, rfl⟩ := pairs
        have isRest : IsStringBody behind := by
          cases isOther
          exact following.of_code
        obtain ⟨meaning, means⟩ := isRest.exists_means
        exact ⟨_, .escape (.pair isCode leads isOther trails) means⟩
      obtain ⟨meaning, means⟩ := following.exists_means
      by_cases surrogate : 0xD800 ≤ unit ∧ unit < 0xE000
      · exact ⟨_, .lone isCode surrogate
          (fun leads begins => pairs ⟨⟨surrogate.1, leads⟩, begins⟩) means⟩
      · exact ⟨_, .escape (.code isCode (by omega)) means⟩
termination_by body => body.length

/-! ## The meaning is UTF-8 if the text is -/

theorem IsHexDigit.lt {byte : UInt8} {value : Nat} (isDigit : IsHexDigit byte value) :
    byte.toNat < 0x80 := by
  cases isDigit <;> omega

/-- The bytes of a `\u` escape are ASCII, and the first is a backslash. -/
theorem IsCodeEscape.ascii {escape : Bytes} {unit : Nat} (isCode : IsCodeEscape escape unit) :
    escape.head? = some Ascii.backslash ∧ ∀ byte ∈ escape, byte.toNat < 0x80 := by
  cases isCode with
  | mk isFirst isSecond isThird isFourth =>
      refine ⟨rfl, ?_⟩
      simp only [List.forall_mem_cons]
      exact ⟨by decide, by decide, isFirst.lt, isSecond.lt, isThird.lt, isFourth.lt,
        List.forall_mem_nil _⟩

/-- The bytes of an escape are ASCII, and the first is a backslash. -/
theorem CharEscape.ascii {escape : Bytes} {character : Char}
    (isEscape : CharEscape escape character) :
    escape.head? = some Ascii.backslash ∧ ∀ byte ∈ escape, byte.toNat < 0x80 := by
  cases isEscape with
  | letter known =>
      obtain ⟨-, -, -, -, ascii⟩ := letterEscapes_known known
      exact ⟨rfl, List.forall_mem_cons.mpr ⟨by decide, List.forall_mem_singleton.mpr ascii⟩⟩
  | code isCode _ => exact isCode.ascii
  | pair isCode _ isOther _ =>
      obtain ⟨begins, ascii⟩ := isCode.ascii
      refine ⟨by rw [List.head?_append, begins, Option.some_or], ?_⟩
      intro byte isIn
      rcases List.mem_append.mp isIn with inFirst | inSecond
      · exact ascii byte inFirst
      · exact isOther.ascii.2 byte inSecond

namespace Utf8

/-- Inside a character, only continuation bytes are accepted. -/
def Place.IsOrdinary : Place → Prop
  | .between => True
  | .inside _ low high _ => 0x80 ≤ low.toNat ∧ high.toNat ≤ 0xBF

/-- The reader never comes to another place. -/
theorem isOrdinary_of_step {place next : Place} {byte : UInt8}
    (goes : step place byte = .more next) : next.IsOrdinary := by
  cases place with
  | between =>
      simp only [step, lead] at goes
      repeat' split at goes
      all_goals first
        | cases goes; done
        | (cases goes; exact ⟨by decide, by decide⟩)
  | inside owed low high code =>
      simp only [step] at goes
      split at goes
      · cases goes
      · cases owed with
        | zero => cases goes
        | succ owed => cases goes; exact ⟨by decide, by decide⟩

/-- Wherever the reader stands, it accepts both or neither. -/
def AcceptsAlike (first second : Bytes) : Prop :=
  ∀ place : Place, place.IsOrdinary →
    (decodeFrom place first).isSome = (decodeFrom place second).isSome

/-- A raw byte in front of both. -/
theorem AcceptsAlike.cons {first second : Bytes} (alike : AcceptsAlike first second)
    (byte : UInt8) : AcceptsAlike (byte :: first) (byte :: second) := by
  intro place _
  rw [decodeFrom_cons, decodeFrom_cons]
  cases goes : step place byte with
  | char character =>
      simp only [Option.isSome_map]
      exact alike .between trivial
  | more next => exact alike next (isOrdinary_of_step goes)
  | refuse => rfl

/-- Inside a character, what is no continuation byte is refused. -/
theorem decodeFrom_inside_eq_none {owed code : Nat} {low high byte : UInt8} {rest : Bytes}
    (ordinary : (Place.inside owed low high code).IsOrdinary)
    (begins : byte.toNat < 0x80 ∨ 0xC0 ≤ byte.toNat) :
    decodeFrom (.inside owed low high code) (byte :: rest) = none := by
  have outside : byte < low ∨ high < byte := by
    rw [UInt8.lt_iff_toNat_lt, UInt8.lt_iff_toNat_lt]
    obtain ⟨atLeast, atMost⟩ := ordinary
    omega
  rw [decodeFrom_cons]
  simp only [step, if_pos outside]

/-- ASCII bytes are accepted between characters. -/
theorem isSome_decodeFrom_ascii : ∀ {front : Bytes}, (∀ byte ∈ front, byte.toNat < 0x80) →
    ∀ rest, (decodeFrom .between (front ++ rest)).isSome = (decodeFrom .between rest).isSome
  | [], _, _ => rfl
  | byte :: front, ascii, rest => by
      obtain ⟨isAscii, others⟩ := List.forall_mem_cons.mp ascii
      rw [List.cons_append, decodeFrom_cons, step,
        show byte = UInt8.ofNat byte.toNat from UInt8.ofNat_toNat.symm, lead_one _ isAscii]
      simp only [Option.isSome_map]
      exact isSome_decodeFrom_ascii others rest

/-- The first byte of a character is no continuation byte. -/
theorem exists_cons_encodeChar (character : Char) :
    ∃ byte tail, String.utf8EncodeChar character = byte :: tail ∧
      (byte.toNat < 0x80 ∨ 0xC0 ≤ byte.toNat) := by
  have value : ∀ number, (UInt8.ofNat number).toNat = number % 256 := fun _ => rfl
  simp only [String.utf8EncodeChar]
  split
  · exact ⟨_, _, rfl, .inl (by rw [value]; omega)⟩
  · repeat' split
    all_goals exact ⟨_, _, rfl, .inr (by rw [value]; omega)⟩

/-- **An escape in front of one and its character in front of the other.**  Between characters
both are accepted, and inside a character both are refused. -/
theorem AcceptsAlike.escape {first second escape : Bytes} (alike : AcceptsAlike first second)
    (ascii : escape.head? = some Ascii.backslash ∧ ∀ byte ∈ escape, byte.toNat < 0x80)
    (character : Char) :
    AcceptsAlike (escape ++ first) (String.utf8EncodeChar character ++ second) := by
  intro place ordinary
  cases place with
  | between =>
      rw [isSome_decodeFrom_ascii ascii.2, decodeFrom_encodeChar, Option.isSome_map]
      exact alike .between trivial
  | inside owed low high code =>
      obtain ⟨rest, rfl⟩ := List.head?_eq_some_iff.mp ascii.1
      obtain ⟨byte, tail, encoded, begins⟩ := exists_cons_encodeChar character
      rw [encoded, List.cons_append, List.cons_append,
        decodeFrom_inside_eq_none ordinary (.inl (by decide)),
        decodeFrom_inside_eq_none ordinary begins]

/-- Bytes are a text exactly if the reader accepts them. -/
theorem isText_iff_isSome {bytes : Bytes} :
    IsText bytes ↔ (decodeFrom .between bytes).isSome = true := by
  constructor
  · intro isText
    obtain ⟨text, read⟩ := isText.exists_decode
    obtain ⟨characters, accepted, -⟩ := Option.map_eq_some_iff.mp read
    rw [accepted]
    rfl
  · intro accepted
    obtain ⟨characters, read⟩ := Option.isSome_iff_exists.mp accepted
    exact ⟨String.ofList characters, encode_of_decode (by rw [decode, read, Option.map_some])⟩

end Utf8

theorem Means.acceptsAlike {body meaning : Bytes} (means : Means body meaning) :
    Utf8.AcceptsAlike body meaning := by
  induction means with
  | nil => exact fun _ _ => rfl
  | raw _ _ ih => exact ih.cons _
  | escape isEscape _ ih => exact ih.escape isEscape.ascii _
  | lone isCode _ _ _ ih => exact ih.escape isCode.ascii _

/-- **The meaning of a text is UTF-8 exactly if the text is.** -/
theorem Means.isText_iff {body meaning : Bytes} (means : Means body meaning) :
    Utf8.IsText meaning ↔ Utf8.IsText body := by
  rw [Utf8.isText_iff_isSome, Utf8.isText_iff_isSome, means.acceptsAlike .between trivial]

/-! ## How a character is spelled -/

/-- Each spelling of a character is cut into units that spell the character. -/
theorem SpellsChar.exists_units {character : Char} {spelling : Bytes}
    (spells : SpellsChar character spelling) :
    ∃ units, HasUnits spelling units ∧
      ∀ following, spell (units ++ following) =
          String.utf8EncodeChar character ++ spell following ∧
        ¬ LeadsOffTrailing (units ++ following) := by
  rcases spells with ⟨rfl, areRaw⟩ | isEscape
  · refine ⟨_, .rawBytes areRaw, fun following => ⟨TextUnit.spell_map_byte_append _ _, ?_⟩⟩
    obtain ⟨byte, tail, encoded, -⟩ := Utf8.exists_cons_encodeChar character
    rw [encoded]
    rintro ⟨_, _, -, same⟩
    cases same
  · exact isEscape.exists_units

/-- **A text means the same however one of its characters is spelled.** -/
theorem exists_spell_respelled {front back : Bytes} {character : Char} (isFront : IsUnits front)
    (isBack : IsUnits back) :
    ∃ meaning, ∀ {spelling : Bytes}, SpellsChar character spelling →
      ∃ units, HasUnits (front ++ spelling ++ back) units ∧ spell units = meaning := by
  obtain ⟨frontUnits, hasFront⟩ := isFront.exists_units
  obtain ⟨backUnits, hasBack⟩ := isBack.exists_units
  refine ⟨spell frontUnits ++ (String.utf8EncodeChar character ++ spell backUnits), ?_⟩
  intro spelling spells
  obtain ⟨units, hasUnits, spelled⟩ := spells.exists_units
  obtain ⟨means, apart⟩ := spelled backUnits
  refine ⟨_, (hasFront.append hasUnits).append hasBack, ?_⟩
  rw [List.append_assoc, TextUnit.spell_append apart, means]

end ChatCodec
