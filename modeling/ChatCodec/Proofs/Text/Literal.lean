import ChatCodec.Json.Piece
import ChatCodec.Proofs.Successes
import ChatCodec.Proofs.Text.Utf8

/-!
# String literals are read back

A text that is written as a string literal is cut into one unit for each of its bytes,
up to the closing quote and no further (`TextScan.ofBytes_escaped`), and those units mean
the bytes of the text, to a lenient reader (`TextUnit.spell_map_ofByte`) and to a strict
one (`Json.readText_escaped`).

Where a text ends does not depend on what follows it (`TextScan.isText_of_closed`).

A strict reader never means anything else than a lenient one: if the units are in order
for it, both mean the same bytes (`Json.spell_of_spellStrictly`), and the literal has its
closing quote.
-/

namespace ChatCodec

set_option autoImplicit false

/-! ## Bytes that stand for themselves -/

namespace Ascii

/-- A byte that may stand in a string literal as it is. -/
def IsRaw (byte : UInt8) : Prop :=
  0x20 ≤ byte.toNat ∧ byte ≠ quote ∧ byte ≠ backslash

instance (byte : UInt8) : Decidable (IsRaw byte) := by
  unfold IsRaw; infer_instance

instance (bytes : Bytes) : Decidable (∀ byte ∈ bytes, IsRaw byte) :=
  List.decidableBAll IsRaw bytes

/-- Printable ASCII apart from the quote and the backslash. -/
def IsPlain (byte : UInt8) : Prop :=
  0x20 ≤ byte.toNat ∧ byte.toNat < 0x80 ∧ byte ≠ quote ∧ byte ≠ backslash

instance (byte : UInt8) : Decidable (IsPlain byte) := by
  unfold IsPlain; infer_instance

theorem IsPlain.isRaw {byte : UInt8} (plain : IsPlain byte) : IsRaw byte :=
  ⟨plain.1, plain.2.2⟩

theorem isDigit_iff (byte : UInt8) :
    isDigit byte = true ↔ 0x30 ≤ byte.toNat ∧ byte.toNat ≤ 0x39 := by
  simp only [isDigit, zero, nine, Bool.and_eq_true, decide_eq_true_eq, UInt8.le_iff_toNat_le,
    UInt8.reduceToNat]

theorem isControl_iff (byte : UInt8) : isControl byte = true ↔ byte.toNat < 0x20 := by
  simp only [isControl, space, decide_eq_true_eq, UInt8.lt_iff_toNat_lt, UInt8.reduceToNat]

/-- The two digits of a control byte are read back. -/
theorem hexFour?_control {byte : UInt8} (control : byte.toNat < 0x20) :
    hexFour? zero zero (hexDigit (byte.toNat / 16)) (hexDigit (byte.toNat % 16)) =
      some byte.toNat := by
  have all : ∀ n, n < 0x20 →
      hexFour? zero zero (hexDigit (n / 16)) (hexDigit (n % 16)) = some n := by decide
  exact all byte.toNat control

theorem isPlain_of_isDigit {byte : UInt8} (digit : isDigit byte = true) : IsPlain byte := by
  have range := (isDigit_iff byte).mp digit
  refine ⟨by omega, by omega, ?_, ?_⟩
  · rintro rfl; exact absurd digit (by decide)
  · rintro rfl; exact absurd digit (by decide)

end Ascii

/-- A raw byte is not escaped. -/
theorem escapedByte_of_isRaw {byte : UInt8} (raw : Ascii.IsRaw byte) :
    escapedByte byte = [byte] := by
  obtain ⟨visible, notQuote, notBackslash⟩ := raw
  have differs : ∀ other : UInt8, other.toNat < 0x20 → byte ≠ other := by
    rintro other control rfl
    omega
  have notControl : ¬ Ascii.isControl byte = true := by
    rw [Ascii.isControl_iff]
    omega
  rw [escapedByte, if_neg notQuote, if_neg notBackslash, if_neg (differs _ (by decide)),
    if_neg (differs _ (by decide)), if_neg (differs _ (by decide)), if_neg (differs _ (by decide)),
    if_neg (differs _ (by decide)), if_neg notControl]

/-- Raw bytes are not escaped. -/
theorem flatMap_escapedByte_of_isRaw {bytes : Bytes} (raw : ∀ byte ∈ bytes, Ascii.IsRaw byte) :
    bytes.flatMap escapedByte = bytes := by
  induction bytes with
  | nil => rfl
  | cons byte rest ih =>
      rw [List.flatMap_cons, escapedByte_of_isRaw (raw byte List.mem_cons_self),
        ih fun other isIn => raw other (List.mem_cons_of_mem byte isIn)]
      rfl

/-- The text of ASCII bytes has these bytes. -/
theorem bytesOf_ofList_map_of_ascii {bytes : Bytes} (ascii : ∀ byte ∈ bytes, byte.toNat < 0x80) :
    bytesOf (String.ofList (bytes.map Char.ofUInt8)) = bytes := by
  rw [bytesOf, Utf8.encode, String.toList_ofList]
  induction bytes with
  | nil => rfl
  | cons byte rest ih =>
      have isAscii := ascii byte List.mem_cons_self
      have head : String.utf8EncodeChar (Char.ofUInt8 byte) = [byte] := by
        have value : (Char.ofUInt8 byte).val.toNat = byte.toNat := rfl
        simp only [String.utf8EncodeChar, value, if_pos (by omega : byte.toNat ≤ 0x7F),
          UInt8.ofNat_toNat]
      rw [List.map_cons, List.flatMap_cons, head,
        ih fun other isIn => ascii other (List.mem_cons_of_mem byte isIn)]
      rfl

/-- The text of plain bytes has these bytes. -/
theorem bytesOf_ofList_map {bytes : Bytes} (plain : ∀ byte ∈ bytes, Ascii.IsPlain byte) :
    bytesOf (String.ofList (bytes.map Char.ofUInt8)) = bytes :=
  bytesOf_ofList_map_of_ascii fun byte isIn => (plain byte isIn).2.1

/-- A text of plain bytes is written between quotes as it stands. -/
theorem quoted_ofList_map {bytes : Bytes} (plain : ∀ byte ∈ bytes, Ascii.IsPlain byte) :
    quoted (String.ofList (bytes.map Char.ofUInt8)) = Ascii.quote :: (bytes ++ [Ascii.quote]) := by
  rw [quoted, bytesOf_ofList_map plain,
    flatMap_escapedByte_of_isRaw fun byte isIn => (plain byte isIn).isRaw]

/-! ## The units of a written text -/

/-- The unit that a byte is written as: a code unit where only a `\u` escape will do. -/
def TextUnit.ofByte (byte : UInt8) : TextUnit :=
  if Ascii.isControl byte ∧ byte ∉ [Ascii.lineFeed, Ascii.carriageReturn, Ascii.tab,
      Ascii.backspace, Ascii.formFeed] then .code byte.toNat
  else .byte byte

namespace TextScan

/-- **A written byte is one unit.** -/
theorem ofBytes_escapedByte (byte : UInt8) (rest : Bytes) :
    ofBytes (escapedByte byte ++ rest) =
      (ofBytes rest).behind (.ofByte byte) (escapedByte byte).length := by
  by_cases short : byte ∈ [Ascii.quote, Ascii.backslash, Ascii.lineFeed, Ascii.carriageReturn,
      Ascii.tab, Ascii.backspace, Ascii.formFeed]
  · simp only [List.mem_cons, List.not_mem_nil, or_false] at short
    rcases short with rfl | rfl | rfl | rfl | rfl | rfl | rfl <;>
      exact ofBytes_letter rest (by decide) (by decide)
  simp only [List.mem_cons, List.not_mem_nil, or_false, not_or] at short
  obtain ⟨notQuote, notBackslash, notLine, notReturn, notTab, notBack, notForm⟩ := short
  have others : byte ∉ [Ascii.lineFeed, Ascii.carriageReturn, Ascii.tab, Ascii.backspace,
      Ascii.formFeed] := by
    simp only [List.mem_cons, List.not_mem_nil, or_false, not_or]
    exact ⟨notLine, notReturn, notTab, notBack, notForm⟩
  rw [escapedByte, if_neg notQuote, if_neg notBackslash, if_neg notLine, if_neg notReturn,
    if_neg notTab, if_neg notBack, if_neg notForm]
  by_cases control : Ascii.isControl byte = true
  · rw [if_pos control, TextUnit.ofByte, if_pos ⟨control, others⟩]
    exact ofBytes_code rest (Ascii.hexFour?_control ((Ascii.isControl_iff byte).mp control))
  · rw [if_neg control, TextUnit.ofByte, if_neg fun both => control both.1]
    exact ofBytes_byte rest notQuote notBackslash (by simpa using control)

/-- **A written text is cut into one unit for each of its bytes.** -/
theorem ofBytes_escaped (bytes rest : Bytes) :
    ofBytes (bytes.flatMap escapedByte ++ Ascii.quote :: rest) =
      ⟨bytes.map .ofByte, .closed, (bytes.flatMap escapedByte).length + 1⟩ := by
  induction bytes with
  | nil =>
      rw [List.flatMap_nil, List.nil_append, ofBytes_quote]
      rfl
  | cons byte following ih =>
      rw [List.flatMap_cons, List.append_assoc, ofBytes_escapedByte, ih, behind, List.map_cons,
        List.length_append, Nat.add_assoc]

end TextScan

/-! ## The meaning of the units -/

namespace TextUnit

theorem not_isLeading_of_small {unit : Nat} (small : unit < 0xD800) : isLeading unit = false := by
  simp only [isLeading, Bool.and_eq_false_iff, decide_eq_false_iff_not]
  omega

theorem not_isTrailing_of_small {unit : Nat} (small : unit < 0xD800) : isTrailing unit = false := by
  simp only [isTrailing, Bool.and_eq_false_iff, decide_eq_false_iff_not]
  omega

theorem spell_code_small {unit : Nat} (small : unit < 0x80) (rest : List TextUnit) :
    spell (.code unit :: rest) = UInt8.ofNat unit :: spell rest := by
  have notLeading : isLeading unit = false := not_isLeading_of_small (by omega)
  have notTrailing : isTrailing unit = false := not_isTrailing_of_small (by omega)
  rw [spell_alone (by rw [notLeading]; decide), alone, notLeading, notTrailing, Bool.or_self,
    if_neg Bool.false_ne_true,
    Utf8.encodeChar_ofNat unit (by simp only [Nat.isValidChar]; omega), if_pos (by omega),
    List.singleton_append]

/-- **The units of a written text mean its bytes.** -/
theorem spell_map_ofByte (bytes : Bytes) : spell (bytes.map .ofByte) = bytes := by
  induction bytes with
  | nil => rfl
  | cons byte rest ih =>
      rw [List.map_cons, ofByte]
      split
      · next control =>
          have small := (Ascii.isControl_iff byte).mp control.1
          rw [spell_code_small (by omega), ih, UInt8.ofNat_toNat]
      · rw [spell, ih]

end TextUnit

/-! ## Where a text ends -/

namespace TextScan

/-- Bytes that are a text with its closing quote, whatever follows them. -/
def IsText (body : Bytes) (units : List TextUnit) : Prop :=
  ∀ other, ofBytes (body ++ other) = ⟨units, .closed, body.length⟩

theorem isText_quote : IsText [Ascii.quote] [] := ofBytes_quote

theorem isText_escaped (bytes : Bytes) :
    IsText (bytes.flatMap escapedByte ++ [Ascii.quote]) (bytes.map .ofByte) := by
  intro other
  rw [List.append_assoc, List.singleton_append, ofBytes_escaped, List.length_append,
    List.length_singleton]

/-- Raw bytes are a text that means them. -/
theorem exists_isText_of_isRaw {bytes : Bytes} (raw : ∀ byte ∈ bytes, Ascii.IsRaw byte) :
    ∃ units, IsText (bytes ++ [Ascii.quote]) units ∧ TextUnit.spell units = bytes := by
  have text := isText_escaped bytes
  rw [flatMap_escapedByte_of_isRaw raw] at text
  exact ⟨_, text, TextUnit.spell_map_ofByte bytes⟩

/-- One more unit in front of a text. -/
theorem IsText.behind {front body : Bytes} {unit : TextUnit} {units : List TextUnit}
    (text : IsText body units)
    (step : ∀ rest, ofBytes (front ++ rest) = (ofBytes rest).behind unit front.length) :
    IsText (front ++ body) (unit :: units) := by
  intro other
  rw [List.append_assoc, step, text other, TextScan.behind, List.length_append]

/-- A scan takes up no more than there is. -/
theorem length_le (bytes : Bytes) : (ofBytes bytes).length ≤ bytes.length := by
  fun_induction ofBytes bytes with
  | case1 => exact Nat.le_refl 0
  | case4 _ _ _ _ _ _ _ _ ih | case7 _ _ _ _ _ _ ih | case10 _ _ _ _ _ ih =>
      simp only [behind, List.length_cons]
      omega
  | _ =>
      simp only [List.length_cons]
      omega

/-- **A scan that ends with a closing quote has read a text** and does not depend on what
follows. -/
theorem isText_of_closed (bytes : Bytes) : ∀ {units : List TextUnit} {length : Nat},
    ofBytes bytes = ⟨units, .closed, length⟩ →
      ∃ body rest, bytes = body ++ rest ∧ body.length = length ∧ IsText body units := by
  -- One step for every way in which a unit can begin; the others end without a quote.
  have extend : ∀ (front : Bytes) {rest : Bytes} {unit : TextUnit} {units : List TextUnit}
      {length : Nat},
      (∀ {units : List TextUnit} {length : Nat}, ofBytes rest = ⟨units, .closed, length⟩ →
        ∃ body others, rest = body ++ others ∧ body.length = length ∧ IsText body units) →
      (∀ others, ofBytes (front ++ others) = (ofBytes others).behind unit front.length) →
      (ofBytes rest).behind unit front.length = ⟨units, .closed, length⟩ →
        ∃ body others, front ++ rest = body ++ others ∧ body.length = length ∧
          IsText body units := by
    intro front rest unit units length ih step scanned
    cases inner : ofBytes rest with
    | mk inside ending taken =>
        rw [inner] at scanned
        cases scanned
        obtain ⟨body, others, rfl, rfl, text⟩ := ih inner
        exact ⟨front ++ body, others, (List.append_assoc _ _ _).symm, List.length_append,
          text.behind step⟩
  fun_induction ofBytes bytes with
  | case1 => intro units length scanned; cases scanned
  | case2 rest =>
      intro units length scanned
      cases scanned
      exact ⟨[Ascii.quote], rest, rfl, rfl, isText_quote⟩
  | case3 => intro units length scanned; cases scanned
  | case4 first second third fourth rest unit digits _ ih =>
      intro units length scanned
      exact extend [Ascii.backslash, TextUnit.unicodeLetter, first, second, third, fourth] ih
        (fun others => ofBytes_code others digits) scanned
  | case5 => intro units length scanned; cases scanned
  | case6 => intro units length scanned; cases scanned
  | case7 letter rest notCode value known _ ih =>
      intro units length scanned
      exact extend [Ascii.backslash, letter] ih
        (fun others => ofBytes_letter others notCode known) scanned
  | case8 => intro units length scanned; cases scanned
  | case9 => intro units length scanned; cases scanned
  | case10 byte rest notQuote notBackslash visible ih =>
      intro units length scanned
      have visible : Ascii.isControl byte = false := by rwa [Bool.not_eq_true] at visible
      exact extend [byte] ih (fun others => ofBytes_byte others notQuote notBackslash visible)
        scanned

/-- Whether bytes are a text can be found out without what follows them. -/
theorem isText_iff {body : Bytes} {units : List TextUnit} :
    IsText body units ↔ ofBytes body = ⟨units, .closed, body.length⟩ := by
  constructor
  · intro isText
    rw [← isText [], List.append_nil]
  · intro closed
    obtain ⟨front, rest, same, length, isText⟩ := isText_of_closed body closed
    rw [same, List.length_append, Nat.left_eq_add, List.length_eq_zero_iff] at length
    rwa [same, length, List.append_nil]

end TextScan

/-! ## Strict readers -/

namespace Json

open TextUnit (isLeading isTrailing)

/-- The units of a written text are in order for a strict reader, which gives them the same
meaning. -/
theorem spellStrictly_map_ofByte (bytes : Bytes) :
    spellStrictly .closed (bytes.map .ofByte) = .ok bytes := by
  induction bytes with
  | nil => rfl
  | cons byte rest ih =>
      rw [List.map_cons, TextUnit.ofByte]
      split
      · next control =>
          have small := (Ascii.isControl_iff byte).mp control.1
          rw [spellStrictly.eq_def]
          simp only [TextUnit.not_isTrailing_of_small (show byte.toNat < 0xD800 by omega),
            TextUnit.not_isLeading_of_small (show byte.toNat < 0xD800 by omega),
            Bool.false_eq_true, if_false, ih]
          rw [Utf8.encodeChar_ofNat byte.toNat (by simp only [Nat.isValidChar]; omega),
            if_pos (by omega), UInt8.ofNat_toNat]
          rfl
      · rw [spellStrictly, ih]
        rfl

/-- **A written text is read back by a strict reader.** -/
theorem readText_escaped (text : String) (rest : Bytes) :
    readText ((bytesOf text).flatMap escapedByte ++ Ascii.quote :: rest) = .ok text := by
  rw [readText, TextScan.ofBytes_escaped]
  refine bind_eq_ok_iff.mpr ⟨_, spellStrictly_map_ofByte _, ?_⟩
  rw [bytesOf, Utf8.decode_encode]

theorem eq_closed_of_textFault? {ending : TextEnd} (inOrder : textFault? ending = none) :
    ending = .closed := by
  cases ending <;> first | rfl | cases inOrder

/-- **A strict reader means what a lenient one means**, and only texts with a closing quote
have a meaning for it. -/
theorem spell_of_spellStrictly {ending : TextEnd} :
    ∀ {units : List TextUnit} {bytes : Bytes}, spellStrictly ending units = .ok bytes →
      ending = .closed ∧ TextUnit.spell units = bytes
  | [], bytes, strict => by
      rw [spellStrictly] at strict
      cases inOrder : textFault? ending with
      | some fault => rw [inOrder] at strict; cases strict
      | none =>
          rw [inOrder] at strict
          cases strict
          exact ⟨eq_closed_of_textFault? inOrder, rfl⟩
  | .byte value :: rest, bytes, strict => by
      rw [spellStrictly] at strict
      obtain ⟨following, strictRest, rfl⟩ := map_eq_ok_iff.mp strict
      obtain ⟨closed, same⟩ := spell_of_spellStrictly strictRest
      exact ⟨closed, by rw [TextUnit.spell, same]⟩
  | .code unit :: rest, bytes, strict => by
      rw [spellStrictly.eq_def] at strict
      simp only at strict
      by_cases trailing : isTrailing unit = true
      · rw [if_pos trailing] at strict
        cases strict
      rw [if_neg trailing] at strict
      by_cases leading : isLeading unit = true
      · rw [if_pos leading] at strict
        cases rest with
        | nil => cases strict
        | cons follower rest =>
            cases follower with
            | byte value => cases strict
            | code next =>
                simp only at strict
                by_cases paired : isTrailing next = true
                · rw [if_pos paired] at strict
                  obtain ⟨following, strictRest, rfl⟩ := map_eq_ok_iff.mp strict
                  obtain ⟨closed, same⟩ := spell_of_spellStrictly strictRest
                  refine ⟨closed, ?_⟩
                  rw [TextUnit.spell, leading, paired, Bool.and_self, if_pos rfl, same]
                · rw [if_neg paired] at strict
                  cases strict
      · rw [if_neg leading] at strict
        obtain ⟨following, strictRest, rfl⟩ := map_eq_ok_iff.mp strict
        obtain ⟨closed, same⟩ := spell_of_spellStrictly strictRest
        refine ⟨closed, ?_⟩
        rw [TextUnit.spell_alone leading, same, TextUnit.alone, if_neg]
        rw [Bool.or_eq_true]
        rintro (leads | trails)
        · exact leading leads
        · exact trailing trails

end Json

end ChatCodec
