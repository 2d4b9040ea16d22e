import ChatCodec.Proofs.Text.Literal

/-!
# String literals that are written are well formed

A string literal consists of raw bytes and escapes between two quotes (`IsStringLiteral`, after
the grammar of RFC 8259).  Whatever the text, its literal is one (`isStringLiteral_quoted`).

The literal is also UTF-8 (`Utf8.isText_quoted`).  Escaping goes byte by byte, and a character
has many; but only characters of one byte are escaped, and the bytes of all others stand for
themselves, so no character is split.
-/

namespace ChatCodec

set_option autoImplicit false

/-! ## The grammar of string literals -/

/-- What may stand between the quotes of a string literal. -/
inductive IsStringBody : Bytes → Prop where
  | nil : IsStringBody []
  /-- A byte that stands for itself. -/
  | raw {byte : UInt8} {rest : Bytes} (raw : Ascii.IsRaw byte) (following : IsStringBody rest) :
      IsStringBody (byte :: rest)
  /-- A backslash with one of the eight letters that have an escape. -/
  | letter {letter : UInt8} {rest : Bytes}
      (known : letter ∈ [Ascii.quote, Ascii.backslash, Ascii.slash, 0x62, 0x66, 0x6E, 0x72, 0x74])
      (following : IsStringBody rest) : IsStringBody (Ascii.backslash :: letter :: rest)
  /-- A backslash with a `u` and four hexadecimal digits. -/
  | code {first second third fourth : UInt8} {rest : Bytes}
      (digits : (Ascii.hexFour? first second third fourth).isSome = true)
      (following : IsStringBody rest) :
      IsStringBody
        (Ascii.backslash :: TextUnit.unicodeLetter :: first :: second :: third :: fourth :: rest)

/-- A string literal with its quotes. -/
def IsStringLiteral (bytes : Bytes) : Prop :=
  ∃ body, IsStringBody body ∧ bytes = Ascii.quote :: (body ++ [Ascii.quote])

/-- What stands for a byte may stand in front of any body. -/
theorem IsStringBody.escapedByte (byte : UInt8) {rest : Bytes} (following : IsStringBody rest) :
    IsStringBody (ChatCodec.escapedByte byte ++ rest) := by
  by_cases short : byte ∈ [Ascii.quote, Ascii.backslash, Ascii.lineFeed, Ascii.carriageReturn,
      Ascii.tab, Ascii.backspace, Ascii.formFeed]
  · simp only [List.mem_cons, List.not_mem_nil, or_false] at short
    rcases short with rfl | rfl | rfl | rfl | rfl | rfl | rfl <;>
      exact .letter (by decide) following
  simp only [List.mem_cons, List.not_mem_nil, or_false, not_or] at short
  obtain ⟨notQuote, notBackslash, notLine, notReturn, notTab, notBack, notForm⟩ := short
  rw [ChatCodec.escapedByte, if_neg notQuote, if_neg notBackslash, if_neg notLine,
    if_neg notReturn, if_neg notTab, if_neg notBack, if_neg notForm]
  by_cases control : Ascii.isControl byte = true
  · rw [if_pos control]
    refine .code ?_ following
    rw [Ascii.hexFour?_control ((Ascii.isControl_iff byte).mp control)]
    rfl
  · rw [if_neg control]
    rw [Ascii.isControl_iff, Nat.not_lt] at control
    exact .raw ⟨control, notQuote, notBackslash⟩ following

/-- **The literal of a text is well formed.** -/
theorem isStringLiteral_quoted (text : String) : IsStringLiteral (quoted text) := by
  refine ⟨_, ?_, rfl⟩
  induction bytesOf text with
  | nil => exact .nil
  | cons byte rest ih =>
      rw [List.flatMap_cons]
      exact ih.escapedByte byte

/-! ## UTF-8 -/

namespace Utf8

/-- Bytes that are the bytes of a text. -/
def IsText (bytes : Bytes) : Prop := ∃ text, bytesOf text = bytes

theorem isText_bytesOf (text : String) : IsText (bytesOf text) := ⟨text, rfl⟩

theorem IsText.append {first second : Bytes} (front : IsText first) (rest : IsText second) :
    IsText (first ++ second) := by
  obtain ⟨text, rfl⟩ := front
  obtain ⟨other, rfl⟩ := rest
  exact ⟨text ++ other, encode_append text other⟩

/-- ASCII bytes are the bytes of a text. -/
theorem isText_of_ascii {bytes : Bytes} (ascii : ∀ byte ∈ bytes, byte.toNat < 0x80) :
    IsText bytes :=
  ⟨_, bytesOf_ofList_map_of_ascii ascii⟩

/-- The bytes of a text can be read as the text. -/
theorem IsText.exists_decode {bytes : Bytes} (isText : IsText bytes) :
    ∃ text, decode bytes = some text := by
  obtain ⟨text, rfl⟩ := isText
  exact ⟨text, decode_encode text⟩

/-- A character is one ASCII byte, or consists of bytes beyond ASCII. -/
theorem encodeChar_cases (character : Char) :
    (∃ byte, byte.toNat < 0x80 ∧ String.utf8EncodeChar character = [byte]) ∨
      ∀ byte ∈ String.utf8EncodeChar character, 0x80 ≤ byte.toNat := by
  have value : ∀ number, (UInt8.ofNat number).toNat = number % 256 := fun _ => rfl
  simp only [String.utf8EncodeChar]
  split
  · exact .inl ⟨_, by rw [value]; omega, rfl⟩
  · refine .inr ?_
    split
    · simp only [List.forall_mem_cons, value]
      exact ⟨by omega, by omega, List.forall_mem_nil _⟩
    · split
      · simp only [List.forall_mem_cons, value]
        exact ⟨by omega, by omega, by omega, List.forall_mem_nil _⟩
      · have valid := character.valid
        simp only [List.forall_mem_cons, value]
        exact ⟨by omega, by omega, by omega, by omega, List.forall_mem_nil _⟩

/-- The escape of an ASCII byte is ASCII. -/
theorem ascii_escapedByte {byte : UInt8} (ascii : byte.toNat < 0x80) :
    ∀ other ∈ escapedByte byte, other.toNat < 0x80 := by
  have digit : ∀ value, value < 16 → (Ascii.hexDigit value).toNat < 0x80 := by decide
  have letter : ∀ {other : UInt8}, other.toNat < 0x80 →
      ∀ byte ∈ [Ascii.backslash, other], byte.toNat < 0x80 := fun small =>
    List.forall_mem_cons.mpr ⟨by decide, List.forall_mem_singleton.mpr small⟩
  rw [escapedByte]
  iterate 7
    split
    · exact letter (by decide)
  split
  · simp only [List.forall_mem_cons]
    exact ⟨by decide, by decide, by decide, by decide, digit _ (by omega), digit _ (by omega),
      List.forall_mem_nil _⟩
  · exact List.forall_mem_singleton.mpr ascii

/-- **The literal of a text is UTF-8.** -/
theorem isText_quoted (text : String) : IsText (quoted text) := by
  have body : ∀ characters : List Char,
      IsText ((characters.flatMap String.utf8EncodeChar).flatMap escapedByte) := by
    intro characters
    induction characters with
    | nil => exact isText_bytesOf ""
    | cons character rest ih =>
        rw [List.flatMap_cons, List.flatMap_append]
        refine IsText.append ?_ ih
        rcases encodeChar_cases character with ⟨byte, ascii, single⟩ | beyond
        · rw [single, List.flatMap_singleton]
          exact isText_of_ascii (ascii_escapedByte ascii)
        · have raw : ∀ byte ∈ String.utf8EncodeChar character, Ascii.IsRaw byte := by
            intro byte isIn
            have far := beyond byte isIn
            refine ⟨by omega, ?_, ?_⟩ <;>
            · rintro rfl
              exact absurd far (by decide)
          rw [flatMap_escapedByte_of_isRaw raw]
          exact ⟨String.ofList [character], by
            rw [bytesOf, encode, String.toList_ofList, List.flatMap_singleton]⟩
  have quote : IsText [Ascii.quote] :=
    isText_of_ascii (List.forall_mem_singleton.mpr (by decide))
  exact quote.append ((body text.toList).append quote)

end Utf8

end ChatCodec
