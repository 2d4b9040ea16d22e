import ChatCodec.Streaming.Buffer

/-!
# What the writers append

A buffer finds the digits of a number from the last to the first, and writes a text in
runs of bytes between escapes.  What it appends is the same as what the writers of whole
values put down digit by digit and byte by byte: the decimal form of a number
(`Buffer.bytes_writeNat`, `Buffer.bytes_writeInt`) and the literal of a text
(`Buffer.bytes_writeQuoted`).
-/

namespace ChatCodec

set_option autoImplicit false

namespace Buffer

@[simp] theorem bytes_writeText (buffer : Buffer) (text : String) :
    (buffer.writeText text).bytes = buffer.bytes ++ bytesOf text := by
  rw [writeText, bytes_write]

/-! ## Numbers -/

/-- The digits that are found stand in front of those found before. -/
theorem digitsBefore_eq (number : Nat) (found : Bytes) :
    digitsBefore number found = Decimal.ofNat number ++ found := by
  induction number using Nat.strongRecOn generalizing found with
  | ind number ih =>
      rw [digitsBefore, Decimal.ofNat]
      by_cases single : number < 10
      · rw [if_pos single, if_pos (Nat.div_eq_of_lt single), Nat.mod_eq_of_lt single]
        rfl
      · have smaller : number / 10 < number := by omega
        rw [if_neg single, if_neg (by omega), ih (number / 10) smaller, List.append_assoc]
        rfl

/-- **A number is appended in decimal.** -/
@[simp] theorem bytes_writeNat (buffer : Buffer) (number : Nat) :
    (buffer.writeNat number).bytes = buffer.bytes ++ Decimal.ofNat number := by
  rw [writeNat, bytes_write, digitsBefore_eq, List.append_nil]

/-- **An integer is appended in decimal, behind its sign.** -/
@[simp] theorem bytes_writeInt (buffer : Buffer) (number : Int) :
    (buffer.writeInt number).bytes = buffer.bytes ++ Decimal.ofInt number := by
  rw [writeInt, bytes_writeNat, Decimal.ofInt]
  by_cases negative : number < 0
  · rw [if_pos negative, if_pos negative, bytes_writeByte, List.append_assoc]
    rfl
  · rw [if_neg negative, if_neg negative]

/-! ## Texts -/

/-- A byte is written as its escape, or as itself if it has none. -/
theorem escapedByte_eq (byte : UInt8) : escapedByte byte = (escape? byte).getD [byte] := by
  by_cases short : byte ∈ escapeLetters.map Prod.fst
  · simp only [escapeLetters, List.map_cons, List.map_nil, List.mem_cons, List.not_mem_nil,
      or_false] at short
    rcases short with rfl | rfl | rfl | rfl | rfl | rfl | rfl <;> rfl
  · have noLetter : escapeLetters.lookup byte = none := by
      rw [List.lookup_eq_none_iff]
      intro entry isIn
      rw [bne_iff_ne]
      rintro rfl
      exact short (List.mem_map_of_mem isIn)
    simp only [escapeLetters, List.map_cons, List.map_nil, List.mem_cons, List.not_mem_nil,
      or_false, not_or] at short
    obtain ⟨notQuote, notBackslash, notLine, notReturn, notTab, notBack, notForm⟩ := short
    rw [escapedByte, if_neg notQuote, if_neg notBackslash, if_neg notLine, if_neg notReturn,
      if_neg notTab, if_neg notBack, if_neg notForm, escape?, noLetter]
    by_cases control : Ascii.isControl byte = true
    · simp only [control, if_true]
      rfl
    · simp only [control]
      rfl

/-- The bytes of a run that are not written yet, and the rest of the text, byte by byte. -/
theorem bytes_writeEscaped (rest : Bytes) : ∀ (buffer : Buffer) (pending : Bytes),
    (buffer.writeEscaped (pending ++ rest) pending.length rest).bytes =
      buffer.bytes ++ pending ++ rest.flatMap escapedByte := by
  induction rest with
  | nil =>
      intro buffer pending
      rw [writeEscaped, bytes_write, List.append_nil, List.take_length, List.flatMap_nil,
        List.append_nil]
  | cons byte rest ih =>
      intro buffer pending
      rw [writeEscaped, List.flatMap_cons, escapedByte_eq]
      cases escape? byte with
      | none =>
          have longer := ih buffer (pending ++ [byte])
          rw [List.length_append, List.append_assoc pending, ← List.append_assoc buffer.bytes,
            List.append_assoc (buffer.bytes ++ pending)] at longer
          exact longer
      | some escape =>
          have fresh := ih ((buffer.write pending).write escape) []
          simp only [Option.getD_some, List.take_left]
          rw [List.nil_append, List.append_nil, bytes_write, bytes_write, List.length_nil] at fresh
          rw [fresh, List.append_assoc _ escape]

/-- **A text is appended as a literal.** -/
@[simp] theorem bytes_writeQuoted (buffer : Buffer) (text : String) :
    (buffer.writeQuoted text).bytes = buffer.bytes ++ quoted text := by
  have written := bytes_writeEscaped (bytesOf text) (buffer.writeByte Ascii.quote) []
  rw [writeQuoted, bytes_writeByte]
  rw [List.nil_append, List.append_nil, List.length_nil] at written
  rw [written, bytes_writeByte, quoted, List.append_assoc, List.append_assoc]
  rfl

end Buffer

end ChatCodec
