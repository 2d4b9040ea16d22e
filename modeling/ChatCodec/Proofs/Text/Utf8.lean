import ChatCodec.Text.Utf8

/-!
# UTF-8 is read back

Reading the bytes of a text gives the text (`Utf8.decode_encode`), and bytes that read
as a text are the bytes of that text (`Utf8.encode_of_decode`): no overlong form, no
surrogate and no code point past the last one slips through the machine.  The bytes of a
text therefore determine it (`Utf8.encode_inj`).

Both directions go character by character.  Writing is arithmetic on the code point, so
the machine is first put into the same terms: `lead_ofNat` and the `step_inside` lemmas
speak of the number of a byte.
-/

namespace ChatCodec

set_option autoImplicit false

namespace Utf8

/-! ## The machine in numbers -/

/-- The step of a leading byte in terms of the byte's number. -/
theorem lead_ofNat (n : Nat) (isByte : n < 256) :
    lead (UInt8.ofNat n) =
      if n < 0x80 then .char (Char.ofNat n)
      else if n < 0xC2 then .refuse
      else if n < 0xE0 then .more (.inside 0 0x80 0xBF (n - 0xC0))
      else if n = 0xE0 then .more (.inside 1 0xA0 0xBF 0)
      else if n = 0xED then .more (.inside 1 0x80 0x9F 0xD)
      else if n < 0xF0 then .more (.inside 1 0x80 0xBF (n - 0xE0))
      else if n = 0xF0 then .more (.inside 2 0x90 0xBF 0)
      else if n < 0xF4 then .more (.inside 2 0x80 0xBF (n - 0xF0))
      else if n = 0xF4 then .more (.inside 2 0x80 0x8F 4)
      else .refuse := by
  have toNat : (UInt8.ofNat n).toNat = n := UInt8.toNat_ofNat_of_lt' isByte
  simp only [lead, UInt8.lt_iff_toNat_lt, ← UInt8.toNat_inj, toNat, UInt8.reduceToNat]

/-- The least second byte of a character of three bytes. -/
def lowOfThree (n : Nat) : UInt8 := if n = 0xE0 then 0xA0 else 0x80

/-- The greatest second byte of a character of three bytes. -/
def highOfThree (n : Nat) : UInt8 := if n = 0xED then 0x9F else 0xBF

/-- The least second byte of a character of four bytes. -/
def lowOfFour (n : Nat) : UInt8 := if n = 0xF0 then 0x90 else 0x80

/-- The greatest second byte of a character of four bytes. -/
def highOfFour (n : Nat) : UInt8 := if n = 0xF4 then 0x8F else 0xBF

theorem lead_one (n : Nat) (one : n < 0x80) :
    lead (UInt8.ofNat n) = .char (Char.ofNat n) := by
  rw [lead_ofNat n (by omega), if_pos one]

theorem lead_two (n : Nat) (two : 0xC2 ≤ n ∧ n < 0xE0) :
    lead (UInt8.ofNat n) = .more (.inside 0 0x80 0xBF (n - 0xC0)) := by
  rw [lead_ofNat n (by omega), if_neg (by omega), if_neg (by omega), if_pos two.2]

theorem lead_three (n : Nat) (three : 0xE0 ≤ n ∧ n < 0xF0) :
    lead (UInt8.ofNat n) =
      .more (.inside 1 (lowOfThree n) (highOfThree n) (n - 0xE0)) := by
  rw [lead_ofNat n (by omega), if_neg (by omega), if_neg (by omega), if_neg (by omega)]
  simp only [lowOfThree, highOfThree]
  by_cases first : n = 0xE0
  · subst first; rfl
  by_cases surrogate : n = 0xED
  · subst surrogate; rfl
  rw [if_neg first, if_neg surrogate, if_pos three.2, if_neg first, if_neg surrogate]

theorem lead_four (n : Nat) (four : 0xF0 ≤ n ∧ n ≤ 0xF4) :
    lead (UInt8.ofNat n) =
      .more (.inside 2 (lowOfFour n) (highOfFour n) (n - 0xF0)) := by
  rw [lead_ofNat n (by omega), if_neg (by omega), if_neg (by omega), if_neg (by omega),
    if_neg (by omega), if_neg (by omega), if_neg (by omega)]
  simp only [lowOfFour, highOfFour]
  by_cases first : n = 0xF0
  · subst first; rfl
  by_cases last : n = 0xF4
  · subst last; rfl
  rw [if_neg first, if_pos (by omega), if_neg first, if_neg last]

/-- The second byte of a character of three bytes, in numbers. -/
theorem fitsThree_iff (n next : Nat) :
    ((lowOfThree n).toNat ≤ next ∧ next ≤ (highOfThree n).toNat) ↔
      (0x80 ≤ next ∧ next ≤ 0xBF) ∧ (n = 0xE0 → 0xA0 ≤ next) ∧ (n = 0xED → next ≤ 0x9F) := by
  simp only [lowOfThree, highOfThree]
  split <;> split <;> simp only [UInt8.reduceToNat] <;> omega

/-- The second byte of a character of four bytes, in numbers. -/
theorem fitsFour_iff (n next : Nat) :
    ((lowOfFour n).toNat ≤ next ∧ next ≤ (highOfFour n).toNat) ↔
      (0x80 ≤ next ∧ next ≤ 0xBF) ∧ (n = 0xF0 → 0x90 ≤ next) ∧ (n = 0xF4 → next ≤ 0x8F) := by
  simp only [lowOfFour, highOfFour]
  split <;> split <;> simp only [UInt8.reduceToNat] <;> omega

/-- Every other leading byte is refused. -/
theorem lead_refuse (n : Nat) (isByte : n < 256)
    (outside : (0x80 ≤ n ∧ n < 0xC2) ∨ 0xF4 < n) : lead (UInt8.ofNat n) = .refuse := by
  rw [lead_ofNat n isByte, if_neg (by omega)]
  by_cases low : n < 0xC2
  · rw [if_pos low]
  · rw [if_neg low, if_neg (by omega), if_neg (by omega), if_neg (by omega), if_neg (by omega),
      if_neg (by omega), if_neg (by omega), if_neg (by omega)]

theorem not_refused_iff (low high byte : UInt8) :
    ¬ (byte < low ∨ high < byte) ↔ low.toNat ≤ byte.toNat ∧ byte.toNat ≤ high.toNat := by
  simp only [UInt8.lt_iff_toNat_lt]
  omega

theorem step_inside_zero (low high byte : UInt8) (code : Nat)
    (fits : low.toNat ≤ byte.toNat ∧ byte.toNat ≤ high.toNat) :
    step (.inside 0 low high code) byte = .char (Char.ofNat (code * 64 + (byte.toNat - 0x80))) := by
  simp only [step, if_neg ((not_refused_iff low high byte).mpr fits)]

theorem step_inside_succ (owed : Nat) (low high byte : UInt8) (code : Nat)
    (fits : low.toNat ≤ byte.toNat ∧ byte.toNat ≤ high.toNat) :
    step (.inside (owed + 1) low high code) byte =
      .more (.inside owed 0x80 0xBF (code * 64 + (byte.toNat - 0x80))) := by
  simp only [step, if_neg ((not_refused_iff low high byte).mpr fits)]

theorem decodeFrom_cons (place : Place) (byte : UInt8) (rest : Bytes) :
    decodeFrom place (byte :: rest) =
      match step place byte with
      | .char character => (decodeFrom .between rest).map (character :: ·)
      | .more next => decodeFrom next rest
      | .refuse => none := by
  cases place <;> rfl

/-! ## Writing, then reading -/

theorem toNat_ofNat (n : Nat) (isByte : n < 256) : (UInt8.ofNat n).toNat = n :=
  UInt8.toNat_ofNat_of_lt' isByte

/-- Reading a last continuation byte. -/
theorem decodeFrom_last (low high : UInt8) (code n : Nat) (rest : Bytes)
    (fits : low.toNat ≤ n ∧ n ≤ high.toNat) :
    decodeFrom (.inside 0 low high code) (UInt8.ofNat n :: rest) =
      (decodeFrom .between rest).map (Char.ofNat (code * 64 + (n - 0x80)) :: ·) := by
  have isByte : n < 256 := Nat.lt_of_le_of_lt fits.2 high.toNat_lt
  have toNat := toNat_ofNat n isByte
  rw [decodeFrom_cons, step_inside_zero _ _ _ _ (by rw [toNat]; exact fits), toNat]

/-- Reading a continuation byte that is not the last. -/
theorem decodeFrom_more (owed : Nat) (low high : UInt8) (code n : Nat) (rest : Bytes)
    (fits : low.toNat ≤ n ∧ n ≤ high.toNat) :
    decodeFrom (.inside (owed + 1) low high code) (UInt8.ofNat n :: rest) =
      decodeFrom (.inside owed 0x80 0xBF (code * 64 + (n - 0x80))) rest := by
  have isByte : n < 256 := Nat.lt_of_le_of_lt fits.2 high.toNat_lt
  have toNat := toNat_ofNat n isByte
  rw [decodeFrom_cons, step_inside_succ _ _ _ _ _ (by rw [toNat]; exact fits), toNat]

/-- **A written character is read back.** -/
theorem decodeFrom_encodeChar (character : Char) (rest : Bytes) :
    decodeFrom .between (String.utf8EncodeChar character ++ rest) =
      (decodeFrom .between rest).map (character :: ·) := by
  have valid : character.val.toNat.isValidChar := character.valid
  have same : Char.ofNat character.val.toNat = character := Char.ofNat_toNat character
  simp only [String.utf8EncodeChar]
  generalize character.val.toNat = code at valid same
  subst same
  simp only [Nat.isValidChar] at valid
  -- one case for each length of the encoding
  split
  · rw [List.cons_append, List.nil_append, decodeFrom_cons, step, lead_one code (by omega)]
  split
  · simp only [List.cons_append, List.nil_append]
    rw [decodeFrom_cons, step, lead_two _ (by omega)]
    simp only
    rw [decodeFrom_last _ _ _ _ _ (by simp only [UInt8.reduceToNat]; omega)]
    rw [show (code / 64 % 32 + 0xC0 - 0xC0) * 64 + (code % 64 + 0x80 - 0x80) = code by omega]
  split
  · simp only [List.cons_append, List.nil_append]
    rw [decodeFrom_cons, step, lead_three _ (by omega)]
    simp only
    rw [decodeFrom_more _ _ _ _ _ _
        ((fitsThree_iff _ _).mpr (by omega)),
      decodeFrom_last _ _ _ _ _ (by simp only [UInt8.reduceToNat]; omega)]
    rw [show ((code / 4096 % 16 + 0xE0 - 0xE0) * 64 + (code / 64 % 64 + 0x80 - 0x80)) * 64 +
        (code % 64 + 0x80 - 0x80) = code by omega]
  · simp only [List.cons_append, List.nil_append]
    rw [decodeFrom_cons, step, lead_four _ (by omega)]
    simp only
    rw [decodeFrom_more _ _ _ _ _ _
        ((fitsFour_iff _ _).mpr (by omega)),
      decodeFrom_more _ _ _ _ _ _ (by simp only [UInt8.reduceToNat]; omega),
      decodeFrom_last _ _ _ _ _ (by simp only [UInt8.reduceToNat]; omega)]
    rw [show (((code / 262144 % 8 + 0xF0 - 0xF0) * 64 + (code / 4096 % 64 + 0x80 - 0x80)) * 64 +
        (code / 64 % 64 + 0x80 - 0x80)) * 64 + (code % 64 + 0x80 - 0x80) = code by omega]

theorem decodeFrom_flatMap (characters : List Char) :
    decodeFrom .between (characters.flatMap String.utf8EncodeChar) = some characters := by
  induction characters with
  | nil => rfl
  | cons character rest ih =>
      rw [List.flatMap_cons, decodeFrom_encodeChar, ih, Option.map_some]

/-- **A written text is read back.** -/
@[simp] theorem decode_encode (text : String) : decode (encode text) = some text := by
  rw [decode, encode, decodeFrom_flatMap, Option.map_some, String.ofList_toList]

/-- The bytes of a text determine it. -/
theorem encode_inj {first second : String} (same : encode first = encode second) :
    first = second := by
  have read : decode (encode first) = decode (encode second) := congrArg decode same
  rw [decode_encode, decode_encode] at read
  exact Option.some.inj read

/-! ## Reading, then writing -/

/-- What reading inside the last byte of a character finds. -/
theorem decodeFrom_inside_zero {low high : UInt8} {code : Nat} {bytes : Bytes}
    {characters : List Char}
    (read : decodeFrom (.inside 0 low high code) bytes = some characters) :
    ∃ byte rest following, bytes = byte :: rest ∧
      (low.toNat ≤ byte.toNat ∧ byte.toNat ≤ high.toNat) ∧
      decodeFrom .between rest = some following ∧
      characters = Char.ofNat (code * 64 + (byte.toNat - 0x80)) :: following := by
  cases bytes with
  | nil => cases read
  | cons byte rest =>
      by_cases refused : byte < low ∨ high < byte
      · rw [decodeFrom_cons, step, if_pos refused] at read
        cases read
      · have fits := (not_refused_iff low high byte).mp refused
        rw [decodeFrom_cons, step_inside_zero _ _ _ _ fits] at read
        obtain ⟨following, readRest, rfl⟩ := Option.map_eq_some_iff.mp read
        exact ⟨byte, rest, following, rfl, fits, readRest, rfl⟩

/-- What reading inside a character finds before its last byte. -/
theorem decodeFrom_inside_succ {owed : Nat} {low high : UInt8} {code : Nat} {bytes : Bytes}
    {characters : List Char}
    (read : decodeFrom (.inside (owed + 1) low high code) bytes = some characters) :
    ∃ byte rest, bytes = byte :: rest ∧
      (low.toNat ≤ byte.toNat ∧ byte.toNat ≤ high.toNat) ∧
      decodeFrom (.inside owed 0x80 0xBF (code * 64 + (byte.toNat - 0x80))) rest =
        some characters := by
  cases bytes with
  | nil => cases read
  | cons byte rest =>
      by_cases refused : byte < low ∨ high < byte
      · rw [decodeFrom_cons, step, if_pos refused] at read
        cases read
      · have fits := (not_refused_iff low high byte).mp refused
        rw [decodeFrom_cons, step_inside_succ _ _ _ _ _ fits] at read
        exact ⟨byte, rest, rfl, fits, read⟩

/-- The bytes of a character in terms of its code point. -/
theorem encodeChar_ofNat (code : Nat) (valid : code.isValidChar) :
    String.utf8EncodeChar (Char.ofNat code) =
      if code ≤ 0x7F then [UInt8.ofNat code]
      else if code ≤ 0x7FF then
        [UInt8.ofNat (code / 64 % 0x20 + 0xC0), UInt8.ofNat (code % 0x40 + 0x80)]
      else if code ≤ 0xFFFF then
        [UInt8.ofNat (code / 4096 % 0x10 + 0xE0), UInt8.ofNat (code / 64 % 0x40 + 0x80),
          UInt8.ofNat (code % 0x40 + 0x80)]
      else
        [UInt8.ofNat (code / 262144 % 0x08 + 0xF0), UInt8.ofNat (code / 4096 % 0x40 + 0x80),
          UInt8.ofNat (code / 64 % 0x40 + 0x80), UInt8.ofNat (code % 0x40 + 0x80)] := by
  have value : (Char.ofNat code).val.toNat = code := by
    rw [Char.ofNat, dif_pos valid]
    rfl
  simp only [String.utf8EncodeChar, value]

theorem ofNat_eq {n : Nat} (byte : UInt8) (same : n = byte.toNat) : UInt8.ofNat n = byte := by
  rw [same, UInt8.ofNat_toNat]

/-- Bytes that read as characters are the bytes of these characters. -/
theorem flatMap_of_decodeFrom (bytes : Bytes) (characters : List Char)
    (read : decodeFrom .between bytes = some characters) :
    characters.flatMap String.utf8EncodeChar = bytes := by
  cases bytes with
  | nil => cases read; rfl
  | cons byte rest =>
      have isByte : byte.toNat < 256 := byte.toNat_lt
      rw [decodeFrom_cons, step, show byte = UInt8.ofNat byte.toNat from UInt8.ofNat_toNat.symm]
        at read
      by_cases one : byte.toNat < 0x80
      · rw [lead_one _ one] at read
        obtain ⟨following, readRest, rfl⟩ := Option.map_eq_some_iff.mp read
        rw [List.flatMap_cons, flatMap_of_decodeFrom rest following readRest,
          encodeChar_ofNat _ (by simp only [Nat.isValidChar]; omega), if_pos (by omega),
          UInt8.ofNat_toNat]
        rfl
      by_cases two : 0xC2 ≤ byte.toNat ∧ byte.toNat < 0xE0
      · rw [lead_two _ two] at read
        obtain ⟨second, rest, following, rfl, fits, readRest, rfl⟩ := decodeFrom_inside_zero read
        simp only [UInt8.reduceToNat] at fits
        rw [List.flatMap_cons, flatMap_of_decodeFrom rest following readRest,
          encodeChar_ofNat _ (by simp only [Nat.isValidChar]; omega), if_neg (by omega),
          if_pos (by omega), ofNat_eq byte (by omega), ofNat_eq second (by omega)]
        rfl
      by_cases three : 0xE0 ≤ byte.toNat ∧ byte.toNat < 0xF0
      · rw [lead_three _ three] at read
        obtain ⟨second, rest, rfl, fits, readMore⟩ := decodeFrom_inside_succ read
        have fits := (fitsThree_iff _ _).mp fits
        obtain ⟨third, rest, following, rfl, fits', readRest, rfl⟩ :=
          decodeFrom_inside_zero readMore
        simp only [UInt8.reduceToNat] at fits'
        rw [List.flatMap_cons, flatMap_of_decodeFrom rest following readRest,
          encodeChar_ofNat _ (by simp only [Nat.isValidChar]; omega), if_neg (by omega),
          if_neg (by omega), if_pos (by omega), ofNat_eq byte (by omega),
          ofNat_eq second (by omega), ofNat_eq third (by omega)]
        rfl
      by_cases four : 0xF0 ≤ byte.toNat ∧ byte.toNat ≤ 0xF4
      · rw [lead_four _ four] at read
        obtain ⟨second, rest, rfl, fits, readMore⟩ := decodeFrom_inside_succ read
        have fits := (fitsFour_iff _ _).mp fits
        obtain ⟨third, rest, rfl, fits', readMore⟩ := decodeFrom_inside_succ readMore
        obtain ⟨fourth, rest, following, rfl, fits'', readRest, rfl⟩ :=
          decodeFrom_inside_zero readMore
        simp only [UInt8.reduceToNat] at fits' fits''
        rw [List.flatMap_cons, flatMap_of_decodeFrom rest following readRest,
          encodeChar_ofNat _ (by simp only [Nat.isValidChar]; omega), if_neg (by omega),
          if_neg (by omega), if_neg (by omega), ofNat_eq byte (by omega),
          ofNat_eq second (by omega), ofNat_eq third (by omega),
          ofNat_eq fourth (by omega)]
        rfl
      rw [lead_refuse _ isByte (by omega)] at read
      cases read
termination_by bytes.length

/-- **Bytes that are read as a text are the bytes of the text.** -/
theorem encode_of_decode {bytes : Bytes} {text : String} (read : decode bytes = some text) :
    encode text = bytes := by
  obtain ⟨characters, readFrom, rfl⟩ := Option.map_eq_some_iff.mp read
  rw [encode, String.toList_ofList]
  exact flatMap_of_decodeFrom bytes characters readFrom

end Utf8

end ChatCodec
