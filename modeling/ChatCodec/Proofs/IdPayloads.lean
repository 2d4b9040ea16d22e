import ChatCodec.Proofs.Declarative.ReadBack
import ChatCodec.Proofs.IntegerPayloads

/-!
# Payloads of identifiers

An identifier is spelled as an integer, bare or in quotes, and it is read by the streaming
decoder and by the declarative reader.  That makes four readings of one integer literal, and each
of them has its own way to it:

* the decoder reads what is captured of the word or of the text, which is the same;
* the declarative reader hands a text over as a text, which is read like what is captured;
* it hands a bare literal over as the word that it holds, or as a double if no word holds it.

All four come to the identifier of the value of the literal, or to none if no word holds the value
(`Id.readings_eq`).  The exception is a bare negative zero: it is handed over as a double, from
which no identifier is taken, and the other three readings come to the unset identifier.
-/

namespace ChatCodec

set_option autoImplicit false

open Decimal (intValue negativeZero)
open Json (IsInteger IsWord)

/-! ## Documents of one word -/

/-- **The declarative reader reads a document that is one word** as the scalar of its atom. -/
theorem Declarative.read_of_reads {C : Catalog} {kind : Scalar} {word output : Bytes}
    {token : Token} (reads : Scanned.Reads token word output [])
    (isScalar : token.isScalar = true) :
    Declarative.read C (.scalar kind) word =
      (Json.Atom.read word >>= fun atom => (scalarOf kind atom).map .scalar) := by
  have faces := Lexer.faces_ofBytes word
  obtain ⟨lexeme, rfl, rfl, rfl, run, behind⟩ :=
    faces.exists_lexeme reads (Token.isFinal_of_isScalar isScalar)
  have nested : (Tree.leaf lexeme).IsNested fun lexeme => lexeme.token.role :=
    Token.role_of_isScalar isScalar
  obtain ⟨tree, alike, grouped⟩ := Json.Piece.body_of_run nested run (List.forall_mem_nil _)
    (show _ = [] ++ lexeme.source ++ [] from faces.ahead_eq) (List.forall_mem_nil _)
    behind.ahead_eq
  cases alike with
  | leaf same =>
      obtain ⟨rest, rfl, reads⟩ := same.exists_rest isScalar
      rw [read, Json.readDocument, grouped]
      simp only
      rw [readTree, readLeaf_scalar, Json.Atom.read_append reads isScalar]
      exact bind_pure _

/-! ## Integer literals -/

namespace Json

/-- The bytes of an integer literal need no escape. -/
theorem IsInteger.isPlain {word : Bytes} (isInteger : IsInteger word) :
    ∀ byte ∈ word, Ascii.IsPlain byte := by
  obtain @⟨minus, whole, isMinus, isWhole⟩ := isInteger
  intro byte isIn
  rcases List.mem_append.mp isIn with inMinus | inWhole
  · rcases isMinus with rfl | rfl
    · cases inMinus
    · rw [List.mem_singleton.mp inMinus]
      exact ⟨by decide, by decide⟩
  · exact Ascii.isPlain_of_isDigit (isWhole.1.2 byte inWhole)

/-- A negative zero is no integer for the declarative reader, and neither is a literal whose
value no word holds. -/
theorem Number.integer?_eq_none {minus whole : Bytes} (isMinus : minus = [] ∨ minus = [Ascii.minus])
    (isWhole : IsWhole whole)
    (noWord : minus ++ whole = negativeZero ∨ ¬ IsWord (intValue (minus ++ whole))) :
    integer? ⟨!minus.isEmpty, whole, none, none⟩ = none := by
  have words : Decimal.wordSize = 0x10000000000000000 := rfl
  rw [integer?, NumberLiteral.isInteger]
  simp only [Option.isNone_none, Bool.and_self, if_true, Decimal.magnitude?_eq isWhole.1]
  by_cases fits : Decimal.value whole < Decimal.wordSize
  case neg => rw [if_neg fits]
  rw [if_pos fits]
  simp only
  rcases isMinus with rfl | rfl
  · obtain ⟨first, rest, rfl⟩ := List.exists_cons_of_ne_nil isWhole.1.1
    have digit := Decimal.ne_minus_of_isDigit (isWhole.1.2 first List.mem_cons_self)
    rw [List.nil_append, Decimal.intValue_of_isDigits isWhole.1] at noWord
    rcases noWord with same | outside
    · exact absurd (List.cons.inj same).1 digit
    · exact absurd ⟨by omega, by omega⟩ outside
  · by_cases zero : Decimal.value whole = 0
    · exact if_pos ⟨rfl, zero⟩
    · rw [if_neg (by simp [zero])]
      rcases noWord with same | outside
      · cases (List.cons.inj same).2
        exact absurd rfl zero
      · rw [List.singleton_append, Decimal.intValue_minus] at outside
        exact dif_neg outside

/-- **An integer literal is read as the word of its value**, and as a double, if as anything,
where there is none. -/
theorem Atom.read_of_isInteger {word : Bytes} (isInteger : IsInteger word) :
    (∃ fits : IsWord (intValue word), word ≠ negativeZero ∧
      read word = .ok (.number (.integer (intValue word) fits))) ∨
    ((word = negativeZero ∨ ¬ IsWord (intValue word)) ∧
      ∀ atom, read word = .ok atom → ∃ bits, atom = .number (.double bits)) := by
  by_cases noWord : word = negativeZero ∨ ¬ IsWord (intValue word)
  · refine .inr ⟨noWord, fun atom isRead => ?_⟩
    obtain ⟨isMinus, isWhole⟩ := isInteger
    have literal := NumberLiteral.ofBytes?_of_isWhole isMinus isWhole
    have whole := read_number literal []
    rw [readNumber_append literal Ascii.stops_nil, List.append_nil, isRead, Number.ofLiteral?,
      Number.integer?_eq_none isMinus isWhole noWord] at whole
    obtain ⟨number, found, rfl⟩ := map_eq_ok_iff.mp whole.symm
    simp only at found
    split at found
    · next known =>
        cases found
        obtain ⟨bits, -, rfl⟩ := Option.map_eq_some_iff.mp known
        exact ⟨bits, rfl⟩
    · cases found
  · obtain ⟨other, fits⟩ := not_or.mp noWord
    have isRead := read_ofInt (Decidable.not_not.mp fits)
    rw [Decimal.ofInt_intValue isInteger other] at isRead
    exact .inl ⟨_, other, isRead⟩

end Json

namespace Id

variable {resource : Resource}

/-- The identifier of an integer, if it is one that a word holds. -/
def ofInteger? (value : Int) : Option (Id resource) :=
  if 0 ≤ value ∧ value < Decimal.wordSize then some ⟨UInt64.ofNat value.toNat⟩ else none

/-- A word in quotes. -/
def inQuotes (word : Bytes) : Bytes := Ascii.quote :: (word ++ [Ascii.quote])

/-- What the streaming decoder takes for an identifier. -/
def decoded? (C : Catalog) (matching : KeyMatching) (document : Bytes) : Option (Id resource) :=
  ((decodePayload C matching (.scalar (.id resource)) document).result.map Val.get).toOption

/-- What the declarative reader takes for an identifier. -/
def declared? (C : Catalog) (document : Bytes) : Option (Id resource) :=
  ((Declarative.read C (.scalar (.id resource)) document).map Val.get).toOption

/-- The readings of an integer literal as an identifier: by the streaming decoder and by the
declarative reader, each of it as it stands and in quotes. -/
def readings (C : Catalog) (matching : KeyMatching) (resource : Resource) (word : Bytes) :
    List (Option (Id resource)) :=
  [decoded? C matching word, decoded? C matching (inQuotes word),
    declared? C word, declared? C (inQuotes word)]

/-! ### Readings of what is captured -/

/-- An identifier is read from the digits of its value. -/
theorem read?_eq {word : Bytes} (isInteger : IsInteger word) :
    (read? word : Option (Id resource)) = ofInteger? (intValue word) := by
  rw [read?, Decimal.readNatural?_eq isInteger, ofInteger?]
  split <;> rfl

/-- A literal in quotes is a text that means the literal. -/
theorem reads_inQuotes {word : Bytes} (isInteger : IsInteger word) :
    Scanned.Reads .string (inQuotes word) word [] := by
  obtain ⟨units, isText, spelled⟩ :=
    TextScan.exists_isText_of_isRaw fun byte isIn => (isInteger.isPlain byte isIn).isRaw
  have reads := Scanned.Reads.text isText []
  rw [spelled] at reads
  exact reads

/-- The decoder reads an identifier from what is captured. -/
theorem decoded?_of_reads (C : Catalog) (matching : KeyMatching) {word output : Bytes}
    {token : Token} (reads : Scanned.Reads token word output [])
    (accepted : (Scalar.id resource).accepts token = true) :
    (decoded? C matching word : Option (Id resource)) = read? output := by
  rw [decoded?, decodePayload_of_reads C matching reads accepted, Lexeme.ofText_eq reads,
    Scalar.read]
  simp only
  cases (read? output : Option (Id resource)) <;> rfl

/-! ### Readings of what is handed over -/

/-- The declarative reader takes an identifier from the atom of a word. -/
theorem declared?_of_reads (C : Catalog) {word output : Bytes} {token : Token}
    (reads : Scanned.Reads token word output []) (isScalar : token.isScalar = true) :
    (declared? C word : Option (Id resource)) =
      (Json.Atom.read word).toOption.bind
        fun atom => (ofVisit (Declarative.visitOf atom)).toOption := by
  rw [declared?, Declarative.read_of_reads reads isScalar]
  cases Json.Atom.read word with
  | error fault => rfl
  | ok atom =>
      show (((Declarative.scalarOf (.id resource) atom).map Val.scalar).map Val.get).toOption =
        (ofVisit (Declarative.visitOf atom)).toOption
      rw [Declarative.scalarOf_id]
      cases (ofVisit (Declarative.visitOf atom) : Except _ (Id resource)) <;> rfl

/-- A literal in quotes is handed over as a text, and read like what is captured of it. -/
theorem declared?_inQuotes (C : Catalog) {word : Bytes} (isInteger : IsInteger word) :
    (declared? C (inQuotes word) : Option (Id resource)) = read? word := by
  have isRead := Json.Atom.read_quoted (String.ofList (word.map Char.ofUInt8))
  rw [quoted_ofList_map isInteger.isPlain] at isRead
  rw [declared?_of_reads C (reads_inQuotes isInteger) rfl, inQuotes, isRead]
  show (ofVisit (.text _)).toOption = _
  rw [ofVisit_text, bytesOf_ofList_map isInteger.isPlain, read?]
  cases Decimal.readNatural? word <;> rfl

/-- An integer that is handed over as a word is the identifier that a word holds. -/
theorem ofVisit_integer {value : Int} (fits : IsWord value) :
    (ofVisit (Declarative.visitOf (.number (.integer value fits)))).toOption =
      (ofInteger? value : Option (Id resource)) := by
  have words : Decimal.wordSize = 0x10000000000000000 := rfl
  rw [Declarative.visitOf, ofInteger?]
  by_cases positive : 0 ≤ value
  · rw [if_pos positive, if_pos ⟨positive, by omega⟩, ofVisit_natural]
    rfl
  · rw [if_neg positive, if_neg (by omega), ofVisit_signed_of_neg positive]
    rfl

/-- A bare literal is handed over as the word of its value, or else as a double, which is no
identifier. -/
theorem declared?_bare (C : Catalog) {word : Bytes} (isInteger : IsInteger word) :
    (declared? C word : Option (Id resource)) =
      if word = negativeZero then none else ofInteger? (intValue word) := by
  have words : Decimal.wordSize = 0x10000000000000000 := rfl
  rw [declared?_of_reads C (isInteger.reads Ascii.stops_nil) rfl]
  rcases Json.Atom.read_of_isInteger isInteger with ⟨fits, other, isRead⟩ | ⟨noWord, doubles⟩
  · rw [isRead, if_neg other]
    exact ofVisit_integer fits
  · have refused : (if word = negativeZero then none
        else (ofInteger? (intValue word) : Option (Id resource))) = none := by
      rcases noWord with same | outside
      · exact if_pos same
      · have beyond : ¬ (0 ≤ intValue word ∧ intValue word < Decimal.wordSize) := by omega
        rw [ofInteger?, if_neg beyond, ite_self]
    rw [refused]
    cases isRead : Json.Atom.read word with
    | error fault => rfl
    | ok atom =>
        obtain ⟨bits, rfl⟩ := doubles atom isRead
        rfl

/-! ## All readings -/

/-- What the four readings of an integer literal are. -/
theorem readings_eq (C : Catalog) (matching : KeyMatching) (resource : Resource) {word : Bytes}
    (isInteger : IsInteger word) :
    readings C matching resource word =
      [ofInteger? (intValue word), ofInteger? (intValue word),
        if word = negativeZero then none else ofInteger? (intValue word),
        ofInteger? (intValue word)] := by
  rw [readings, decoded?_of_reads C matching (isInteger.reads Ascii.stops_nil) rfl,
    decoded?_of_reads C matching (reads_inQuotes isInteger) rfl, declared?_inQuotes C isInteger,
    declared?_bare C isInteger, read?_eq isInteger]

/-- The identifier of an integer has the integer as its value. -/
theorem ofInteger?_cases (value : Int) :
    (∃ id : Id resource, value = id.value.toNat ∧ ofInteger? value = some id) ∨
      ¬ (0 ≤ value ∧ value < Decimal.wordSize) ∧
        (ofInteger? value : Option (Id resource)) = none := by
  by_cases fits : 0 ≤ value ∧ value < Decimal.wordSize
  · refine .inl ⟨⟨UInt64.ofNat value.toNat⟩, ?_, if_pos fits⟩
    have small : value.toNat < 2 ^ 64 := by
      have words : Decimal.wordSize = 2 ^ 64 := rfl
      omega
    rw [UInt64.toNat_ofNat_of_lt' small, Int.toNat_of_nonneg fits.1]
  · exact .inr ⟨fits, if_neg fits⟩

/-- **An identifier is the same however it is spelled**, except for a negative zero.  For every
integer literal, however long, the decoder and the declarative reader take the identifier of its
value both from the bare literal and from the literal in quotes, or none of them takes any.  They
part on a negative zero, and only there. -/
theorem readings_alike_iff (C : Catalog) (matching : KeyMatching) (resource : Resource)
    {word : Bytes} (isInteger : IsInteger word) :
    ((∃ id : Id resource, intValue word = id.value.toNat ∧
        ∀ reading ∈ readings C matching resource word, reading = some id) ∨
      ¬ (0 ≤ intValue word ∧ intValue word < Decimal.wordSize) ∧
        ∀ reading ∈ readings C matching resource word, reading = none) ↔
      word ≠ negativeZero := by
  constructor
  · rintro alike rfl
    rw [readings_eq C matching resource isInteger, if_pos rfl] at alike
    rcases alike with ⟨id, -, same⟩ | ⟨outside, -⟩
    · cases same none (by simp)
    · exact outside ⟨Int.le_refl 0, by decide⟩
  · intro other
    rw [readings_eq C matching resource isInteger, if_neg other]
    have all : ∀ {outcome : Option (Id resource)}, ofInteger? (intValue word) = outcome →
        ∀ reading ∈ List.replicate 4 (ofInteger? (intValue word)), reading = outcome := by
      rintro _ rfl reading isIn
      exact (List.mem_replicate.mp isIn).2
    rcases ofInteger?_cases (intValue word) with ⟨id, same, taken⟩ | ⟨outside, refused⟩
    · exact .inl ⟨id, same, all taken⟩
    · exact .inr ⟨outside, all refused⟩

/-- The largest word is an identifier, however it is spelled. -/
theorem readings_largestWord :
    IsInteger (bytesOf "18446744073709551615") ∧
      bytesOf "18446744073709551615" ≠ negativeZero ∧
      ∀ reading ∈ readings Chat .exact .user (bytesOf "18446744073709551615"),
        reading = some ⟨0xFFFFFFFFFFFFFFFF⟩ := by
  have isWhole : Json.IsWhole (bytesOf "18446744073709551615") :=
    ⟨⟨by decide +kernel, by decide +kernel⟩, by decide +kernel⟩
  have isInteger : IsInteger (bytesOf "18446744073709551615") :=
    (.parts (.inl rfl) isWhole : IsInteger ([] ++ bytesOf "18446744073709551615"))
  have other : bytesOf "18446744073709551615" ≠ negativeZero := by decide +kernel
  have value : intValue (bytesOf "18446744073709551615") = 0xFFFFFFFFFFFFFFFF := by decide +kernel
  refine ⟨isInteger, other, ?_⟩
  rcases (readings_alike_iff Chat .exact .user isInteger).mpr other with
    ⟨⟨word⟩, same, alike⟩ | ⟨outside, -⟩
  · obtain rfl : word = 0xFFFFFFFFFFFFFFFF := by
      rw [value] at same
      exact UInt64.toNat_inj.mp (Int.ofNat.inj same.symm)
    exact alike
  · rw [value] at outside
    exact absurd ⟨by decide, by decide⟩ outside

/-- **A bare negative zero is no identifier for the declarative reader.**  The other three readings
of it are the unset identifier, so that the four are not alike. -/
theorem readings_negativeZero :
    IsInteger negativeZero ∧
      readings Chat .exact .user negativeZero = [some unset, some unset, none, some unset] ∧
      ¬ ∃ outcome, ∀ reading ∈ readings Chat .exact .user negativeZero, reading = outcome := by
  have isInteger : IsInteger negativeZero :=
    .parts (.inr rfl) ⟨⟨List.cons_ne_nil _ _, by decide +kernel⟩, fun _ => rfl⟩
  have found : readings Chat .exact .user negativeZero =
      [some unset, some unset, none, some unset] :=
    readings_eq Chat .exact .user isInteger
  refine ⟨isInteger, found, ?_⟩
  rintro ⟨outcome, alike⟩
  rw [found] at alike
  cases (alike none (by simp)).trans (alike (some unset) (by simp)).symm

end Id

end ChatCodec
