import ChatCodec.Proofs.Decimal.Value
import ChatCodec.Proofs.RoundTrip
import ChatCodec.Proofs.Streaming.Texts

/-!
# Payloads of integers

A payload that is one word is decoded to the scalar that is read from what is captured for the
word, or refused with the error of reading it (`decodePayload_of_reads`).

An integer is captured as it stands, and read within the range of its type.  So a word of the
number grammar without fraction and exponent is decoded to an integer of a type exactly if this
is the value of the word, and refused in the name of the type if the value is out of range
(`Sized.decodePayload_integer`).  It is the one that the integer is encoded to, or a negative
zero.
-/

namespace ChatCodec

set_option autoImplicit false

open Decimal (intValue negativeZero)
open Json (IsInteger)

/-- **A payload that is one word is decoded as its scalar is read.** -/
theorem decodePayload_of_reads (C : Catalog) (matching : KeyMatching) {kind : Scalar}
    {word output : Bytes} {token : Token} (reads : Scanned.Reads token word output [])
    (accepted : kind.accepts token = true) :
    (decodePayload C matching (.scalar kind) word).result =
      (Scalar.read (Lexeme.ofText word).lexer token kind).map .scalar := by
  have scalar := Scalar.isScalar_of_accepts accepted
  obtain ⟨isText, isToken, -⟩ := isValueText_of_reads reads scalar
  have notOpaque : kind ≠ .opaqueJson := by
    rintro rfl
    cases token <;> cases accepted
  have notNull : token ≠ .null := by
    rintro rfl
    cases kind <;> cases accepted
  have closed : ¬ token.isOpening = true := by
    intro opens
    rw [Token.isScalar_of_isOpening opens] at scalar
    cases scalar
  rw [isText.result_decodePayload C matching, isToken, decodeInto, Lexer.tree, if_neg closed,
    Catalog.blank, decodeTree_scalar, Scalar.decode_of_ne notOpaque, Tree.head,
    if_neg notNull, if_pos accepted]
  cases Scalar.read (Lexeme.ofText word).lexer token kind <;> rfl

/-- An integer of the number grammar is one token, and captured as it stands. -/
theorem Json.IsInteger.reads {word rest : Bytes} (isInteger : IsInteger word)
    (stops : Ascii.Stops isNumberByte rest) : Scanned.Reads .integer word word rest := by
  obtain ⟨isMinus, isWhole⟩ := isInteger
  exact .number (NumberLiteral.ofBytes?_of_isWhole isMinus isWhole) stops

namespace Sized

variable {width : Width}

/-- An integer is encoded in decimal. -/
theorem toBytes_eq {C : Catalog} (number : Sized width) :
    (Val.scalar number : C.Value (.scalar (.integer width))).toBytes =
      Decimal.ofInt number.value := by
  rw [Val.toBytes, Val.encode, Scalar.bytes_encode, Buffer.bytes_empty, List.nil_append,
    Scalar.toJson, Json.Value.print, Json.Value.printBefore, List.append_nil, Json.Number.print]

/-- What an integer of the number grammar is decoded to. -/
theorem result_decodePayload (C : Catalog) (matching : KeyMatching) (width : Width) {word : Bytes}
    (isInteger : IsInteger word) :
    (decodePayload C matching (.scalar (.integer width)) word).result =
      match ofInt? width (intValue word) with
      | some number => .ok (.scalar number)
      | none =>
          .error ⟨.malformed width.title, 0, .integer, some (DecodeError.shownOutput word)⟩ := by
  have reads := isInteger.reads Ascii.stops_nil
  rw [decodePayload_of_reads C matching reads rfl, Lexeme.ofText_eq reads, Scalar.read]
  simp only
  rw [Decimal.read?_eq_ofInt? width isInteger]
  cases ofInt? width (intValue word) <;> rfl

/-- **Integers are exact, whatever their type.**  For every integer literal, however long:

* it is decoded to an integer of the type exactly if this is its value;
* it is refused as malformed, in the name of the type, if its value is out of range;
* in particular, a negative zero is zero.

What an integer of the type is encoded to is such a literal other than negative zero.  It is
decoded to the integer again, and no other literal is, apart from negative zero. -/
theorem decodePayload_integer (C : Catalog) (matching : KeyMatching) (width : Width) :
    (∀ word, IsInteger word →
      (∀ number : Sized width,
        (decodePayload C matching (.scalar (.integer width)) word).result = .ok (.scalar number) ↔
          intValue word = number.value) ∧
      (¬ (width.low ≤ intValue word ∧ intValue word ≤ width.high) →
        (decodePayload C matching (.scalar (.integer width)) word).result =
          .error ⟨.malformed width.title, 0, .integer, some (DecodeError.shownOutput word)⟩)) ∧
    (decodePayload C matching (.scalar (.integer width)) negativeZero).result =
      .ok (.scalar (zero width)) ∧
    ∀ number : Sized width,
      IsInteger (Val.scalar number : C.Value (.scalar (.integer width))).toBytes ∧
      (Val.scalar number : C.Value (.scalar (.integer width))).toBytes ≠ negativeZero ∧
      (decodePayload C matching (.scalar (.integer width))
        (Val.scalar number : C.Value (.scalar (.integer width))).toBytes).result =
          .ok (.scalar number) ∧
      ∀ word, IsInteger word → word ≠ negativeZero →
        (decodePayload C matching (.scalar (.integer width)) word).result = .ok (.scalar number) →
        word = (Val.scalar number : C.Value (.scalar (.integer width))).toBytes := by
  have decoded : ∀ {word : Bytes}, IsInteger word → ∀ number : Sized width,
      (decodePayload C matching (.scalar (.integer width)) word).result = .ok (.scalar number) ↔
        intValue word = number.value := by
    intro word isInteger number
    rw [result_decodePayload C matching width isInteger, ← ofInt?_eq_some_iff]
    cases ofInt? width (intValue word) with
    | some other => simp only [Except.ok.injEq, Val.scalar.injEq, Option.some.injEq]
    | none => simp only [reduceCtorEq]
  refine ⟨fun word isInteger => ⟨decoded isInteger, fun outside => ?_⟩, ?_, fun number => ?_⟩
  · rw [result_decodePayload C matching width isInteger, ofInt?, dif_neg outside]
  · refine (decoded (.parts (.inr rfl) (?_ : Json.IsWhole [Ascii.zero])) _).mpr rfl
    rw [← Decimal.ofNat_zero]
    exact Json.isWhole_ofNat 0
  · rw [toBytes_eq]
    refine ⟨Decimal.isInteger_ofInt _, Decimal.ofInt_ne_negativeZero _, ?_, ?_⟩
    · exact (decoded (Decimal.isInteger_ofInt _) number).mpr (Decimal.intValue_ofInt _)
    · intro word isInteger other found
      rw [← (decoded isInteger number).mp found, Decimal.ofInt_intValue isInteger other]

end Sized

end ChatCodec
