import ChatCodec.Proofs.RoundTrip

/-!
# Payloads of timestamps

A timestamp is encoded as its printed form in quotes, and decoded from a text by reading it.  So
the payload that it is encoded to is decoded to what its printed form is read as, which is the
timestamp itself if this is no leap second (`Timestamp.decodePayload_toBytes`).

A leap second is encoded with seven digits behind the point, and these are read as a fraction.
Its microseconds are pushed back by one place, and the million that makes it a leap second is
counted among them once more.  Only the leap second with 1111111 microseconds comes back
unchanged.
-/

namespace ChatCodec

set_option autoImplicit false

section

variable {C : Catalog} {matching : KeyMatching}

/-- **A payload that is one text** is decoded to the scalar that the text is taken for. -/
theorem decodePayload_text {kind : Scalar} (notOpaque : kind ≠ .opaqueJson) {text : String}
    {value : kind.Carrier} (accepted : Declarative.scalarOf kind (.text text) = .ok value) :
    (decodePayload C matching (.scalar kind) (quoted text)).result = .ok (.scalar value) := by
  obtain ⟨lexeme, last, shows, run, behind⟩ :=
    Json.exists_shows_text (Lexer.faces_ofBytes (quoted text))
  have tokens : Lexer.Run (Lexer.ofBytes (quoted text)) (Tree.leaf lexeme).items last := run
  have spells : Json.Spells (.leaf lexeme) (.text text) := .atom shows
  refine decodePayload_of_returns spells.isValue spells.isNested tokens
    (Lexer.scan_eof_iff.mpr behind.approaches) ?_
  rw [Catalog.blank, decodeTree_scalar, ← tokens.lexer_eq_of_leaf]
  exact (Scalar.decode_returns notOpaque shows.shown accepted).map _

end

namespace Timestamp

/-- A timestamp is encoded as its text. -/
theorem toBytes_eq {C : Catalog} (timestamp : Timestamp) :
    (Val.scalar timestamp : C.Value (.scalar .timestamp)).toBytes =
      quoted (asciiText timestamp.print) := by
  rw [Val.toBytes, Val.encode, Scalar.bytes_encode, Buffer.bytes_empty, List.nil_append,
    Scalar.toJson, Json.Value.print, Json.Value.printBefore, List.append_nil]

theorem reread_eq_iff (timestamp : Timestamp) :
    timestamp.reread = timestamp ↔ timestamp.micros < 1000000 ∨ timestamp.micros = 1111111 := by
  obtain ⟨seconds, micros, _, _⟩ := timestamp
  rw [reread, Timestamp.mk.injEq]
  dsimp only
  split <;> omega

/-- **What a timestamp is written to is read as the timestamp, unless this is a leap second.**
Both its printed form and the payload that it is encoded to are read again, as one timestamp, and
this is the one that was written exactly if it is no leap second, or the leap second with 1111111
microseconds. -/
theorem decodePayload_toBytes (C : Catalog) (matching : KeyMatching) (timestamp : Timestamp) :
    parse timestamp.print = .ok timestamp.reread ∧
      (decodePayload C matching (.scalar .timestamp)
        (Val.scalar timestamp : C.Value (.scalar .timestamp)).toBytes).result =
          .ok (.scalar timestamp.reread) ∧
      (timestamp.reread = timestamp ↔
        timestamp.micros < 1000000 ∨ timestamp.micros = 1111111) := by
  refine ⟨timestamp.parse_print, ?_, timestamp.reread_eq_iff⟩
  rw [timestamp.toBytes_eq]
  exact decodePayload_text (by decide) timestamp.scalarOf_print

/-- The leap second at the end of 2016. -/
def leapSecond : Timestamp := ⟨1483228799, 1000000, by decide, by decide⟩

/-- **A leap second does not come back.**  The one at the end of 2016 prints with a fraction that
its own text does not have, and what it has printed is read as another timestamp. -/
theorem leapSecond_changes :
    parse (bytesOf "2016-12-31T23:59:60+00:00") = .ok leapSecond ∧
      leapSecond.print = bytesOf "2016-12-31T23:59:60.1000000+00:00" ∧
      parse leapSecond.print ≠ .ok leapSecond ∧
      (decodePayload Chat .lenient (.scalar .timestamp)
        (Val.scalar leapSecond : Chat.Value (.scalar .timestamp)).toBytes).result ≠
          .ok (.scalar leapSecond) := by
  decide +kernel

end Timestamp

end ChatCodec
