import ChatCodec.Proofs.Json.Opaque
import ChatCodec.Proofs.RoundTrip
import ChatCodec.Proofs.Streaming.Texts

/-!
# Payloads of opaque JSON

A payload of opaque JSON is read twice.  The lexer skips the value in it, tolerates more than
the strict reader does, and captures the bytes it has passed; these are what the strict reader
gets.

The lexer does not come between the reader and the payload
(`decodePayload_opaque_iff_ofDocument`).  What the strict reader takes, the lexer skips to the
end, and what is captured of a payload that the lexer has skipped to the end is read as the
whole payload is.  The captured bytes are the payload without the white space around its value
(`isValueText_iff_captured`).
-/

namespace ChatCodec

set_option autoImplicit false

open Json (Value)

/-! ## Results -/

namespace Outcome

variable {Result Other : Type} {outcome : Outcome Result} {value : Result}

theorem result_map_eq_ok_iff {wrap : Result → Other} (injective : wrap.Injective) :
    (outcome.map wrap).result = .ok (wrap value) ↔ outcome.result = .ok value := by
  rw [result_eq_ok_iff, result_eq_ok_iff]
  exact and_congr_right fun _ => injective.eq_iff

/-- One step behind another gives a result if the first ends well and the second gives it. -/
theorem result_follow_eq_ok_iff {left : Result → Other} {next : Result → Lexer → Outcome Other}
    {other : Other} :
    (outcome.follow left next).result = .ok other ↔
      outcome.error = none ∧ (next outcome.value outcome.lexer).result = .ok other := by
  cases ended : outcome.error with
  | none =>
      obtain ⟨errors, values, -⟩ := follow_of_error_eq_none ended left next
      rw [result_eq_ok_iff, result_eq_ok_iff, errors, values]
      exact (and_iff_right rfl).symm
  | some error =>
      rw [follow, ended, result_eq_ok_iff]
      simp only [map, ended, reduceCtorEq, false_and]

/-- A value that is followed by the end is the result. -/
theorem result_finish_eq_ok_iff :
    (outcome.follow id finishWith).result = .ok value ↔
      outcome.result = .ok value ∧ outcome.lexer.finish.error = none := by
  rw [result_follow_eq_ok_iff, result_eq_ok_iff, result_eq_ok_iff, and_assoc,
    and_comm (a := outcome.value = value)]
  rfl

end Outcome

/-- **Opaque JSON is decoded in two steps**: the value is skipped, and the strict reader reads
what is captured of it. -/
theorem decodeOpaque_result_eq_ok_iff {tree : Tree Lexeme} {before value : Value} :
    (decodeOpaque tree before).result = .ok value ↔ (skipTree tree).error = none ∧
      Value.ofDocument (tree.head.lexer.rawTo (skipTree tree).lexer) = .ok value := by
  rw [decodeOpaque, Outcome.result_follow_eq_ok_iff]
  refine and_congr_right fun _ => ?_
  dsimp only
  cases Value.ofDocument (tree.head.lexer.rawTo (skipTree tree).lexer) with
  | ok other => rw [Outcome.result_eq_ok_iff, Except.ok.injEq]; exact and_iff_right rfl
  | error fault => simp only [Outcome.result, Outcome.fail, reduceCtorEq]

/-- Opaque JSON ends where its value does. -/
theorem lexer_decodeOpaque {tree : Tree Lexeme} {before value : Value}
    (decoded : (decodeOpaque tree before).result = .ok value) :
    (decodeOpaque tree before).lexer = (skipTree tree).lexer := by
  have skipped := decodeOpaque_passesLike tree before (Outcome.result_eq_ok_iff.mp decoded).1
  rw [skipped]
  rfl

section

variable {payload : Bytes}

/-! ## What is captured -/

/-- What the lexer captures of a payload. -/
def capturePayload (payload : Bytes) : Outcome Bytes :=
  (Lexeme.ofText payload).lexer.captureValue (Lexeme.ofText payload).token

/-- **The tokens of a payload whose value is skipped** make a run, from its beginning to where
the skipper stops. -/
theorem run_of_skipText (skipped : (skipText payload).error = none) :
    ((Lexeme.ofText payload).lexer.tree (Lexeme.ofText payload).token).IsNested
        (fun lexeme => lexeme.token.role) ∧
      Lexer.Run (Lexer.ofBytes payload)
        ((Lexeme.ofText payload).lexer.tree (Lexeme.ofText payload).token).items
        (skipText payload).lexer := by
  obtain ⟨nested, lands⟩ := skipTree_lands (Lexer.isOpened_tree _ _) skipped
  obtain ⟨rest, found⟩ := Lexer.exists_body_of_isValue (Lexer.isValue_of_skipValue skipped)
  exact ⟨nested, lands ▸ (Lexer.run_of_body found nested).1⟩

/-- **The bytes that are captured** of a payload that is skipped to the end are the payload
without the white space around its value. -/
theorem isValueText_iff_captured :
    IsValueText payload ↔ (capturePayload payload).error = none ∧
      ∃ spaces blanks, (∀ byte ∈ spaces, Ascii.isSpace byte = true) ∧
        (∀ byte ∈ blanks, Ascii.isSpace byte = true) ∧
        payload = spaces ++ (capturePayload payload).value ++ blanks := by
  rw [IsValueText, Lexer.finish_iff]
  refine and_congr_right fun skipped => ?_
  obtain ⟨-, run⟩ := run_of_skipText skipped
  obtain ⟨others, items⟩ := Tree.items_eq_cons
    ((Lexeme.ofText payload).lexer.tree (Lexeme.ofText payload).token)
  obtain ⟨spaces, raw, blank, begun, ahead, captured⟩ := (items ▸ run).exists_raw
  rw [Lexer.head_tree] at captured
  have value : (capturePayload payload).value = raw := captured
  have payload_eq : payload = spaces ++ raw ++ (skipText payload).lexer.ahead := ahead
  rw [value]
  constructor
  · rintro ⟨blanks, blankBehind, -, behind⟩
    rw [List.append_nil] at behind
    exact ⟨spaces, blanks, blank, blankBehind, behind ▸ payload_eq⟩
  · rintro ⟨spaces', blanks, blank', blankBehind, payload_eq'⟩
    -- The captured bytes begin where the white space in front of them ends, so what is behind
    -- them is the same in both.
    have front : spaces' = spaces := by
      rw [← Ascii.takeWhile_append blank' (begun blanks), ← List.append_assoc, ← payload_eq',
        payload_eq, List.append_assoc, Ascii.takeWhile_append blank (begun _)]
    subst front
    have behind := List.append_cancel_left (payload_eq.symm.trans payload_eq')
    refine ⟨blanks, blankBehind, run.fault_eq_none rfl, ?_⟩
    rw [behind, List.append_nil]

/-! ## What is read -/

variable {C : Catalog} {matching : KeyMatching} {value : Value}

/-- A payload of opaque JSON is decoded if the lexer skips it to its end, and the strict reader
reads what is captured. -/
theorem decodePayload_opaque_iff_captured :
    (decodePayload C matching (.scalar .opaqueJson) payload).result = .ok (.scalar value) ↔
      IsValueText payload ∧ Value.ofDocument (capturePayload payload).value = .ok value := by
  rw [decodePayload]
  by_cases isValue : (Lexer.ofBytes payload).scan.token.isValue = true
  · simp only [if_pos isValue]
    rw [decodeInto, Catalog.blank, decodeTree_scalar, Scalar.decode,
      Outcome.result_finish_eq_ok_iff,
      Outcome.result_map_eq_ok_iff fun _ _ same => Val.scalar.inj same]
    calc
      _ ↔ (decodeOpaque _ _).result = .ok value ∧ (skipText payload).lexer.finish.error = none :=
        and_congr_right fun decoded => by rw [Outcome.map, lexer_decodeOpaque decoded]; rfl
      _ ↔ IsValueText payload ∧ _ := by
        rw [decodeOpaque_result_eq_ok_iff, Lexer.head_tree]
        exact and_right_comm
  · simp only [if_neg isValue]
    exact ⟨fun decoded => (by cases decoded), fun accepted => absurd accepted.1.isValue isValue⟩

/-- **A payload that the lexer has skipped to the end is read as what it has captured of it.** -/
theorem ofDocument_captured (isText : IsValueText payload) :
    Value.ofDocument (capturePayload payload).value = .ok value ↔
      Value.ofDocument payload = .ok value := by
  obtain ⟨nested, run⟩ := run_of_skipText isText.1
  obtain ⟨blanks, blank, -, behind⟩ := Lexer.finish_iff.mp isText.2
  obtain ⟨whole, related, ofWhole⟩ := Value.ofDocument_of_run nested run (List.forall_mem_nil _)
    (show (Lexer.ofBytes payload).ahead = [] ++ payload ++ [] from (List.append_nil _).symm)
    blank behind
  obtain ⟨part, related', ofPart⟩ := Value.ofDocument_rawTo nested run
  rw [Lexer.head_tree] at ofPart
  have captured : Value.ofDocument (capturePayload payload).value = _ := ofPart
  rw [captured, ofWhole]
  exact ⟨Json.readValue_of_related related' related (Nat.le_refl _),
    Json.readValue_of_related related related' (Nat.le_refl _)⟩

/-- **What the strict reader takes, the lexer skips to the end.** -/
theorem isValueText_of_ofDocument (read : Value.ofDocument payload = .ok value) :
    IsValueText payload := by
  obtain ⟨tree, grouped, readTree⟩ := Json.readDocument_eq_ok_iff.mp read
  have inOrder := Json.inOrder_of_readValue (Json.Piece.isOpened_body grouped) readTree
  obtain ⟨tokens, last, alike, nested, run, ended⟩ :=
    Json.exists_run_of_body (show (Lexer.ofBytes payload).fault = none from rfl) rfl grouped inOrder
  have isValue : (Lexeme.ofText payload).token.isValue = true := by
    rw [Lexeme.ofText, ← run.head_eq]
    exact inOrder.isValue alike
  obtain ⟨rest, found⟩ := Lexer.exists_body_of_isValue isValue
  rw [run.body_eq_more nested] at found
  have skipped : skipText payload = .done () last := by
    rw [skipText, Lexer.skipValue, Lexeme.ofText, ← (Body.more.inj found).1,
      inOrder.skipTree_eq alike, run.last_eq]
  rw [IsValueText, skipped, Lexer.finish_iff]
  exact ⟨rfl, Lexer.scan_eof_iff.mp ended⟩

end

/-- **Opaque JSON through the lexer is opaque JSON read directly.**  Whatever the payload, it is
decoded to a value exactly if the strict reader reads that value from the payload itself.  In
that case the lexer has skipped one value, nothing but white space is around it, and its bytes
are what the strict reader has got. -/
theorem decodePayload_opaque_iff_ofDocument (C : Catalog) (matching : KeyMatching)
    (payload : Bytes) (value : Value) :
    ((decodePayload C matching (.scalar .opaqueJson) payload).result = .ok (.scalar value) ↔
      Value.ofDocument payload = .ok value) ∧
    ((decodePayload C matching (.scalar .opaqueJson) payload).result = .ok (.scalar value) ↔
      (capturePayload payload).error = none ∧
        (∃ spaces blanks, (∀ byte ∈ spaces, Ascii.isSpace byte = true) ∧
          (∀ byte ∈ blanks, Ascii.isSpace byte = true) ∧
          payload = spaces ++ (capturePayload payload).value ++ blanks) ∧
        Value.ofDocument (capturePayload payload).value = .ok value) := by
  have captured :
      (decodePayload C matching (.scalar .opaqueJson) payload).result = .ok (.scalar value) ↔
        IsValueText payload ∧ Value.ofDocument (capturePayload payload).value = .ok value :=
    decodePayload_opaque_iff_captured
  refine ⟨captured.trans ⟨?_, fun read => ?_⟩, ?_⟩
  · rintro ⟨isText, read⟩
    exact (ofDocument_captured isText).mp read
  · have isText := isValueText_of_ofDocument read
    exact ⟨isText, (ofDocument_captured isText).mpr read⟩
  · rw [captured, isValueText_iff_captured, and_assoc]

/-- Commas before closing brackets, halves of surrogate pairs and bytes that are no text pass the
lexer, and are refused all the same. -/
example : ∀ payload ∈ [bytesOf "[1,]", bytesOf "\"\\ud800\"", [34, 128, 34]],
    IsValueText payload ∧
      (decodePayload Chat .exact (.scalar .opaqueJson) payload).result.toOption = none := by
  decide +kernel

end ChatCodec
