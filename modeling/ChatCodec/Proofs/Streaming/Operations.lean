import ChatCodec.Proofs.Lexer.Inside
import ChatCodec.Proofs.Streaming.Events

/-!
# Operations on a lexer

Whoever holds a lexer may scan a token, skip or capture a value, decode one, or ask for the end,
in any order and with any token in hand, and may go on after a failure.  Each operation is no
more than a number of scans (`Lexer.comesTo_run`): decoding and skipping look at the tokens one
after another, and where they stop they leave the lexer behind the last one they looked at.  There
are at most one more of these scans than there are bytes left, because every token takes up a byte
and nothing is read behind the end or a fault.

So whatever holds of one scan holds of all operations, one after another (`Lexer.perform_laws`).
-/

namespace ChatCodec

set_option autoImplicit false

/-! ## Scanning on -/

namespace Lexer

variable {lexer later : Lexer}

theorem after_succ (lexer : Lexer) (count : Nat) :
    lexer.after (count + 1) = lexer.scan.lexer.after count := by
  induction count with
  | zero => rfl
  | succ count ih =>
      rw [after, ih]
      rfl

/-- The end and a fault are for good. -/
theorem after_of_final (final : lexer.scan.token.isFinal = true) (count : Nat) :
    lexer.scan.lexer.after count = lexer.scan.lexer := by
  induction count with
  | zero => rfl
  | succ count ih => rw [after, ih, scan_scan_of_final final]

/-- Scanning never leads back. -/
theorem position_le_after (lexer : Lexer) (count : Nat) :
    lexer.position ≤ (lexer.after count).position := by
  induction count with
  | zero => exact Nat.le_refl _
  | succ count ih => exact Nat.le_trans ih (lexer.after count).isBehind_scan.ends

theorem IsInside.after {payload : Bytes} (inside : lexer.IsInside payload) (count : Nat) :
    (lexer.after count).IsInside payload := by
  induction count with
  | zero => exact inside
  | succ count ih => exact ih.scan

/-- The lexer comes to the later one by scanning, at most once more than there are bytes left. -/
def ComesTo (lexer later : Lexer) : Prop :=
  ∃ count ≤ lexer.ahead.length + 1, later = lexer.after count

theorem ComesTo.refl (lexer : Lexer) : lexer.ComesTo lexer := ⟨0, Nat.zero_le _, rfl⟩

theorem ComesTo.scan (lexer : Lexer) : lexer.ComesTo lexer.scan.lexer :=
  ⟨1, Nat.le_add_left 1 _, rfl⟩

/-- One token that is not the last in front. -/
theorem ComesTo.behind (going : lexer.scan.token.isFinal = false)
    (comes : lexer.scan.lexer.ComesTo later) : lexer.ComesTo later := by
  obtain ⟨count, bound, rfl⟩ := comes
  have shorter := lexer.scan_ahead_lt going
  exact ⟨count + 1, by omega, (lexer.after_succ count).symm⟩

/-- **Scanning comes to every token of the stream**, and to its last one. -/
theorem comesTo_stream : ∀ lexeme, lexeme ∈ lexer.stream.lexemes ∨ lexeme = lexer.stream.last →
    lexer.ComesTo lexeme.lexer := by
  induction lexer using Lexer.stream.induct with
  | case1 lexer next going _ ih =>
      intro lexeme isIn
      rw [stream_of_going going] at isIn
      rcases isIn with inFront | isLast
      · rcases List.mem_cons.mp inFront with rfl | further
        · exact .scan lexer
        · exact (ih lexeme (.inl further)).behind going
      · exact (ih lexeme (.inr isLast)).behind going
  | case2 lexer next stops =>
      intro lexeme isIn
      rw [Bool.not_eq_false] at stops
      rw [stream_of_final stops] at isIn
      rcases isIn with none | rfl
      · cases none
      · exact .scan lexer

/-- Scanning comes to every token of the body that a lexer has before it. -/
theorem comesTo_body {lexeme : Lexeme} (isIn : lexeme ∈ lexer.body.items) :
    lexer.ComesTo lexeme.lexer := by
  obtain ⟨count, same⟩ := @Body.items_levels _ (fun lexeme => lexeme.token.role)
    lexer.stream.last lexer.stream.lexemes
  have inStream : lexeme ∈ lexer.stream.lexemes ++ List.replicate count lexer.stream.last := by
    rw [← same]
    exact List.mem_append_left _ isIn
  refine comesTo_stream lexeme ?_
  rcases List.mem_append.mp inStream with inFront | again
  · exact .inl inFront
  · exact .inr (List.eq_of_mem_replicate again)

/-- What stops at a token of the body has come there by scanning. -/
theorem ComesTo.of_notes {C : Catalog} {matching : KeyMatching} {Value : Type}
    {outcome : Outcome Value} {keys : List (MemberKey C)}
    (notes : outcome.Notes matching lexer.body.items keys) : lexer.ComesTo outcome.lexer := by
  obtain ⟨lexeme, isIn, stops⟩ := notes.stops
  rw [stops]
  exact comesTo_body isIn

end Lexer

/-! ## Where decoding and skipping stop -/

section

variable {C : Catalog} {matching : KeyMatching} {lexer : Lexer} {token : Token}

/-- A token by itself leaves the lexer where it is. -/
theorem lexer_skipTree_leaf (lexeme : Lexeme) : (skipTree (.leaf lexeme)).lexer = lexeme.lexer := by
  rw [skipTree]
  split <;> rfl

theorem Scalar.lexer_decode (kind : Scalar) (tree : Tree Lexeme) (before : kind.Carrier) :
    (kind.decode tree before).lexer = tree.head.lexer ∨
      (kind.decode tree before).lexer = (skipTree tree).lexer := by
  by_cases opaqueJson : kind = .opaqueJson
  · subst opaqueJson
    right
    show (decodeOpaque tree before).lexer = _
    rw [decodeOpaque, Outcome.follow]
    split
    · dsimp only
      split <;> rfl
    · rfl
  · left
    rw [Scalar.decode_of_ne opaqueJson]
    split
    · rfl
    · split
      · split <;> rfl
      · rfl

theorem Outcome.lexer_replace {Value Other : Type} (outcome : Outcome Value) (before : Other)
    (wrap : Value → Other) : (outcome.replace before wrap).lexer = outcome.lexer := by
  rw [Outcome.replace]
  split <;> rfl

theorem lexer_decodeLeaf (lexeme : Lexeme) : ∀ (shape : C.Shape) (before : C.Value shape),
    (decodeLeaf C lexeme shape before).lexer = lexeme.lexer
  | .scalar kind, .scalar before => by
      rw [decodeLeaf]
      rcases kind.lexer_decode (.leaf lexeme) before with stays | skips
      · exact stays
      · exact skips.trans (lexer_skipTree_leaf lexeme)
  | .option inner, before => by
      rw [decodeLeaf]
      split
      · rfl
      · rw [Outcome.lexer_replace]
        exact lexer_decodeLeaf lexeme inner (C.blank inner)
  | .list _, before => by
      rw [decodeLeaf]
      split <;> rfl
  | .entity _, before => by
      rw [decodeLeaf]
      split <;> rfl

/-- A group is skipped in a number of scans behind its bracket. -/
theorem Lexer.comesTo_skipGroup (lexer : Lexer) (token : Token) :
    lexer.ComesTo (skipTree (.group ⟨token, lexer⟩ lexer.body)).lexer := by
  rw [skipTree]
  split
  · have notes := @skipMembers_notes Chat .exact _ _ lexer.rising_body .key
    exact .of_notes notes
  · have notes := @skipItems_notes Chat .exact _ _ lexer.rising_body .item
    exact .of_notes notes

/-- **Skipping a value is a number of scans.** -/
theorem Lexer.comesTo_skipValue (lexer : Lexer) (token : Token) :
    lexer.ComesTo (lexer.skipValue token).lexer := by
  rw [skipValue, tree]
  split
  · exact lexer.comesTo_skipGroup token
  · rw [lexer_skipTree_leaf]
    exact .refl lexer

/-- Decoding a group ends at its bracket, or where its members, its items or skipping it end. -/
theorem Lexer.comesTo_decodeGroup
    {members : (name : C.Name) → C.Entity name → Outcome (C.Entity name)}
    {items : (inner : C.Shape) → Outcome (C.Sequence inner)}
    (membersCome : ∀ name record, lexer.ComesTo (members name record).lexer)
    (itemsCome : ∀ inner, lexer.ComesTo (items inner).lexer) :
    ∀ (shape : C.Shape) (before : C.Value shape),
      lexer.ComesTo (decodeGroup C ⟨token, lexer⟩ lexer.body members items shape before).lexer
  | .scalar kind, .scalar before => by
      rw [decodeGroup]
      show lexer.ComesTo (kind.decode _ before).lexer
      rcases kind.lexer_decode (.group ⟨token, lexer⟩ lexer.body) before with stays | skips
      · rw [stays]
        exact .refl lexer
      · rw [skips]
        exact lexer.comesTo_skipGroup token
  | .option inner, before => by
      rw [decodeGroup, Outcome.lexer_replace]
      exact comesTo_decodeGroup membersCome itemsCome inner (C.blank inner)
  | .list inner, before => by
      rw [decodeGroup]
      split
      · exact itemsCome inner
      · exact .refl lexer
  | .entity name, .entity before => by
      rw [decodeGroup]
      split
      · exact membersCome name before
      · exact .refl lexer

/-- **Decoding a value is a number of scans**, whatever it is decoded into and whether or not it
fails. -/
theorem Lexer.comesTo_decodeInto (lexer : Lexer) (token : Token) {shape : C.Shape}
    (before : C.Value shape) : lexer.ComesTo (decodeInto C matching before lexer token).lexer := by
  rw [decodeInto, tree]
  split
  · have opened := (Body.isOpened_levels (fun lexeme : Lexeme => lexeme.token.role)
      lexer.stream.last lexer.stream.lexemes).1
    rw [decodeTree]
    refine comesTo_decodeGroup (fun name record => ?_) (fun inner => ?_) shape before
    · exact .of_notes (decodeMembers_notes opened lexer.rising_body name .key none record)
    · exact .of_notes (decodeItems_notes opened lexer.rising_body inner .item)
  · rw [decodeTree, lexer_decodeLeaf]
    exact .refl lexer

end

/-! ## Runs -/

/-- What may be asked of a lexer.  Those that take a token take any, also one that was never
read. -/
inductive Operation (C : Catalog) where
  /-- Reads the next token. -/
  | scan
  /-- Skips the value that begins with the token. -/
  | skip (token : Token)
  /-- Skips the value that begins with the token, and captures its bytes. -/
  | capture (token : Token)
  /-- Nothing but white space may follow. -/
  | finish
  /-- Decodes the value that begins with the token. -/
  | decode {shape : C.Shape} (before : C.Value shape) (token : Token)

section

variable {C : Catalog} (matching : KeyMatching)

/-- The lexer as the operation leaves it, whether or not it fails. -/
def Operation.run (lexer : Lexer) : Operation C → Lexer
  | scan => lexer.scan.lexer
  | skip token => (lexer.skipValue token).lexer
  | capture token => (lexer.captureValue token).lexer
  | finish => lexer.finish.lexer
  | decode before token => (decodeInto C matching before lexer token).lexer

/-- The lexer behind operations, one after another. -/
def Lexer.perform (lexer : Lexer) (operations : List (Operation C)) : Lexer :=
  operations.foldl (Operation.run matching) lexer

namespace Lexer

variable {matching}

theorem lexer_finish (lexer : Lexer) : lexer.finish.lexer = lexer.scan.lexer := by
  rw [finish]
  split <;> rfl

/-- **Every operation is a number of scans.** -/
theorem comesTo_run (matching : KeyMatching) (lexer : Lexer) (operation : Operation C) :
    lexer.ComesTo (operation.run matching lexer) := by
  cases operation with
  | scan => exact .scan lexer
  | skip token => exact lexer.comesTo_skipValue token
  | capture token => exact lexer.comesTo_skipValue token
  | finish =>
      rw [Operation.run, lexer_finish]
      exact .scan lexer
  | decode before token => exact lexer.comesTo_decodeInto token before

/-- **Operations stay inside the payload.** -/
theorem IsInside.perform {payload : Bytes} {lexer : Lexer} (inside : lexer.IsInside payload)
    (operations : List (Operation C)) : (lexer.perform matching operations).IsInside payload := by
  induction operations generalizing lexer with
  | nil => exact inside
  | cons operation operations ih =>
      obtain ⟨count, -, ran⟩ := lexer.comesTo_run matching operation
      exact ih (ran ▸ inside.after count)

/-- **Operations never lead back.** -/
theorem position_le_perform (lexer : Lexer) (operations : List (Operation C)) :
    lexer.position ≤ (lexer.perform matching operations).position := by
  induction operations generalizing lexer with
  | nil => exact Nat.le_refl _
  | cons operation operations ih =>
      obtain ⟨count, -, ran⟩ := lexer.comesTo_run matching operation
      exact Nat.le_trans (ran ▸ lexer.position_le_after count) (ih _)

/-- **Behind the end or a fault no operation changes anything.** -/
theorem perform_of_final {lexer : Lexer} (final : lexer.scan.token.isFinal = true)
    (operations : List (Operation C)) :
    lexer.scan.lexer.perform matching operations = lexer.scan.lexer := by
  induction operations with
  | nil => rfl
  | cons operation operations ih =>
      obtain ⟨count, -, ran⟩ := lexer.scan.lexer.comesTo_run matching operation
      rw [after_of_final final] at ran
      rw [perform, List.foldl_cons, ran]
      exact ih

/-- Captured bytes are those of the payload from the beginning of the token up to where skipping
stops. -/
theorem IsInside.captureValue {payload : Bytes} {lexer : Lexer} (inside : lexer.IsInside payload)
    (token : Token) :
    let captured := lexer.captureValue token
    lexer.start ≤ captured.lexer.position ∧ captured.lexer.position ≤ payload.length ∧
      captured.value = payload.extract lexer.start captured.lexer.position := by
  intro captured
  obtain ⟨count, -, stops⟩ := lexer.comesTo_skipValue token
  have stops : captured.lexer = lexer.after count := stops
  refine ⟨?_, ?_, ?_⟩
  · rw [stops]
    exact Nat.le_trans inside.start_le (lexer.position_le_after count)
  · rw [stops]
    exact (inside.after count).position_le
  · rw [List.extract_eq_take_drop, ← inside.fromStart_eq]
    rfl

/-- **The laws of a lexer.**  Behind any operations on a payload the lexer is inside the payload,
and further operations do not lead back.  If no fault has stopped it, only white space lies between
it and the next token, which takes up a byte unless it is the end or an error.  An error is read
exactly when a fault stops the lexer, and what is read at the end or at a fault is read again
behind any further operations, in the same state.  Every operation is a number of scans, at most
one more than there are bytes left, all of them inside the payload, and captured bytes are a stretch
of the payload. -/
theorem perform_laws (C : Catalog) (matching : KeyMatching) (payload : Bytes)
    (operations more : List (Operation C)) (operation : Operation C) (token : Token) :
    let lexer := (ofBytes payload).perform matching operations
    let next := lexer.scan
    let captured := lexer.captureValue token
    lexer.IsInside payload ∧
      lexer.position ≤ (lexer.perform matching more).position ∧
      (lexer.fault = none →
        lexer.position ≤ next.lexer.start ∧
          (∀ byte ∈ payload.extract lexer.position next.lexer.start,
            Ascii.isSpace byte = true) ∧
          (next.token ≠ .eof → next.token ≠ .error → lexer.position < next.lexer.position)) ∧
      (next.lexer.fault ≠ none ↔ next.token = .error) ∧
      (next.token = .eof ∨ next.token = .error →
        (next.lexer.perform matching more).scan = next) ∧
      (∃ count ≤ payload.length - lexer.position + 1,
        operation.run matching lexer = lexer.after count ∧
          ∀ step ≤ count, (lexer.after step).IsInside payload) ∧
      (lexer.start ≤ captured.lexer.position ∧ captured.lexer.position ≤ payload.length ∧
        captured.value = payload.extract lexer.start captured.lexer.position) := by
  intro lexer next captured
  have inside : lexer.IsInside payload := (isInside_ofBytes payload).perform operations
  refine ⟨inside, lexer.position_le_perform more, fun going => ?_, lexer.fault_ne_none_iff,
    fun stopped => ?_, ?_, ?_⟩
  · obtain ⟨passed, blank⟩ := inside.passes_blanks going
    refine ⟨passed, blank, fun notEnd notError => ?_⟩
    have goes : next.token.isFinal = false := by
      revert notEnd notError
      cases next.token <;> decide
    obtain ⟨begins, ends⟩ := lexer.isBehind_scan.begins goes
    exact Nat.lt_of_le_of_lt begins ends
  · have final : next.token.isFinal = true := by
      rcases stopped with isEnd | isError
      · rw [isEnd]
        rfl
      · rw [isError]
        rfl
    rw [perform_of_final final]
    exact scan_scan_of_final final
  · rw [← inside.length_ahead]
    obtain ⟨count, bound, ran⟩ := lexer.comesTo_run matching operation
    exact ⟨count, bound, ran, fun step _ => inside.after step⟩
  · exact inside.captureValue token

/-- In `[1] x`, where the array is skipped first, only the blank lies between it and the fault,
which is read again whatever else is asked for. -/
theorem perform_laws_word :
    let payload := bytesOf "[1] x"
    let lexer := (ofBytes payload).perform (C := Chat) .exact [.scan, .skip .arrayStart]
    let behind := lexer.scan.lexer.perform (C := Chat) .exact
      [.finish, .decode (Chat.blank (.scalar .bool)) .bool]
    (lexer.fault = none ∧ lexer.position = 3 ∧ lexer.scan.token = .error) ∧
      (∀ byte ∈ payload.extract 3 lexer.scan.lexer.start, Ascii.isSpace byte = true) ∧
      behind.scan = lexer.scan := by
  intro payload lexer behind
  have state : lexer.fault = none ∧ lexer.position = 3 ∧ lexer.scan.token = .error := by
    decide +kernel
  obtain ⟨-, -, blank, -, again, -⟩ := perform_laws Chat .exact payload [.scan, .skip .arrayStart]
    [.finish, .decode (Chat.blank (.scalar .bool)) .bool] .scan .eof
  have between := (blank state.1).2.1
  exact ⟨state, state.2.1 ▸ between, again (.inr state.2.2)⟩

end Lexer

end

end ChatCodec
