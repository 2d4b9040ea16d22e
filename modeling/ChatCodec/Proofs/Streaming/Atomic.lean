import ChatCodec.Entity.Catalog
import ChatCodec.Proofs.Streaming.Loop

/-!
# Failures that leave no trace

Decoding writes into a value that is already there.  A failure leaves a scalar and an optional
value as they were (`decodeTree_keepsOnFailure`), wherever in the value it happened.  A scalar is
checked before it is written.  An optional value is decoded apart from what is there, and put in
its place only when decoding has ended well; so it does not matter what the value inside it does
when it fails.

Sequences and entities do fail with a trace.  A sequence is emptied before its first item is read
(`list_keeps_trace`), and an entity keeps the members that were read before the failure
(`Chat.entity_keeps_trace`).  Hence the optional values are the ones that need an argument of
their own.
-/

namespace ChatCodec

set_option autoImplicit false

/-- The shapes of the values that are replaced as a whole or not at all. -/
def Shape.isAtomic {Name : Type} : Shape Name → Bool
  | .scalar _ | .option _ => true
  | .list _ | .entity _ => false

/-! ## Outcomes that keep what was there -/

namespace Outcome

variable {Value Other : Type} {before : Value}

/-- A failure leaves what was there before. -/
def KeepsOnFailure (outcome : Outcome Value) (before : Value) : Prop :=
  outcome.error ≠ none → outcome.value = before

namespace KeepsOnFailure

/-- Decoding that ends well has no failure to answer for. -/
theorem done (value : Value) (lexer : Lexer) : (Outcome.done value lexer).KeepsOnFailure before := by
  intro failed
  exact absurd rfl failed

theorem fail (error : DecodeError) (lexer : Lexer) :
    (Outcome.fail before error lexer).KeepsOnFailure before := by
  intro _
  rfl

theorem map {outcome : Outcome Value} (keeps : outcome.KeepsOnFailure before)
    (wrap : Value → Other) : (outcome.map wrap).KeepsOnFailure (wrap before) := by
  intro failed
  exact congrArg wrap (keeps failed)

/-- **What is put in place only at the end is kept**, whatever a failure has left of the value
that was to take its place. -/
theorem replace (outcome : Outcome Other) (before : Value) (wrap : Other → Value) :
    (outcome.replace before wrap).KeepsOnFailure before := by
  intro failed
  obtain ⟨value, events, error, lexer⟩ := outcome
  cases error with
  | none => exact absurd rfl failed
  | some error => rfl

/-- A step behind one that writes nothing. -/
theorem follow {outcome : Outcome Other} {next : Other → Lexer → Outcome Value}
    (keeps : ∀ value lexer, (next value lexer).KeepsOnFailure before) :
    (outcome.follow (fun _ => before) next).KeepsOnFailure before := by
  intro failed
  obtain ⟨value, events, error, lexer⟩ := outcome
  cases error with
  | none => exact keeps value lexer failed
  | some error => rfl

end KeepsOnFailure

end Outcome

/-! ## Scalars -/

/-- Opaque JSON is written when the strict reader has taken all of it. -/
theorem decodeOpaque_keepsOnFailure (tree : Tree Lexeme) (before : Json.Value) :
    (decodeOpaque tree before).KeepsOnFailure before := by
  rw [decodeOpaque]
  apply Outcome.KeepsOnFailure.follow
  intro _ ending
  dsimp only
  split
  · exact .done _ _
  · exact .fail _ _

/-- **A scalar is written when it has passed every check.** -/
theorem Scalar.decode_keepsOnFailure (kind : Scalar) (tree : Tree Lexeme) (before : kind.Carrier) :
    (kind.decode tree before).KeepsOnFailure before := by
  by_cases opaqueJson : kind = .opaqueJson
  · subst opaqueJson
    exact decodeOpaque_keepsOnFailure tree before
  · rw [Scalar.decode_of_ne opaqueJson]
    split
    · exact .done before _
    · split
      · split
        · exact .done _ _
        · exact .fail _ _
      · exact .fail _ _

/-! ## Values -/

section

variable {C : Catalog} {matching : KeyMatching}

theorem decodeLeaf_keepsOnFailure (lexeme : Lexeme) :
    ∀ {shape : C.Shape}, shape.isAtomic = true → ∀ before : C.Value shape,
      (decodeLeaf C lexeme shape before).KeepsOnFailure before
  | .scalar kind, _, .scalar before => by
      rw [decodeLeaf]
      exact (kind.decode_keepsOnFailure _ before).map Val.scalar
  | .option inner, _, before => by
      rw [decodeLeaf]
      split
      · exact .done _ _
      · exact .replace _ _ _

theorem decodeGroup_keepsOnFailure (opening : Lexeme) (body : Body Lexeme)
    (members : (name : C.Name) → C.Entity name → Outcome (C.Entity name))
    (items : (inner : C.Shape) → Outcome (C.Sequence inner)) :
    ∀ {shape : C.Shape}, shape.isAtomic = true → ∀ before : C.Value shape,
      (decodeGroup C opening body members items shape before).KeepsOnFailure before
  | .scalar kind, _, .scalar before => by
      rw [decodeGroup]
      exact (kind.decode_keepsOnFailure _ before).map Val.scalar
  | .option inner, _, before => by
      rw [decodeGroup]
      exact .replace _ _ _

/-- **A failure leaves a scalar and an optional value as they were.** -/
theorem decodeTree_keepsOnFailure (tree : Tree Lexeme) {shape : C.Shape}
    (atomic : shape.isAtomic = true) (before : C.Value shape) :
    (decodeTree C matching tree shape before).KeepsOnFailure before := by
  cases tree with
  | leaf lexeme =>
      rw [decodeTree]
      exact decodeLeaf_keepsOnFailure lexeme atomic before
  | group opening body =>
      rw [decodeTree]
      exact decodeGroup_keepsOnFailure opening body _ _ atomic before

end

/-! ## Values that do keep a trace -/

/-- Decoding into a shape leaves what was there whenever it fails. -/
def Shape.FailsAtomically (C : Catalog) (matching : KeyMatching) (shape : C.Shape) : Prop :=
  ∀ (before : C.Value shape) (lexer : Lexer) (token : Token),
    (decodeInto C matching before lexer token).KeepsOnFailure before

/-- A sequence is emptied even if nothing follows its opening bracket. -/
theorem list_keeps_trace (C : Catalog) (matching : KeyMatching) (inner : C.Shape) :
    ¬ Shape.FailsAtomically C matching (.list inner) := by
  intro atomic
  have kept := atomic (.list (.cons (C.blank inner) .nil)) (Lexer.ofBytes []) .arrayStart
  have body : (Lexer.ofBytes []).body = .close (Lexer.ofBytes []).scan := by
    apply Lexer.body_of_ends
    right
    rfl
  rw [decodeInto_list, body, decodeItems] at kept
  cases kept (Option.some_ne_none _)

/-- A member of each entity. -/
def Chat.sampleMember : Chat.Name → String
  | .member => "\"nick\":\"a\""
  | .reaction => "\"me\":true"
  | .messageActivity => "\"party_id\":\"a\""
  | .messageReference => "\"guild_id\":7"
  | .embed => "\"title\":\"a\""
  | .embedFooter => "\"text\":\"a\""
  | .embedImage | .embedThumbnail | .embedVideo => "\"url\":\"a\""
  | .embedProvider | .embedAuthor | .embedField => "\"name\":\"a\""
  | _ => "\"id\":7"

/-- An entity keeps a member that was read before the object broke off. -/
theorem Chat.entity_keeps_trace (matching : KeyMatching) (name : Chat.Name) :
    ¬ Shape.FailsAtomically Chat matching (.entity name) := by
  intro atomic
  have kept := atomic (.entity (Chat.blankEntity name))
    (Lexer.ofBytes (bytesOf (Chat.sampleMember name))) .objectStart
  revert kept
  rw [Outcome.KeepsOnFailure]
  cases matching <;> cases name <;> decide +kernel

/-! ## The main result -/

/-- **Failures are atomic outside sequences and entities.**  Decoding into a scalar or an optional
value, from any lexer and by any token, leaves what was there if it fails: whatever the value
inside the optional one is, and wherever in it the failure happened.  Of the shapes that the
messages are made of, these are also the only ones. -/
theorem decodeInto_atomic :
    (∀ (C : Catalog) (matching : KeyMatching) (shape : C.Shape), shape.isAtomic = true →
      ∀ (before : C.Value shape) (lexer : Lexer) (token : Token),
        (decodeInto C matching before lexer token).error ≠ none →
          (decodeInto C matching before lexer token).value = before) ∧
    ∀ (matching : KeyMatching) (shape : Chat.Shape),
      Shape.FailsAtomically Chat matching shape ↔ shape.isAtomic = true := by
  have keeps : ∀ (C : Catalog) (matching : KeyMatching) (shape : C.Shape),
      shape.isAtomic = true → Shape.FailsAtomically C matching shape :=
    fun C matching shape atomic before lexer token =>
      decodeTree_keepsOnFailure (lexer.tree token) atomic before
  refine ⟨keeps, fun matching shape => ⟨fun atomic => ?_, keeps Chat matching shape⟩⟩
  cases shape with
  | scalar kind => rfl
  | option inner => rfl
  | list inner => exact absurd atomic (list_keeps_trace Chat matching inner)
  | entity name => exact absurd atomic (Chat.entity_keeps_trace matching name)

/-- The lexer behind the brace of an emoji whose second role is malformed. -/
def emojiAstray : Lexeme :=
  (Lexer.ofBytes (bytesOf "\x7b\"name\":\"a\",\"roles\":[7,true]\x7d")).scan

/-- An emoji that is there is kept, though a new one has been read up to its roles. -/
theorem decodeInto_atomic_emoji :
    let before : Chat.Value (.option (.entity .emoji)) := .some (.entity (Chat.blankEntity .emoji))
    let outcome := decodeInto Chat .lenient before emojiAstray.lexer emojiAstray.token
    outcome.error ≠ none ∧ outcome.value = before := by
  intro before outcome
  have failed : outcome.error ≠ none := by decide +kernel
  exact ⟨failed, decodeInto_atomic.1 Chat .lenient (.option (.entity .emoji)) rfl before
    emojiAstray.lexer emojiAstray.token failed⟩

end ChatCodec
