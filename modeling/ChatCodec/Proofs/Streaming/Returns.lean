import ChatCodec.Proofs.Lexer.Bodies
import ChatCodec.Streaming.Decode

/-!
# Decoding that ends well

A decoder returns a value (`Outcome.Returns`) if it ends without an error, with that value,
and with the lexer in a given state.  What it notes on the way does not matter.  The
operations that outcomes are put together from preserve this, so a decoder returns the value
that its parts return.

A payload is decoded to a value if its tokens are those of a value from which decoding returns
it (`decodePayload_of_returns`), and to a record if they are those of an object
(`decodeDocument_of_returns`).
-/

namespace ChatCodec

set_option autoImplicit false

namespace Outcome

variable {Value Other : Type}

/-- The outcome is a success, with that value and that lexer. -/
structure Returns (outcome : Outcome Value) (value : Value) (lexer : Lexer) : Prop where
  error_eq : outcome.error = none
  value_eq : outcome.value = value
  lexer_eq : outcome.lexer = lexer

variable {outcome : Outcome Value} {value : Value} {lexer : Lexer}

theorem Returns.done (value : Value) (lexer : Lexer) : (Outcome.done value lexer).Returns value lexer :=
  ⟨rfl, rfl, rfl⟩

theorem Returns.map (returns : outcome.Returns value lexer) (wrap : Value → Other) :
    (outcome.map wrap).Returns (wrap value) lexer :=
  ⟨returns.error_eq, congrArg wrap returns.value_eq, returns.lexer_eq⟩

theorem Returns.note (returns : outcome.Returns value lexer) (event : Event) :
    (outcome.note event).Returns value lexer :=
  ⟨returns.error_eq, returns.value_eq, returns.lexer_eq⟩

theorem Returns.replace (returns : outcome.Returns value lexer) (before : Other)
    (wrap : Value → Other) : (outcome.replace before wrap).Returns (wrap value) lexer := by
  rw [Outcome.replace, returns.error_eq]
  exact returns.map wrap

/-- A second step returns what it returns from where the first has left off. -/
theorem Returns.follow (returns : outcome.Returns value lexer) {left : Value → Other}
    {next : Value → Lexer → Outcome Other} {other : Other} {last : Lexer}
    (following : (next value lexer).Returns other last) :
    (outcome.follow left next).Returns other last := by
  obtain ⟨noError, rfl, rfl⟩ := returns
  rw [Outcome.follow, noError]
  exact ⟨following.error_eq, following.value_eq, following.lexer_eq⟩

theorem Returns.result_eq (returns : outcome.Returns value lexer) : outcome.result = .ok value := by
  rw [Outcome.result, returns.error_eq, ← returns.value_eq]

end Outcome

theorem finishWith_returns {Value : Type} {last : Lexer} (ended : last.scan.token = .eof)
    (value : Value) : (finishWith value last).Returns value last.scan.lexer := by
  rw [finishWith, Lexer.finish]
  simp only [if_pos ended]
  exact (Outcome.Returns.done () _).map _

/-- **A payload is decoded as the value that it holds.** -/
theorem decodePayload_of_returns {C : Catalog} {matching : KeyMatching} {shape : C.Shape}
    {payload : Bytes} {tokens : Tree Lexeme} {last : Lexer} {value : C.Value shape}
    (isValue : tokens.head.token.isValue = true)
    (nested : tokens.IsNested fun lexeme => lexeme.token.role)
    (run : Lexer.Run (Lexer.ofBytes payload) tokens.items last) (ended : last.scan.token = .eof)
    (returns : (decodeTree C matching tokens shape (C.blank shape)).Returns value last) :
    (decodePayload C matching shape payload).result = .ok value := by
  rw [run.head_eq] at isValue
  obtain ⟨rest, found⟩ := Lexer.exists_body_of_isValue isValue
  rw [run.body_eq_more nested] at found
  rw [(Body.more.inj found).1] at returns
  rw [decodePayload]
  simp only [if_pos isValue]
  exact (Outcome.Returns.follow returns (finishWith_returns ended value)).result_eq

/-- **A payload is decoded as the object that it holds.** -/
theorem decodeDocument_of_returns {C : Catalog} {matching : KeyMatching} {name : C.Name}
    {payload : Bytes} {tokens : Tree Lexeme} {last : Lexer} {record : C.Entity name}
    (object : tokens.head.token = .objectStart)
    (nested : tokens.IsNested fun lexeme => lexeme.token.role)
    (run : Lexer.Run (Lexer.ofBytes payload) tokens.items last) (ended : last.scan.token = .eof)
    (returns : (decodeTree C matching tokens (.entity name) (C.blank (.entity name))).Returns
      (.entity record) last) :
    (decodeDocument C matching name payload).result = .ok record := by
  cases tokens with
  | leaf lexeme =>
      rw [Tree.IsNested] at nested
      rw [Tree.head] at object
      rw [object] at nested
      cases nested
  | group opening body =>
      rw [Tree.IsNested] at nested
      rw [Tree.items] at run
      rw [Tree.head] at object
      rw [decodeTree, Catalog.blank, decodeGroup, if_pos object] at returns
      cases run with
      | cons going following =>
          have members : (decodeMembers C matching body name .key none (C.blankEntity name)).Returns
              record last :=
            ⟨returns.error_eq, Val.entity.inj returns.value_eq, returns.lexer_eq⟩
          have whole : (decodeObject C matching (C.blankEntity name)
              (Lexer.ofBytes payload)).Returns record last := by
            rw [decodeObject]
            simp only [if_pos object]
            rw [decodeFrom, following.body nested.2]
            exact members
          have decoded : ((decodeObject C matching (C.blankEntity name)
              (Lexer.ofBytes payload)).follow id finishWith).Returns record last.scan.lexer :=
            whole.follow (finishWith_returns ended record)
          rw [decodeDocument]
          simp only [decoded.error_eq]
          exact decoded.result_eq

end ChatCodec
