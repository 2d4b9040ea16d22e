import ChatCodec.Proofs.Lexer.Runs

/-!
# What a lexer has before it

The body that a lexer has before it is grouped from the whole stream of tokens.  Read from its
front it is what the next token says: a token that closes or ends is all of it
(`Lexer.body_of_ends`), one that stands by itself is followed by the body behind it
(`Lexer.body_of_stands`), and a value is followed by the rest of the body
(`Lexer.exists_body_of_isValue`).

Where the value is nested, the rest is the body behind the value (`Lexer.run_of_body`).  So a
reader of bodies goes on from where the value has left the lexer, as a reader of tokens does.
Where it is not nested, the rest is whatever grouping has made of it; but then nobody
reads on.
-/

namespace ChatCodec

set_option autoImplicit false

namespace Lexer

variable {lexer : Lexer}

/-! ## Streams -/

theorem stream_of_going (going : lexer.scan.token.isFinal = false) :
    lexer.stream = lexer.scan.lexer.stream.behind lexer.scan := by
  rw [Lexer.stream]
  simp only [dif_pos going]

theorem stream_of_final (final : lexer.scan.token.isFinal = true) :
    lexer.stream = ⟨[], lexer.scan⟩ := by
  rw [Lexer.stream]
  simp only [final, Bool.true_eq_false, dite_false]

/-- The last token of a stream is a final one. -/
theorem isFinal_last_stream (lexer : Lexer) : lexer.stream.last.token.isFinal = true := by
  induction lexer using Lexer.stream.induct with
  | case1 lexer next going _ ih =>
      rw [stream_of_going going]
      exact ih
  | case2 lexer next stops =>
      rw [Bool.not_eq_false] at stops
      rw [stream_of_final stops]
      exact stops

/-- Tokens at the front of a stream are those of a run. -/
theorem run_of_stream : ∀ {items others : List Lexeme} {lexer : Lexer},
    lexer.stream.lexemes = items ++ others →
      ∃ last, Run lexer items last ∧ last.stream = ⟨others, lexer.stream.last⟩
  | [], others, lexer, same => ⟨lexer, .nil lexer, by rw [List.nil_append] at same; rw [← same]⟩
  | item :: items, others, lexer, same => by
      cases going : lexer.scan.token.isFinal with
      | true =>
          rw [stream_of_final going] at same
          cases same
      | false =>
          rw [stream_of_going going] at same ⊢
          obtain ⟨rfl, following⟩ := List.cons.inj same
          obtain ⟨last, run, behind⟩ := run_of_stream following
          exact ⟨last, .cons going run, behind⟩

/-! ## Bodies by their first token -/

theorem body_of_going (going : lexer.scan.token.isFinal = false) :
    lexer.body = (Body.levels (fun lexeme => lexeme.token.role) lexer.scan.lexer.stream.last
      (lexer.scan :: lexer.scan.lexer.stream.lexemes)).1 := by
  rw [Lexer.body, stream_of_going going]
  rfl

/-- A token that closes or ends is all of the body. -/
theorem body_of_ends (ends : lexer.scan.token.isClosing = true ∨ lexer.scan.token.isFinal = true) :
    lexer.body = .close lexer.scan := by
  rcases ends with closes | final
  · have going : lexer.scan.token.isFinal = false := by
      cases same : lexer.scan.token <;> first | rfl | (rw [same] at closes; cases closes)
    rw [body_of_going going, Body.levels, Token.role_of_isClosing closes]
  · rw [Lexer.body, stream_of_final final]
    rfl

/-- A token that stands by itself is followed by the body behind it. -/
theorem body_of_stands (stands : lexer.scan.token.role = .stands)
    (going : lexer.scan.token.isFinal = false) :
    lexer.body = .more (.leaf lexer.scan) lexer.scan.lexer.body := by
  rw [body_of_going going, Body.levels, stands]
  rfl

/-- A value is followed by something. -/
theorem exists_body_of_isValue (isValue : lexer.scan.token.isValue = true) :
    ∃ rest, lexer.body = .more (lexer.scan.lexer.tree lexer.scan.token) rest := by
  have going := Token.isFinal_of_isValue isValue
  rw [Lexer.tree]
  by_cases opens : lexer.scan.token.isOpening = true
  · rw [if_pos opens, body_of_going going, Body.levels, Token.role_of_isOpening opens]
    exact ⟨_, rfl⟩
  · have stands : lexer.scan.token.role = .stands := by
      rw [Bool.not_eq_true] at opens
      rw [Token.isValue, opens, Bool.or_false] at isValue
      exact Token.role_of_isScalar isValue
    rw [if_neg opens, body_of_stands stands going]
    exact ⟨_, rfl⟩

theorem head_tree (lexer : Lexer) (token : Token) : (lexer.tree token).head = ⟨token, lexer⟩ := by
  rw [Lexer.tree]
  split <;> rfl

/-- A body begins with the next token. -/
theorem body_cases (lexer : Lexer) : lexer.body = .close lexer.scan ∨
    ∃ tree rest, lexer.body = .more tree rest ∧ tree.head = lexer.scan := by
  by_cases ends : lexer.scan.token.isClosing = true ∨ lexer.scan.token.isFinal = true
  · exact .inl (body_of_ends ends)
  · rw [not_or, Bool.not_eq_true, Bool.not_eq_true] at ends
    obtain ⟨open_, going⟩ := ends
    refine .inr ?_
    by_cases opens : lexer.scan.token.isOpening = true
    · obtain ⟨rest, found⟩ := @exists_body_of_isValue lexer
        (by rw [Token.isValue, opens, Bool.or_true])
      exact ⟨_, rest, found, head_tree _ _⟩
    · have stands : lexer.scan.token.role = .stands := by
        rw [Token.role, if_neg opens, open_]
        rfl
      exact ⟨_, _, body_of_stands stands going, rfl⟩

theorem Run.head_eq {tree : Tree Lexeme} {last : Lexer} (run : Run lexer tree.items last) :
    tree.head = lexer.scan := by
  obtain ⟨others, items⟩ := tree.items_eq_cons
  rw [items] at run
  generalize tree.head = head at run
  cases run with
  | cons going following => rfl

theorem Run.body_eq_more {tree : Tree Lexeme} {last : Lexer} (run : Run lexer tree.items last)
    (nested : tree.IsNested fun lexeme => lexeme.token.role) :
    lexer.body = .more tree last.body := by
  rw [Lexer.body, run.stream, Body.ofList, Tree.levels_items nested]
  rfl

/-- **A nested value is followed by the body behind it**, and its tokens make a run. -/
theorem run_of_body {tree : Tree Lexeme} {rest : Body Lexeme} (found : lexer.body = .more tree rest)
    (nested : tree.IsNested fun lexeme => lexeme.token.role) :
    Run lexer tree.items tree.last.lexer ∧ rest = tree.last.lexer.body := by
  have open_ : lexer.stream.last.token.role ≠ .closes := by
    rw [Token.role_of_isFinal (isFinal_last_stream lexer)]
    decide
  obtain ⟨others, same, behind⟩ :=
    @Tree.eq_items_of_levels _ (fun lexeme => lexeme.token.role) lexer.stream.last open_ _ _ _
      lexer.stream.lexemes nested (Prod.ext found rfl : Body.levels _ _ _ = (_, (Body.levels _ _ _).2))
  obtain ⟨last, run, stream⟩ := run_of_stream same
  obtain rfl := run.last_eq
  refine ⟨run, ?_⟩
  rw [Lexer.body, stream, Body.ofList, behind]

end Lexer

end ChatCodec
