import ChatCodec.Proofs.Lexer.Bodies

/-!
# Tokens come one behind another

The tokens that a lexer has before it lie one behind another in the payload (`Rising`): none
begins before the one in front of it ends.  This holds of the stream of tokens because each is read
where the one before it has left the lexer, and it holds of the body that the stream is grouped to,
nested or not, because grouping keeps the order (`Lexer.rising_body`).

Only the end of the input and a fault are read again and again, and these need not begin anew.
-/

namespace ChatCodec

set_option autoImplicit false

/-- The lexeme is read at an offset or behind it: it ends there or further on, and if it is not
final, it also begins there or further on, and takes up a byte. -/
structure Lexeme.IsBehind (offset : Nat) (lexeme : Lexeme) : Prop where
  ends : offset ≤ lexeme.lexer.position
  begins : lexeme.token.isFinal = false →
    offset ≤ lexeme.lexer.start ∧ lexeme.lexer.start < lexeme.lexer.position

/-- Lexemes that lie one behind another, the first of them at the offset or behind it. -/
inductive Rising : Nat → List Lexeme → Prop where
  | nil (offset : Nat) : Rising offset []
  | cons {offset : Nat} {lexeme : Lexeme} {lexemes : List Lexeme}
      (behind : lexeme.IsBehind offset) (following : Rising lexeme.lexer.position lexemes) :
      Rising offset (lexeme :: lexemes)

theorem Lexeme.IsBehind.mono {offset before : Nat} {lexeme : Lexeme}
    (behind : lexeme.IsBehind offset) (less : before ≤ offset) : lexeme.IsBehind before :=
  ⟨Nat.le_trans less behind.ends, fun going =>
    ⟨Nat.le_trans less (behind.begins going).1, (behind.begins going).2⟩⟩

namespace Rising

variable {offset before : Nat} {lexeme : Lexeme} {lexemes others : List Lexeme}

theorem mono (rising : Rising offset lexemes) (less : before ≤ offset) : Rising before lexemes := by
  cases rising with
  | nil => exact .nil before
  | cons behind following => exact .cons (behind.mono less) following

/-- All of the lexemes lie behind the offset. -/
theorem isBehind (rising : Rising offset lexemes) : ∀ lexeme ∈ lexemes, lexeme.IsBehind offset := by
  induction rising with
  | nil => exact List.forall_mem_nil _
  | cons behind _ ih =>
      exact List.forall_mem_cons.mpr ⟨behind, fun lexeme isIn => (ih lexeme isIn).mono behind.ends⟩

/-- The first of two stretches lies behind the offset, and the second behind each lexeme of the
first, and so behind the offset too. -/
theorem of_append : ∀ {lexemes : List Lexeme} {offset : Nat}, Rising offset (lexemes ++ others) →
    Rising offset lexemes ∧ (∀ lexeme ∈ lexemes, Rising lexeme.lexer.position others) ∧
      Rising offset others
  | [], offset, rising => ⟨.nil offset, List.forall_mem_nil _, rising⟩
  | lexeme :: lexemes, offset, rising => by
      cases rising with
      | cons behind following =>
          obtain ⟨first, between, second⟩ := following.of_append
          exact ⟨.cons behind first, List.forall_mem_cons.mpr ⟨second, between⟩,
            second.mono behind.ends⟩

/-- Lexemes that are not final begin one behind another. -/
theorem pairwise_start (rising : Rising offset lexemes)
    (going : ∀ lexeme ∈ lexemes, lexeme.token.isFinal = false) :
    lexemes.Pairwise fun first second => first.lexer.start < second.lexer.start := by
  induction rising with
  | nil => exact .nil
  | cons behind following ih =>
      obtain ⟨goes, others⟩ := List.forall_mem_cons.mp going
      refine .cons (fun lexeme isIn => ?_) (ih others)
      exact Nat.lt_of_lt_of_le (behind.begins goes).2
        ((following.isBehind lexeme isIn).begins (others lexeme isIn)).1

/-- So do some of them. -/
theorem sublist (rising : Rising offset lexemes) : others.Sublist lexemes →
    Rising offset others := by
  induction rising generalizing others with
  | nil =>
      intro some
      rw [List.sublist_nil.mp some]
      exact .nil _
  | cons behind following ih =>
      intro some
      cases some with
      | cons _ fewer => exact (ih fewer).mono behind.ends
      | cons_cons _ fewer => exact .cons behind (ih fewer)

end Rising

namespace Lexer

/-- **The next token lies behind the lexer.** -/
theorem isBehind_scan (lexer : Lexer) : lexer.scan.IsBehind lexer.position := by
  cases going : lexer.fault with
  | some fault =>
      rw [scan, going]
      exact ⟨Nat.le_refl _, fun goes => by cases goes⟩
  | none =>
      rw [scan, going]
      simp only
      cases scanned : Scanned.ofBytes (lexer.ahead.dropWhile Ascii.isSpace) with
      | fault reason length =>
          refine ⟨?_, fun goes => by cases goes⟩
          simp only [lexeme]
          omega
      | token token length output =>
          simp only [lexeme]
          refine ⟨by simp only; omega, fun goes => ⟨Nat.le_add_right _ _, ?_⟩⟩
          obtain ⟨positive, -⟩ := length_pos_of_token scanned (by rintro rfl; cases goes)
          simp only
          omega

/-- **The tokens of a stream lie one behind another**, also if the last is read again. -/
theorem rising_stream (lexer : Lexer) (count : Nat) :
    Rising lexer.position (lexer.stream.lexemes ++ List.replicate count lexer.stream.last) := by
  induction lexer using Lexer.stream.induct with
  | case1 lexer next going _ ih =>
      rw [stream_of_going going]
      exact .cons lexer.isBehind_scan ih
  | case2 lexer next stops =>
      rw [Bool.not_eq_false] at stops
      rw [stream_of_final stops]
      have again : ∀ {offset : Nat}, lexer.scan.IsBehind offset →
          Rising offset (List.replicate count lexer.scan) := by
        induction count with
        | zero => exact fun _ => .nil _
        | succ count ih =>
            intro offset behind
            refine .cons behind (ih ⟨Nat.le_refl _, fun goes => ?_⟩)
            exact absurd (stops.symm.trans goes) (by decide)
      exact again lexer.isBehind_scan

/-- **The tokens that a lexer has before it lie one behind another.** -/
theorem rising_body (lexer : Lexer) : Rising lexer.position lexer.body.items := by
  obtain ⟨count, same⟩ := @Body.items_levels _ (fun lexeme => lexeme.token.role)
    lexer.stream.last lexer.stream.lexemes
  have rising := lexer.rising_stream count
  rw [← same] at rising
  exact rising.of_append.1

end Lexer

end ChatCodec
