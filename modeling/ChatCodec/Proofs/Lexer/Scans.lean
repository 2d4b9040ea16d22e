import ChatCodec.Proofs.Lexer.Bodies

/-!
# The scans of a payload

A lexer at the beginning of a payload, asked for its next token again and again, makes the scans
of the payload (`Lexer.nthScan`).  What such a lexer keeps stays in agreement with the payload:
the unread bytes and those of the token read last are what the payload has at the two offsets,
and no fault is about UTF-8 (`Lexer.Keeps`, which one scan preserves).

The decoders do not scan a payload token by token.  They descend through the values that the
stream of tokens has been grouped to, and an error may stem from any token in there.  So the
grouping must not bring in tokens from elsewhere: in the body that a lexer has before it every
token is a scan of the payload, and every value is what its first scan has before it
(`Lexer.IsReached.body`).
-/

namespace ChatCodec

set_option autoImplicit false

/-! ## Scanning on and on -/

namespace Lexer

/-- The lexer as it stands after a number of scans. -/
def after (lexer : Lexer) : Nat → Lexer
  | 0 => lexer
  | count + 1 => (lexer.after count).scan.lexer

/-- The scan of a given number, in the sequence of all scans from here on. -/
def nthScan (lexer : Lexer) (count : Nat) : Lexeme := (lexer.after count).scan

/-- Scanning the payload from its beginning leads to this lexer. -/
def IsReached (payload : Bytes) (lexer : Lexer) : Prop :=
  ∃ count, lexer = (ofBytes payload).after count

end Lexer

/-- The lexeme is one of the scans of the payload. -/
def Lexeme.IsScanOf (payload : Bytes) (lexeme : Lexeme) : Prop :=
  ∃ count, lexeme = (Lexer.ofBytes payload).nthScan count

section

variable {payload : Bytes} {lexer : Lexer} {lexeme : Lexeme}

theorem Lexer.isReached_ofBytes (payload : Bytes) : (ofBytes payload).IsReached payload := ⟨0, rfl⟩

theorem Lexer.IsReached.scan (reached : lexer.IsReached payload) :
    lexer.scan.IsScanOf payload := by
  obtain ⟨count, rfl⟩ := reached
  exact ⟨count, rfl⟩

theorem Lexeme.IsScanOf.isReached (isScan : lexeme.IsScanOf payload) :
    lexeme.lexer.IsReached payload := by
  obtain ⟨count, rfl⟩ := isScan
  exact ⟨count + 1, rfl⟩

/-! ## What a lexer keeps -/

/-- No token has a fault of UTF-8.  Whether a text is in order is not the lexer's concern. -/
theorem Scanned.fault_ne_invalidUtf8 {text : Bytes} {reason : Fault} {length : Nat}
    (scanned : Scanned.ofBytes text = .fault reason length) : reason ≠ .invalidUtf8 := by
  have word : ∀ {token? : Bytes → Option Token} {fault : Fault} {bytes : Bytes},
      fault ≠ .invalidUtf8 → ofWord token? fault bytes = .fault reason length →
      reason ≠ .invalidUtf8 := by
    intro token? fault bytes other refused
    unfold ofWord at refused
    split at refused
    · cases refused
    · cases refused
      exact other
  cases text with
  | nil => cases scanned
  | cons byte rest =>
      rw [Scanned.ofBytes] at scanned
      split at scanned
      · cases scanned
      · split at scanned
        · rw [ofText] at scanned
          cases ending : (TextScan.ofBytes rest).ending <;> rw [ending] at scanned <;>
            cases scanned <;> decide
        · split at scanned
          · exact word (by decide) scanned
          · split at scanned
            · exact word (by decide) scanned
            · cases scanned
              exact fun same => by cases same

/-- **What a lexer keeps agrees with the payload**: the unread bytes, those from the token read
last on, and a fault, if there is one, that does not concern UTF-8. -/
structure Lexer.Keeps (payload : Bytes) (lexer : Lexer) : Prop where
  ahead_eq : lexer.ahead = payload.drop lexer.position
  fromStart_eq : lexer.fromStart = payload.drop lexer.start
  fault_ne : lexer.fault ≠ some .invalidUtf8

theorem Lexer.keeps_ofBytes (payload : Bytes) : (ofBytes payload).Keeps payload :=
  ⟨rfl, rfl, fun same => by cases same⟩

/-- One scan keeps the agreement. -/
theorem Lexer.Keeps.scan (keeps : lexer.Keeps payload) : lexer.scan.lexer.Keeps payload := by
  cases going : lexer.fault with
  | some fault =>
      rw [Lexer.scan, going]
      exact keeps
  | none =>
      have spaces : lexer.ahead.dropWhile Ascii.isSpace =
          payload.drop (lexer.position + (lexer.ahead.takeWhile Ascii.isSpace).length) := by
        have whole := List.takeWhile_append_dropWhile (p := Ascii.isSpace) (l := lexer.ahead)
        rw [← List.drop_drop, ← keeps.ahead_eq]
        exact (List.drop_left.symm.trans (congrArg (List.drop _) whole) :)
      rw [Lexer.scan, going]
      simp only
      cases scanned : Scanned.ofBytes (lexer.ahead.dropWhile Ascii.isSpace) with
      | token token length output =>
          exact ⟨by rw [Lexer.lexeme, spaces, List.drop_drop], spaces, fun same => by cases same⟩
      | fault reason length =>
          refine ⟨by rw [Lexer.lexeme, spaces, List.drop_drop], spaces, fun same => ?_⟩
          exact Scanned.fault_ne_invalidUtf8 scanned (Option.some.inj same)

/-- A lexer that is reached is in agreement with the payload. -/
theorem Lexer.IsReached.keeps (reached : lexer.IsReached payload) : lexer.Keeps payload := by
  obtain ⟨count, rfl⟩ := reached
  induction count with
  | zero => exact keeps_ofBytes payload
  | succ count ih => exact ih.scan

/-! ## The scans in a value -/

mutual

/-- Every token of the value is a scan of the payload, and every value in it is what its first
scan has before it. -/
def Tree.IsScanned (payload : Bytes) : Tree Lexeme → Prop
  | .leaf lexeme => lexeme.IsScanOf payload ∧ lexeme.token.isOpening = false
  | .group opening body =>
      opening.IsScanOf payload ∧ opening.token.isOpening = true ∧ body = opening.lexer.body ∧
        body.IsScanned payload

/-- The same of the values and of the ending of a body. -/
def Body.IsScanned (payload : Bytes) : Body Lexeme → Prop
  | .close ending => ending.IsScanOf payload
  | .more head rest => head.IsScanned payload ∧ rest.IsScanned payload

end

theorem Tree.IsScanned.head {tree : Tree Lexeme} (scanned : tree.IsScanned payload) :
    tree.head.IsScanOf payload := by
  cases tree <;> rw [Tree.IsScanned] at scanned <;> exact scanned.1

/-- A value is what its first scan has before it. -/
theorem Tree.IsScanned.eq_tree {tree : Tree Lexeme} (scanned : tree.IsScanned payload) :
    tree = tree.head.lexer.tree tree.head.token := by
  rw [Lexer.tree]
  cases tree with
  | leaf lexeme =>
      rw [Tree.IsScanned] at scanned
      rw [Tree.head, if_neg (by rw [scanned.2]; decide)]
  | group opening body =>
      rw [Tree.IsScanned] at scanned
      obtain ⟨-, opens, inner, -⟩ := scanned
      rw [Tree.head, if_pos opens, ← inner]

/-- **Grouping brings in no other tokens**, at any level. -/
theorem Lexer.IsReached.levels (reached : lexer.IsReached payload) :
    lexer.body.IsScanned payload ∧
      (∀ body ∈ (Body.levels (fun lexeme => lexeme.token.role) lexer.stream.last
        lexer.stream.lexemes).2, body.IsScanned payload) ∧
      lexer.stream.last.IsScanOf payload := by
  induction lexer using Lexer.stream.induct with
  | case1 lexer next going _ ih =>
      obtain ⟨inner, outer, last⟩ := ih reached.scan.isReached
      have isScan : lexer.scan.IsScanOf payload := reached.scan
      rw [body_of_going going, stream_of_going going]
      simp only [Stream.behind, Body.levels]
      cases part : lexer.scan.token.role with
      | closes =>
          refine ⟨isScan, fun body isIn => ?_, last⟩
          rcases List.mem_cons.mp isIn with rfl | further
          · exact inner
          · exact outer body further
      | stands =>
          refine ⟨?_, outer, last⟩
          rw [Body.IsScanned, Tree.IsScanned]
          refine ⟨⟨isScan, Bool.eq_false_iff.mpr fun opens => ?_⟩, inner⟩
          rw [Token.role_of_isOpening opens] at part
          cases part
      | opens =>
          have group : (Tree.group lexer.scan lexer.scan.lexer.body).IsScanned payload := by
            rw [Tree.IsScanned]
            exact ⟨isScan, Token.isOpening_of_role part, rfl, inner⟩
          cases around : (Body.levels (fun lexeme => lexeme.token.role) lexer.scan.lexer.stream.last
              lexer.scan.lexer.stream.lexemes).2 with
          | nil => exact ⟨⟨group, last⟩, fun body isIn => (by cases isIn), last⟩
          | cons behind further =>
              rw [around] at outer
              refine ⟨⟨group, outer behind List.mem_cons_self⟩, fun body isIn => ?_, last⟩
              exact outer body (List.mem_cons_of_mem behind isIn)
  | case2 lexer next stops =>
      rw [Bool.not_eq_false] at stops
      rw [body_of_ends (.inr stops), stream_of_final stops, Body.IsScanned]
      refine ⟨reached.scan, fun body isIn => ?_, reached.scan⟩
      rw [Body.levels] at isIn
      cases isIn

/-- **The tokens that a reached lexer has before it are scans of the payload.** -/
theorem Lexer.IsReached.body (reached : lexer.IsReached payload) :
    lexer.body.IsScanned payload :=
  reached.levels.1

/-- So are those of the value that a scan begins. -/
theorem Lexeme.IsScanOf.tree (isScan : lexeme.IsScanOf payload) :
    (lexeme.lexer.tree lexeme.token).IsScanned payload := by
  rw [Lexer.tree]
  by_cases opens : lexeme.token.isOpening = true
  · rw [if_pos opens, Tree.IsScanned]
    exact ⟨isScan, opens, rfl, isScan.isReached.body⟩
  · rw [if_neg opens, Tree.IsScanned]
    rw [Bool.not_eq_true] at opens
    exact ⟨isScan, opens⟩

end

end ChatCodec
