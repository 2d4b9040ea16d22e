import Mathlib.Data.List.Chain
import ChatCodec.Json.Reader
import ChatCodec.Proofs.Json.Scalars
import ChatCodec.Proofs.Lexer.Runs

/-!
# Pieces and tokens

The strict reader cuts a document into pieces, and the lexer reads it as tokens.  A piece
matches a token (`Json.Piece.Matches`) if both are the same mark, or if both are a scalar
and the piece begins with the word of the token; how far the source of the piece goes on
behind the word does not matter.

* The bytes that a run takes up are cut into pieces that match its tokens
  (`Json.Piece.cut_of_run`).
* If a document is cut into pieces of which no two neighbours are scalars, the lexer reads
  tokens that match them (`Json.Piece.exists_run_of_cut`).

The condition is needed.  A number directly in front of a word, or two words in a row, are
two scalars for the one and a fault for the other.
-/

namespace ChatCodec

set_option autoImplicit false

namespace Json

open Ascii (Stops)
open Scanned (Reads)

namespace Piece

/-- The same mark, the same scalar, or the end, as a piece and as a token. -/
inductive Matches : Piece → Lexeme → Prop where
  | mark {lexeme : Lexeme} (going : lexeme.token.isFinal = false)
      (isMark : lexeme.token.isScalar = false) : Matches (.mark lexeme.token) lexeme
  | scalar {lexeme : Lexeme} {rest : Bytes} (isScalar : lexeme.token.isScalar = true)
      (reads : Reads lexeme.token lexeme.source lexeme.lexer.output rest) :
      Matches (.scalar (lexeme.source ++ rest)) lexeme
  | eof {lexeme : Lexeme} (ended : lexeme.token = .eof) : Matches .eof lexeme

/-- Matching pieces and tokens play the same part. -/
theorem Matches.role_eq {piece : Piece} {lexeme : Lexeme} (matching : Matches piece lexeme) :
    piece.role = lexeme.token.role := by
  cases matching with
  | mark going isMark => rfl
  | scalar isScalar reads =>
      simp only [role]
      revert isScalar
      cases lexeme.token <;> intro isScalar <;> first | rfl | cases isScalar
  | eof ended => rw [ended]; rfl

/-! ## Steps of cutting -/

theorem cut_mark {count : Nat} {spaces rest : Bytes} {byte : UInt8} {token : Token}
    (blank : ∀ other ∈ spaces, Ascii.isSpace other = true)
    (known : Scanned.punctuation? byte = some token) :
    cut (count + 1) (spaces ++ byte :: rest) =
      (mark token :: (cut count rest).1, (cut count rest).2) := by
  have stops : Stops Ascii.isSpace (byte :: rest) :=
    Ascii.stops_cons.mpr (Scanned.classes_of_punctuation? known).2.2.2
  exact cut_of_mark (Ascii.dropWhile_append blank stops) known

theorem cut_scalar {count : Nat} {spaces rest behind : Bytes} {byte : UInt8}
    (blank : ∀ other ∈ spaces, Ascii.isSpace other = true) (begun : Ascii.isSpace byte = false)
    (noMark : Scanned.punctuation? byte = none)
    (passed : Scalar.pass (byte :: rest) = .ok behind) :
    cut (count + 1) (spaces ++ byte :: rest) =
      (scalar (byte :: rest) :: (cut count behind).1, (cut count behind).2) := by
  exact cut_of_scalar (Ascii.dropWhile_append blank (Ascii.stops_cons.mpr begun)) noMark passed

end Piece

/-- A scalar does not begin like a mark. -/
theorem punctuation?_of_isScalar {token : Token} {word output rest : Bytes} {byte : UInt8}
    {tail : Bytes} (reads : Reads token word output rest) (isScalar : token.isScalar = true)
    (same : word = byte :: tail) : Scanned.punctuation? byte = none := by
  cases reads with
  | eof => cases isScalar
  | mark known _ => exact absurd isScalar (by rw [(Scanned.kind_of_punctuation? known).1]; decide)
  | text isText _ => cases same; decide
  | number literal stops =>
      obtain ⟨first, others, rfl, -, all⟩ := NumberLiteral.exists_cons_of_ofBytes? literal
      cases same
      exact Scanned.punctuation?_of_isNumberByte (all byte List.mem_cons_self)
  | bool value stops => cases value <;> cases same <;> decide
  | null stops => cases same; decide

/-- A token that is no scalar and not the end is a mark. -/
theorem eq_mark_of_reads {token : Token} {word output rest : Bytes}
    (reads : Reads token word output rest) (going : token.isFinal = false)
    (isMark : token.isScalar = false) :
    ∃ byte, word = [byte] ∧ Scanned.punctuation? byte = some token := by
  cases reads with
  | eof => cases going
  | @mark byte _ known _ => exact ⟨byte, rfl, known⟩
  | text isText _ => cases isMark
  | @number _ _ literal _ _ => cases integer : literal.isInteger <;> rw [integer] at isMark <;> cases isMark
  | bool value stops => cases isMark
  | null stops => cases isMark

namespace Piece

/-! ## From tokens to pieces -/

/-- **The bytes of a run are cut into pieces that match its tokens**, also with the white space
behind the last of them.  White space in front need not be counted. -/
theorem cut_of_run {lexer last : Lexer} {items : List Lexeme} (run : Lexer.Run lexer items last)
    {blanks rest : Bytes} (blankBehind : ∀ byte ∈ blanks, Ascii.isSpace byte = true)
    (behindLast : last.ahead = blanks ++ rest) :
    ∀ {consumed : Bytes} {count : Nat}, lexer.ahead = consumed ++ rest →
      (consumed.dropWhile Ascii.isSpace).length < count →
        ∃ pieces, cut count consumed = (pieces, .eof) ∧ List.Forall₂ Matches pieces items := by
  induction run with
  | nil lexer =>
      intro consumed count ahead longer
      obtain rfl : consumed = blanks := List.append_cancel_right (ahead.symm.trans behindLast)
      have empty := Ascii.dropWhile_append blankBehind Ascii.stops_nil
      rw [List.append_nil] at empty
      cases count with
      | zero => cases longer
      | succ count =>
          rw [cut, empty]
          exact ⟨[], rfl, .nil⟩
  | @cons lexer last items going following ih =>
      intro consumed count ahead longer
      obtain ⟨spaces, -, blank, front, reads, -, -, -, -⟩ :=
        Lexer.exists_spaces (Lexer.ne_error_of_going going)
      obtain ⟨passed, behind, -⟩ := following.leadsTo
      obtain ⟨inner, behind⟩ : ∃ inner, lexer.scan.lexer.ahead = inner ++ rest :=
        ⟨passed ++ blanks, by rw [behind, behindLast, List.append_assoc]⟩
      have same : consumed = spaces ++ (lexer.scan.source ++ inner) := by
        rw [front, behind, ← List.append_assoc, ← List.append_assoc] at ahead
        rw [← List.append_cancel_right ahead, List.append_assoc]
      rw [behind] at reads
      have shortened := reads.shorten
      obtain ⟨byte, tail, word, begun⟩ := reads.exists_cons (Lexer.ne_eof_of_going going)
      cases count with
      | zero => cases longer
      | succ count =>
          have shorter : (inner.dropWhile Ascii.isSpace).length < count := by
            have within := (List.dropWhile_sublist Ascii.isSpace (l := inner)).length_le
            rw [same, word, List.cons_append,
              Ascii.dropWhile_append blank (Ascii.stops_cons.mpr begun), List.length_cons,
              List.length_append] at longer
            omega
          obtain ⟨pieces, cutRest, matching⟩ := ih behindLast behind shorter
          cases isScalar : lexer.scan.token.isScalar with
          | true =>
              have noMark := punctuation?_of_isScalar reads isScalar word
              have passed := pass_of_reads shortened isScalar
              refine ⟨_, ?_, .cons (.scalar isScalar shortened) matching⟩
              rw [word, List.cons_append] at passed
              rw [same, word, List.cons_append, cut_scalar blank begun noMark passed, cutRest]
          | false =>
              obtain ⟨mark, alone, known⟩ := eq_mark_of_reads reads going isScalar
              refine ⟨_, ?_, .cons (.mark going isScalar) matching⟩
              rw [same, alone, List.singleton_append, cut_mark blank known, cutRest]

/-! ## From pieces to tokens -/

/-- Whether a piece is a scalar. -/
def isScalar : Piece → Bool
  | scalar _ => true
  | _ => false

/-- Two neighbours that are not both scalars. -/
def Apart (first second : Piece) : Prop := first.isScalar = true → second.isScalar = false

/-- What is not cut into a scalar first does not go on with a number or a word. -/
theorem stops_of_cut {count : Nat} {bytes : Bytes} {pieces : List Piece}
    (cutUp : cut count bytes = (pieces, .eof)) (longer : bytes.length < count)
    (apart : ∀ piece ∈ pieces.head?, piece.isScalar = false) {inClass : UInt8 → Bool}
    (visible : ∀ byte, inClass byte = true →
      Ascii.isSpace byte = false ∧ Scanned.punctuation? byte = none) : Stops inClass bytes := by
  cases bytes with
  | nil => exact Ascii.stops_nil
  | cons byte rest =>
      rw [Ascii.stops_cons, ← Bool.not_eq_true]
      intro isIn
      obtain ⟨begun, noMark⟩ := visible byte isIn
      cases count with
      | zero => cases longer
      | succ count =>
          rw [cut, List.dropWhile_cons_of_neg (by rw [begun]; decide)] at cutUp
          simp only [noMark] at cutUp
          cases passed : Scalar.pass (byte :: rest) with
          | error fault => rw [passed] at cutUp; cases cutUp
          | ok behind =>
              rw [passed] at cutUp
              obtain ⟨all, -⟩ := Prod.mk.inj cutUp
              rw [← all] at apart
              cases apart (.scalar (byte :: rest)) rfl

theorem visible_of_isNumberByte (byte : UInt8) (numeric : isNumberByte byte = true) :
    Ascii.isSpace byte = false ∧ Scanned.punctuation? byte = none := by
  refine ⟨?_, Scanned.punctuation?_of_isNumberByte numeric⟩
  rw [← Bool.not_eq_true]
  intro space
  simp only [Ascii.isSpace, Bool.or_eq_true, beq_iff_eq] at space
  rcases space with ((rfl | rfl) | rfl) | rfl <;> exact absurd numeric (by decide)

theorem visible_of_isWordByte (byte : UInt8) (wordly : isWordByte byte = true) :
    Ascii.isSpace byte = false ∧ Scanned.punctuation? byte = none := by
  refine ⟨?_, ?_⟩
  · rw [← Bool.not_eq_true]
    intro space
    simp only [Ascii.isSpace, Bool.or_eq_true, beq_iff_eq] at space
    rcases space with ((rfl | rfl) | rfl) | rfl <;> exact absurd wordly (by decide)
  · cases known : Scanned.punctuation? byte with
    | none => rfl
    | some token =>
        exact absurd wordly (by rw [(Scanned.classes_of_punctuation? known).2.2.1]; decide)

/-- A lexer reads tokens that match the pieces, and then the end. -/
def HasRun (pieces : List Piece) (lexer : Lexer) : Prop :=
  ∃ items last, Lexer.Run lexer items last ∧ last.scan.token = .eof ∧
    List.Forall₂ Matches pieces items

/-- A token that matches the first piece is read in front of those that match the others. -/
theorem hasRun_cons {lexer : Lexer} {front word output rest : Bytes} {token : Token}
    {piece : Piece} {others : List Piece} (clean : lexer.fault = none)
    (ahead : lexer.ahead = front ++ (word ++ rest))
    (blank : ∀ byte ∈ front, Ascii.isSpace byte = true) (begun : Stops Ascii.isSpace (word ++ rest))
    (reads : Reads token word output rest) (going : token.isFinal = false)
    (matching : ∀ lexeme : Lexeme, lexeme.token = token → lexeme.source = word →
      lexeme.lexer.output = output → Matches piece lexeme)
    (behind : ∀ next : Lexer, next.fault = none → next.ahead = rest → HasRun others next) :
    HasRun (piece :: others) lexer := by
  have scan := Lexer.scan_of_reads clean ahead blank begun reads
  obtain ⟨items, last, run, ended, matchingRest⟩ :=
    behind lexer.scan.lexer (by rw [scan]) (by rw [scan])
  refine ⟨lexer.scan :: items, last, .cons (by rw [scan]; exact going) run, ended,
    .cons (matching _ (by rw [scan]) ?_ (by rw [scan])) matchingRest⟩
  rw [Lexeme.source, scan, Lexer.rawTo, Nat.add_sub_cancel_left, List.take_left]

/-- **A document that is cut into pieces, no two neighbours of which are scalars, is read as
tokens that match them.** -/
theorem exists_run_of_cut {count : Nat} : ∀ {bytes : Bytes} {pieces : List Piece} {lexer : Lexer},
    cut count bytes = (pieces, .eof) → bytes.length < count → pieces.IsChain Apart →
      lexer.fault = none → lexer.ahead = bytes → HasRun pieces lexer := by
  induction count with
  | zero => intro bytes pieces lexer _ longer; cases longer
  | succ count ih =>
      intro bytes pieces lexer cutUp longer apart clean ahead
      rw [cut] at cutUp
      have spaces := (List.takeWhile_append_dropWhile (p := Ascii.isSpace) (l := bytes)).symm
      have blank : ∀ byte ∈ bytes.takeWhile Ascii.isSpace, Ascii.isSpace byte = true :=
        Ascii.all_of_mem_takeWhile
      have begun : Stops Ascii.isSpace (bytes.dropWhile Ascii.isSpace) :=
        Ascii.stops_dropWhile bytes
      have short := (List.dropWhile_sublist Ascii.isSpace (l := bytes)).length_le
      revert cutUp spaces begun short
      generalize bytes.dropWhile Ascii.isSpace = text
      generalize bytes.takeWhile Ascii.isSpace = front at blank
      intro cutUp spaces begun short
      -- The lexer reads one token, and goes on behind it as the pieces do.
      have step : ∀ {token : Token} {word output rest : Bytes} {piece : Piece}
          {others : List Piece}, text = word ++ rest → token.isFinal = false →
          Reads token word output rest → pieces = piece :: others →
          cut count rest = (others, .eof) →
          (∀ lexeme : Lexeme, lexeme.token = token → lexeme.source = word →
            lexeme.lexer.output = output → Matches piece lexeme) → HasRun pieces lexer := by
        intro token word output rest piece others same going reads all cutRest matching
        subst same all
        apply hasRun_cons clean (ahead.trans spaces) blank begun reads going matching
        intro next clean ahead
        obtain ⟨byte, tail, rfl, -⟩ := reads.exists_cons (Lexer.ne_eof_of_going going)
        exact ih cutRest (by rw [List.length_append, List.length_cons] at short; omega)
          (List.isChain_cons.mp apart).2 clean ahead
      cases text with
      | nil =>
          cases cutUp
          have scan := Lexer.scan_of_reads clean
            (show lexer.ahead = front ++ ([] ++ []) from ahead.trans spaces) blank begun .eof
          exact ⟨[], lexer, .nil lexer, by rw [scan], .nil⟩
      | cons byte rest =>
          simp only at cutUp
          cases known : Scanned.punctuation? byte with
          | some token =>
              rw [known] at cutUp
              obtain ⟨all, ended⟩ := Prod.mk.inj cutUp
              obtain ⟨isMark, going⟩ := Scanned.kind_of_punctuation? known
              apply step rfl going (.mark known rest) all.symm (Prod.ext rfl ended)
              rintro lexeme rfl - -
              exact .mark going isMark
          | none =>
              rw [known] at cutUp
              simp only at cutUp
              cases passed : Scalar.pass (byte :: rest) with
              | error fault => rw [passed] at cutUp; cases cutUp
              | ok behind =>
                  rw [passed] at cutUp
                  obtain ⟨all, ended⟩ := Prod.mk.inj cutUp
                  have cutRest : cut count behind = ((cut count behind).1, .eof) :=
                    Prod.ext rfl ended
                  have shorter : behind.length < count := by
                    obtain ⟨word, notNil, same⟩ := exists_word_of_pass passed
                    have positive := List.length_pos_iff.mpr notNil
                    rw [same, List.length_append] at short
                    omega
                  rw [← all] at apart
                  have next := fun piece isIn => (List.isChain_cons.mp apart).1 piece isIn rfl
                  obtain ⟨token, word, output, same, isScalar, reads⟩ := reads_of_pass passed
                    (stops_of_cut cutRest shorter next visible_of_isNumberByte)
                    (stops_of_cut cutRest shorter next visible_of_isWordByte)
                  apply step same (Token.isFinal_of_isScalar isScalar) reads all.symm cutRest
                  rintro lexeme rfl rfl rfl
                  rw [same]
                  exact .scalar isScalar reads

end Piece

end Json

end ChatCodec
