import ChatCodec.Lexer.Nested
import ChatCodec.Proofs.Lexer.Tokens
import ChatCodec.Proofs.Nesting

/-!
# Runs of the lexer

A lexer reads a token behind some white space (`Lexer.exists_spaces`), and reading one token
after another it makes a run (`Lexer.Run`).  A run takes up the bytes between its two ends
(`Lexer.Run.leadsTo`), and the stream of tokens begins with those of the run
(`Lexer.Run.stream`).

So where a run has the tokens of a nested body, this body is what the lexer has before it
(`Lexer.Run.body`).

Which token comes next is a matter of the bytes before a lexer (`Lexer.Faces`), and white space
in front of them makes no difference (`Lexer.Approaches`).
-/

namespace ChatCodec

set_option autoImplicit false

open Ascii (Stops)

/-! ## Tokens in the nesting -/

theorem Token.role_of_isScalar {token : Token} (isScalar : token.isScalar = true) :
    token.role = .stands := by
  cases token <;> first | rfl | cases isScalar

theorem Token.role_of_isFinal {token : Token} (final : token.isFinal = true) :
    token.role = .stands := by
  cases token <;> first | rfl | cases final

theorem Token.role_of_isClosing {token : Token} (closes : token.isClosing = true) :
    token.role = .closes := by
  cases token <;> first | rfl | cases closes

theorem Token.role_of_isOpening {token : Token} (opens : token.isOpening = true) :
    token.role = .opens := by
  rw [Token.role, if_pos opens]

theorem Token.isOpening_of_role {token : Token} (opens : token.role = .opens) :
    token.isOpening = true := by
  cases token <;> first | rfl | cases opens

/-- A value does not begin with a final token. -/
theorem Token.isFinal_of_isValue {token : Token} (isValue : token.isValue = true) :
    token.isFinal = false := by
  cases token <;> first | rfl | cases isValue

theorem Token.isFinal_of_isScalar {token : Token} (isScalar : token.isScalar = true) :
    token.isFinal = false := by
  cases token <;> first | rfl | cases isScalar

/-- The bytes of a token. -/
def Lexeme.source (lexeme : Lexeme) : Bytes := lexeme.lexer.rawTo lexeme.lexer

namespace Lexer

open Scanned (Reads)

/-! ## One token -/

/-- The lexeme of a word behind white space. -/
theorem scan_of_reads {lexer : Lexer} {spaces word output rest : Bytes} {token : Token}
    (going : lexer.fault = none) (ahead : lexer.ahead = spaces ++ (word ++ rest))
    (blank : ∀ byte ∈ spaces, Ascii.isSpace byte = true) (begun : Stops Ascii.isSpace (word ++ rest))
    (reads : Reads token word output rest) :
    lexer.scan =
      ⟨token, ⟨rest, lexer.position + spaces.length + word.length, lexer.position + spaces.length,
        word ++ rest, output, none⟩⟩ := by
  rw [scan, going]
  simp only
  rw [ahead, Ascii.takeWhile_append blank begun, Ascii.dropWhile_append blank begun,
    Scanned.ofBytes_of_reads reads, lexeme, List.drop_left]

/-- **A token that is read takes up a word behind white space.** -/
theorem exists_spaces {lexer : Lexer} (read : lexer.scan.token ≠ .error) :
    ∃ spaces, lexer.fault = none ∧ (∀ byte ∈ spaces, Ascii.isSpace byte = true) ∧
      lexer.ahead = spaces ++ (lexer.scan.source ++ lexer.scan.lexer.ahead) ∧
      Reads lexer.scan.token lexer.scan.source lexer.scan.lexer.output lexer.scan.lexer.ahead ∧
      lexer.scan.lexer.fault = none ∧
      lexer.scan.lexer.start = lexer.position + spaces.length ∧
      lexer.scan.lexer.position = lexer.scan.lexer.start + lexer.scan.source.length ∧
      lexer.scan.lexer.fromStart = lexer.scan.source ++ lexer.scan.lexer.ahead := by
  cases going : lexer.fault with
  | some fault =>
      rw [scan, going] at read
      exact absurd rfl read
  | none =>
      have spaces := (List.takeWhile_append_dropWhile (p := Ascii.isSpace) (l := lexer.ahead)).symm
      cases scanned : Scanned.ofBytes (lexer.ahead.dropWhile Ascii.isSpace) with
      | fault reason length =>
          rw [scan, going] at read
          simp only at read
          rw [scanned] at read
          exact absurd rfl read
      | token token length output =>
          obtain ⟨word, rest, text, rfl, reads⟩ := Scanned.reads_of_ofBytes scanned
          have begun : Stops Ascii.isSpace (word ++ rest) := by
            rw [← text]
            exact Ascii.stops_dropWhile lexer.ahead
          rw [text] at spaces
          have whole := scan_of_reads going spaces Ascii.all_of_mem_takeWhile begun reads
          have source : lexer.scan.source = word := by
            rw [Lexeme.source, whole, rawTo, Nat.add_sub_cancel_left, List.take_left]
          rw [source, whole]
          exact ⟨_, rfl, Ascii.all_of_mem_takeWhile, spaces, reads, rfl, rfl, rfl, rfl⟩

/-! ## Runs -/

/-- The lexer reads the lexemes one after another, and stands behind the last of them. -/
inductive Run : Lexer → List Lexeme → Lexer → Prop where
  | nil (lexer : Lexer) : Run lexer [] lexer
  | cons {lexer last : Lexer} {items : List Lexeme} (going : lexer.scan.token.isFinal = false)
      (following : Run lexer.scan.lexer items last) : Run lexer (lexer.scan :: items) last

theorem ne_error_of_going {token : Token} (going : token.isFinal = false) : token ≠ .error := by
  rintro rfl
  cases going

theorem ne_eof_of_going {token : Token} (going : token.isFinal = false) : token ≠ .eof := by
  rintro rfl
  cases going

/-- The later lexer stands further on in the same bytes. -/
def LeadsTo (lexer later : Lexer) : Prop :=
  ∃ consumed, lexer.ahead = consumed ++ later.ahead ∧
    later.position = lexer.position + consumed.length

theorem LeadsTo.refl (lexer : Lexer) : lexer.LeadsTo lexer := ⟨[], rfl, rfl⟩

theorem LeadsTo.trans {lexer middle later : Lexer} (first : lexer.LeadsTo middle)
    (second : middle.LeadsTo later) : lexer.LeadsTo later := by
  obtain ⟨front, ahead, position⟩ := first
  obtain ⟨behind, aheadLater, positionLater⟩ := second
  refine ⟨front ++ behind, by rw [ahead, aheadLater, List.append_assoc], ?_⟩
  rw [positionLater, position, List.length_append, Nat.add_assoc]

/-- Reading a token leads on. -/
theorem leadsTo_scan {lexer : Lexer} (going : lexer.scan.token.isFinal = false) :
    lexer.LeadsTo lexer.scan.lexer := by
  obtain ⟨spaces, -, -, ahead, -, -, start, position, -⟩ :=
    exists_spaces (ne_error_of_going going)
  refine ⟨spaces ++ lexer.scan.source, by rw [List.append_assoc]; exact ahead, ?_⟩
  rw [position, start, List.length_append, Nat.add_assoc]

namespace Run

variable {lexer last : Lexer} {items : List Lexeme}

theorem append {middle : Lexer} {others : List Lexeme} (first : Run lexer items middle)
    (second : Run middle others last) : Run lexer (items ++ others) last := by
  induction first with
  | nil lexer => exact second
  | cons going _ ih => exact .cons going (ih second)

/-- A run can be divided anywhere. -/
theorem exists_middle : ∀ {items others : List Lexeme} {lexer : Lexer},
    Run lexer (items ++ others) last → ∃ middle, Run lexer items middle ∧ Run middle others last
  | [], others, lexer, run => ⟨lexer, .nil lexer, run⟩
  | item :: items, others, lexer, run => by
      cases run with
      | cons going following =>
          obtain ⟨middle, first, second⟩ := exists_middle following
          exact ⟨middle, .cons going first, second⟩

/-- **A run takes up the bytes between its ends.** -/
theorem leadsTo (run : Run lexer items last) : lexer.LeadsTo last := by
  induction run with
  | nil lexer => exact .refl lexer
  | cons going _ ih => exact (leadsTo_scan going).trans ih

/-- A run that reads a token makes progress. -/
theorem ahead_lt {first : Lexeme} (run : Run lexer (first :: items) last) :
    last.ahead.length < lexer.ahead.length := by
  cases run with
  | cons going following =>
      obtain ⟨consumed, ahead, -⟩ := following.leadsTo
      have shorter := lexer.scan_ahead_lt going
      rw [ahead, List.length_append] at shorter
      omega

/-- A run meets no fault. -/
theorem fault_eq_none (run : Run lexer items last) (going : lexer.fault = none) :
    last.fault = none := by
  induction run with
  | nil lexer => exact going
  | cons goes _ ih =>
      obtain ⟨_, -, -, -, -, behind, -⟩ := exists_spaces (ne_error_of_going goes)
      exact ih behind

/-- **The bytes from the beginning of its first token on** are those that a run takes up
behind white space. -/
theorem exists_raw {first : Lexeme} (run : Run lexer (first :: items) last) :
    ∃ spaces raw, (∀ byte ∈ spaces, Ascii.isSpace byte = true) ∧
      (∀ rest, Stops Ascii.isSpace (raw ++ rest)) ∧
      lexer.ahead = spaces ++ raw ++ last.ahead ∧ first.lexer.rawTo last = raw := by
  cases run with
  | cons going following =>
      obtain ⟨spaces, -, blank, ahead, reads, -, start, position, fromStart⟩ :=
        exists_spaces (ne_error_of_going going)
      obtain ⟨byte, tail, word, begun⟩ := reads.exists_cons (ne_eof_of_going going)
      obtain ⟨consumed, behind, ends⟩ := following.leadsTo
      refine ⟨spaces, lexer.scan.source ++ consumed, blank, ?_, ?_, ?_⟩
      · intro rest
        rw [word, List.cons_append, List.cons_append]
        exact Ascii.stops_cons.mpr begun
      · rw [ahead, behind]
        simp only [List.append_assoc]
      · have length : last.position - lexer.scan.lexer.start =
            (lexer.scan.source ++ consumed).length := by
          rw [ends, position, List.length_append]
          omega
        rw [rawTo, fromStart, behind, length, ← List.append_assoc, List.take_left]

/-- **The stream of tokens begins with those of a run.** -/
theorem stream (run : Run lexer items last) :
    lexer.stream = ⟨items ++ last.stream.lexemes, last.stream.last⟩ := by
  induction run with
  | nil lexer => rfl
  | cons going _ ih =>
      rw [Lexer.stream]
      simp only [dif_pos going, ih]
      rfl

end Run

/-! ## Bytes before a lexer -/

/-- The lexer is in order and has these bytes before it. -/
structure Faces (lexer : Lexer) (bytes : Bytes) : Prop where
  going : lexer.fault = none
  ahead_eq : lexer.ahead = bytes

/-- **A lexer that has a word before it reads its token.** -/
theorem Faces.exists_lexeme {lexer : Lexer} {token : Token} {word output rest : Bytes}
    (faces : lexer.Faces (word ++ rest)) (reads : Reads token word output rest)
    (going : token.isFinal = false) :
    ∃ lexeme, lexeme.token = token ∧ lexeme.source = word ∧ lexeme.lexer.output = output ∧
      Run lexer [lexeme] lexeme.lexer ∧ lexeme.lexer.Faces rest := by
  have scan := scan_of_reads faces.going
    (show lexer.ahead = [] ++ (word ++ rest) from faces.ahead_eq) (fun byte isIn => by cases isIn)
    reads.stops_space reads
  have source : lexer.scan.source = word := by
    rw [Lexeme.source, scan, rawTo, Nat.add_sub_cancel_left, List.take_left]
  have goes : lexer.scan.token.isFinal = false := by rw [scan, going]
  exact ⟨lexer.scan, by rw [scan], source, by rw [scan], .cons goes (.nil _), by rw [scan],
    by rw [scan]⟩

/-- A lexer that has a mark before it reads the mark. -/
theorem Faces.exists_mark {lexer : Lexer} {byte : UInt8} {token : Token} {rest : Bytes}
    (faces : lexer.Faces (byte :: rest)) (known : Scanned.punctuation? byte = some token) :
    ∃ lexeme, lexeme.token = token ∧ Run lexer [lexeme] lexeme.lexer ∧ lexeme.lexer.Faces rest := by
  obtain ⟨lexeme, isMark, -, -, run, behind⟩ :=
    (show lexer.Faces ([byte] ++ rest) from faces).exists_lexeme (.mark known rest)
      (Scanned.kind_of_punctuation? known).2
  exact ⟨lexeme, isMark, run, behind⟩

/-- The lexer is in order and has these bytes before it, perhaps behind white space. -/
def Approaches (lexer : Lexer) (bytes : Bytes) : Prop :=
  ∃ blanks, (∀ byte ∈ blanks, Ascii.isSpace byte = true) ∧ lexer.Faces (blanks ++ bytes)

theorem Faces.approaches {lexer : Lexer} {bytes : Bytes} (faces : lexer.Faces bytes) :
    lexer.Approaches bytes :=
  ⟨[], List.forall_mem_nil _, faces⟩

theorem approaches_ofBytes (payload : Bytes) : (ofBytes payload).Approaches payload :=
  Faces.approaches ⟨rfl, rfl⟩

/-- Nothing follows what a new lexer has before it. -/
theorem faces_ofBytes (payload : Bytes) : (ofBytes payload).Faces (payload ++ []) :=
  ⟨rfl, (List.append_nil payload).symm⟩

/-- White space that comes next is nothing to stop at. -/
theorem Approaches.skip {lexer : Lexer} {blanks bytes : Bytes}
    (approaches : lexer.Approaches (blanks ++ bytes))
    (blank : ∀ byte ∈ blanks, Ascii.isSpace byte = true) : lexer.Approaches bytes := by
  obtain ⟨front, blankFront, going, ahead⟩ := approaches
  refine ⟨front ++ blanks, ?_, going, by rw [ahead, List.append_assoc]⟩
  intro byte isIn
  rcases List.mem_append.mp isIn with inFront | inBlanks
  · exact blankFront byte inFront
  · exact blank byte inBlanks

/-- **White space makes no difference to the next token**: the same one is read by a lexer that
stands behind the white space, as far from the end. -/
theorem Approaches.exists_stand {lexer : Lexer} {bytes : Bytes}
    (approaches : lexer.Approaches bytes) :
    ∃ behind : Lexer, behind.Faces bytes ∧ behind.scan = lexer.scan ∧
      behind.position + bytes.length = lexer.position + lexer.ahead.length := by
  obtain ⟨blanks, blank, going, ahead⟩ := approaches
  refine ⟨{ lexer with ahead := bytes, position := lexer.position + blanks.length }, ⟨going, rfl⟩,
    ?_, by rw [ahead, List.length_append, Nat.add_assoc]⟩
  rw [scan, scan, going]
  simp only
  rw [ahead, List.dropWhile_append_of_pos blank, List.takeWhile_append_of_pos blank,
    List.length_append, Nat.add_assoc]

theorem Approaches.exists_faces {lexer : Lexer} {bytes : Bytes}
    (approaches : lexer.Approaches bytes) :
    ∃ behind : Lexer, behind.Faces bytes ∧ behind.scan = lexer.scan := by
  obtain ⟨behind, faces, same, -⟩ := approaches.exists_stand
  exact ⟨behind, faces, same⟩

/-- A lexer that approaches a mark reads it. -/
theorem Approaches.scan_mark {lexer : Lexer} {byte : UInt8} {token : Token} {rest : Bytes}
    (approaches : lexer.Approaches (byte :: rest))
    (known : Scanned.punctuation? byte = some token) :
    lexer.scan.token = token ∧ lexer.scan.lexer.Faces rest := by
  obtain ⟨behind, faces, same⟩ := approaches.exists_faces
  obtain ⟨lexeme, isMark, run, last⟩ := faces.exists_mark known
  rw [← same]
  cases run with
  | cons going following => exact ⟨isMark, last⟩

/-- A mark that is read comes next, behind white space. -/
theorem exists_blanks_of_mark {lexer : Lexer} {byte : UInt8} {token : Token}
    (known : Scanned.punctuation? byte = some token) (isMark : lexer.scan.token = token) :
    ∃ blanks, (∀ byte ∈ blanks, Ascii.isSpace byte = true) ∧
      lexer.ahead = blanks ++ byte :: lexer.scan.lexer.ahead := by
  obtain ⟨blanks, -, blank, ahead, reads, -⟩ := @exists_spaces lexer
    (ne_error_of_going (by rw [isMark]; exact (Scanned.kind_of_punctuation? known).2))
  rw [isMark] at reads
  rw [reads.eq_mark known] at ahead
  exact ⟨blanks, blank, ahead⟩

/-- **The end comes next where nothing but white space is left.** -/
theorem scan_eof_iff {lexer : Lexer} : lexer.scan.token = .eof ↔ lexer.Approaches [] := by
  constructor
  · intro ended
    obtain ⟨spaces, going, blank, ahead, reads, -⟩ :=
      @exists_spaces lexer (by rw [ended]; decide)
    rw [ended] at reads
    obtain ⟨word, rest⟩ := reads.eq_nil
    rw [word, rest] at ahead
    exact ⟨spaces, blank, going, ahead⟩
  · intro approaches
    obtain ⟨behind, ⟨going, ahead⟩, same⟩ := approaches.exists_faces
    rw [← same, scan, going, ahead]
    rfl

/-! ## Nested runs -/

namespace Run

variable {lexer last : Lexer}

/-- **The body of a run is what the lexer has before it.** -/
theorem body {body : Body Lexeme} (nested : body.IsNested fun lexeme => lexeme.token.role)
    (run : Run lexer body.items last) : lexer.body = body := by
  rw [Lexer.body, run.stream, Body.ofList, Body.levels_items nested]

/-- A run ends behind the last token of a body. -/
theorem ending : ∀ {body : Body Lexeme} {lexer : Lexer}, Run lexer body.items last →
    body.ending.lexer = last
  | .close item, lexer, run => by
      rw [Body.items] at run
      cases run with
      | cons going following =>
          cases following
          rfl
  | .more head rest, lexer, run => by
      rw [Body.items] at run
      obtain ⟨middle, -, second⟩ := exists_middle run
      rw [Body.ending]
      exact second.ending

/-- A run over one token ends behind it. -/
theorem lexer_eq_of_leaf {lexeme : Lexeme} (run : Run lexer (Tree.leaf lexeme).items last) :
    lexeme.lexer = last := by
  rw [Tree.items] at run
  cases run with
  | cons going following =>
      cases following
      rfl

/-- A run ends behind the last token of a value. -/
theorem last_eq {tree : Tree Lexeme} (run : Run lexer tree.items last) :
    tree.last.lexer = last := by
  cases tree with
  | leaf item => exact run.lexer_eq_of_leaf
  | group opening body =>
      rw [Tree.items] at run
      cases run with
      | cons going following => exact following.ending

end Run

end Lexer

end ChatCodec
