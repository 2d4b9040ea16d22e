import ChatCodec.Proofs.Json.Grammar
import ChatCodec.Proofs.Streaming.Skipping

/-!
# Opaque JSON is captured and read again

The streaming decoder skips opaque JSON and hands the bytes it has skipped to the strict
reader.  These bytes are cut into pieces once more, apart from what stood around them, and
at a nesting of their own.  What the strict reader makes of a value does not depend on
either: two values of pieces that match the same tokens are read alike, wherever more
brackets are allowed (`Json.readValue_of_related`).

So a value that the strict reader reads in its place is decoded as that value
(`decodeOpaque_of_readValue`).
-/

namespace ChatCodec

set_option autoImplicit false

open Ascii (Stops)
open Scanned (Reads)

namespace Json

open Piece (Matches)

/-! ## Pieces that match one token -/

namespace Piece

variable {lexeme : Lexeme} {other : Piece}

theorem Matches.token_eq {token : Token} (matching : Matches (.mark token) lexeme) :
    lexeme.token = token := by
  cases matching with
  | mark going isMark => rfl

theorem Matches.eq_mark {token : Token} (matching : Matches (.mark token) lexeme)
    (again : Matches other lexeme) : other = .mark token := by
  cases matching with
  | mark going isMark =>
      cases again with
      | mark _ _ => rfl
      | scalar isScalar _ => rw [isMark] at isScalar; cases isScalar
      | eof ended => rw [ended] at going; cases going

/-- The piece for a mark is the mark. -/
theorem Matches.eq_mark_of_token {token : Token} (matching : Matches other lexeme)
    (isToken : lexeme.token = token) (isMark : token.isScalar = false)
    (going : token.isFinal = false) : other = .mark token := by
  subst isToken
  cases matching with
  | mark _ _ => rfl
  | scalar isScalar _ => rw [isMark] at isScalar; cases isScalar
  | eof ended => rw [ended] at going; cases going

theorem Matches.isScalar {source : Bytes} (matching : Matches (.scalar source) lexeme) :
    lexeme.token.isScalar = true := by
  cases matching with
  | scalar isScalar _ => exact isScalar

/-- A piece for a scalar token begins with the word of the token. -/
theorem Matches.exists_rest (matching : Matches other lexeme)
    (isScalar : lexeme.token.isScalar = true) :
    ∃ rest, other = .scalar (lexeme.source ++ rest) ∧
      Reads lexeme.token lexeme.source lexeme.lexer.output rest := by
  cases matching with
  | mark _ isMark => rw [isMark] at isScalar; cases isScalar
  | @scalar _ rest _ reads => exact ⟨rest, rfl, reads⟩
  | eof ended => rw [ended] at isScalar; cases isScalar

/-- **Pieces that match one scalar token have one value.** -/
theorem Matches.read_eq {source : Bytes} (matching : Matches (.scalar source) lexeme)
    (again : Matches other lexeme) :
    ∃ source', other = .scalar source' ∧ Atom.read source' = Atom.read source := by
  obtain ⟨rest, same, reads⟩ := matching.exists_rest matching.isScalar
  obtain ⟨rest', same', reads'⟩ := again.exists_rest matching.isScalar
  cases same
  exact ⟨_, same', by rw [Atom.read_append reads matching.isScalar,
    Atom.read_append reads' matching.isScalar]⟩

/-- A piece that begins with a quote matches a text. -/
theorem Matches.exists_text {bytes : Bytes}
    (matching : Matches (.scalar (Ascii.quote :: bytes)) lexeme) :
    lexeme.token = .string ∧ ∃ body units rest, lexeme.source = Ascii.quote :: body ∧
      bytes = body ++ rest ∧ TextScan.IsText body units ∧
      lexeme.lexer.output = TextUnit.spell units := by
  obtain ⟨rest, same, reads⟩ := matching.exists_rest matching.isScalar
  obtain ⟨string, body, units, source, bytesSame, isText, output⟩ :=
    reads.exists_text (Piece.scalar.inj same).symm
  exact ⟨string, body, units, rest, source, bytesSame, isText, output⟩

/-- Pieces that match one key are read alike. -/
theorem Matches.readText_eq {bytes : Bytes}
    (matching : Matches (.scalar (Ascii.quote :: bytes)) lexeme) (again : Matches other lexeme) :
    ∃ bytes', other = .scalar (Ascii.quote :: bytes') ∧ readText bytes' = readText bytes := by
  obtain ⟨-, body, units, rest, source, rfl, isText, -⟩ := matching.exists_text
  obtain ⟨rest', same, -⟩ := again.exists_rest matching.isScalar
  rw [source, List.cons_append] at same
  exact ⟨_, same, by rw [readText_append isText, readText_append isText]⟩

/-- The text of a key is what the lexer captures of it. -/
theorem Matches.output_eq {bytes : Bytes} {key : String}
    (matching : Matches (.scalar (Ascii.quote :: bytes)) lexeme) (read : readText bytes = .ok key) :
    lexeme.token = .string ∧ lexeme.lexer.output = bytesOf key := by
  obtain ⟨string, body, units, rest, source, rfl, isText, output⟩ := matching.exists_text
  rw [readText_append isText] at read
  have value : Atom.read (Ascii.quote :: body) = .ok (.text key) := by
    rw [Atom.read_text, read]
    rfl
  have shown := Atom.shown_of_read (Reads.text isText []) rfl value
  cases shown with
  | text same => exact ⟨string, by rw [output, same]⟩

end Piece

/-! ## Related values are read alike -/

mutual

/-- **What is read of a value depends on its tokens alone**, and a wider limit on the nesting
does not change it. -/
theorem readValue_of_related : ∀ {tree other : Tree Piece} {tokens : Tree Lexeme},
    tree.Related Matches tokens → other.Related Matches tokens →
      ∀ {allowed wider : Nat}, allowed ≤ wider → ∀ {value : Value},
        readValue allowed tree = .ok value → readValue wider other = .ok value
  | .leaf piece, _, _, .leaf same, .leaf again, _, _, _, value, read => by
      cases piece with
      | scalar source =>
          obtain ⟨source', rfl, alike⟩ := same.read_eq again
          rw [readValue] at read ⊢
          rw [alike, read]
      | mark token => cases read
      | eof => cases read
      | broken fault => cases read
  | .group opening body, _, _, .group same inner, @Tree.Related.group _ _ _ opening' _ _ _ again
      inner', allowed, wider, within, value, read => by
      by_cases object : opening = .mark .objectStart
      · subst object
        rw [same.eq_mark again]
        obtain ⟨inside, rfl, members, inside', rfl⟩ := readValue_object.mp read
        refine readValue_object.mpr ⟨wider - 1, by omega, members, ?_, rfl⟩
        exact readMembers_of_related inner inner' (by omega) inside'
      · have array : opening' ≠ .mark .objectStart := by
          rintro rfl
          exact object (again.eq_mark same)
        obtain ⟨inside, rfl, items, inside', rfl⟩ := (readValue_array object).mp read
        refine (readValue_array array).mpr ⟨wider - 1, by omega, items, ?_, rfl⟩
        exact readItems_of_related inner inner' (by omega) inside'

theorem readMembers_of_related : ∀ {body other : Body Piece} {tokens : Body Lexeme},
    body.Related Matches tokens → other.Related Matches tokens →
      ∀ {allowed wider : Nat}, allowed ≤ wider →
        ∀ {stage : Stage} {key : String} {before members : Members},
          readMembers allowed stage key before body = .ok members →
            readMembers wider stage key before other = .ok members
  | .close ending, _, _, .close same, .close again, _, _, _, stage, key, before, members, read => by
      obtain ⟨⟨rfl, ends⟩, rfl⟩ := readMembers_close.mp read
      exact readMembers_close.mpr ⟨⟨same.eq_mark again, ends⟩, rfl⟩
  | .more tree rest, _, _, .more alike following, @Body.Related.more _ _ _ tree' _ rest' _ alike'
      following', _, wider, within, stage, key, before, members, read => by
      have head := alike.head
      have head' := alike'.head
      have atKey (begins : stage = .opened ∨ stage = .separated) :
          readMembers wider stage key before (.more tree' rest') = .ok members := by
        obtain ⟨bytes, begun, key, text, behind⟩ := (readMembers_key begins).mp read
        rw [begun] at head
        obtain ⟨bytes', begun', sameText⟩ := head.readText_eq head'
        exact (readMembers_key begins).mpr
          ⟨bytes', begun', key, by rw [sameText, text],
            readMembers_of_related following following' within behind⟩
      cases stage with
      | opened => exact atKey (.inl rfl)
      | separated => exact atKey (.inr rfl)
      | named =>
          obtain ⟨begun, behind⟩ := readMembers_colon.mp read
          rw [begun] at head
          exact readMembers_colon.mpr
            ⟨head.eq_mark head', readMembers_of_related following following' within behind⟩
      | announced =>
          obtain ⟨value, valueRead, behind⟩ := readMembers_value.mp read
          exact readMembers_value.mpr ⟨value, readValue_of_related alike alike' within valueRead,
            readMembers_of_related following following' within behind⟩
      | filled =>
          obtain ⟨begun, behind⟩ := readMembers_comma.mp read
          rw [begun] at head
          exact readMembers_comma.mpr
            ⟨head.eq_mark head', readMembers_of_related following following' within behind⟩

theorem readItems_of_related : ∀ {body other : Body Piece} {tokens : Body Lexeme},
    body.Related Matches tokens → other.Related Matches tokens →
      ∀ {allowed wider : Nat}, allowed ≤ wider → ∀ {stage : Stage} {items : Items},
        readItems allowed stage body = .ok items → readItems wider stage other = .ok items
  | .close ending, _, _, .close same, .close again, _, _, _, stage, items, read => by
      obtain ⟨⟨rfl, ends⟩, rfl⟩ := readItems_close.mp read
      exact readItems_close.mpr ⟨⟨same.eq_mark again, ends⟩, rfl⟩
  | .more tree rest, _, _, .more alike following, .more alike' following', _, _, within, stage, items,
      read => by
      by_cases filled : stage = .filled
      · subst filled
        obtain ⟨begun, behind⟩ := readItems_comma.mp read
        have head := alike.head
        rw [begun] at head
        exact readItems_comma.mpr
          ⟨head.eq_mark alike'.head, readItems_of_related following following' within behind⟩
      · obtain ⟨value, valueRead, tail, behind, rfl⟩ := (readItems_item filled).mp read
        exact (readItems_item filled).mpr
          ⟨value, readValue_of_related alike alike' within valueRead, tail,
            readItems_of_related following following' within behind, rfl⟩

end

/-! ## What is in order is skipped -/

/-- The place of the skipper in an object where the strict reader is at a stage. -/
def Stage.memberPlace : Stage → MemberPlace
  | opened | separated => .key
  | named => .colon
  | announced => .value
  | filled => .separator

/-- The place of the skipper in an array where the strict reader is at a stage. -/
def Stage.itemPlace : Stage → ItemPlace
  | filled => .separator
  | _ => .item

theorem Stage.itemPlace_of_ne {stage : Stage} (begins : stage ≠ .filled) :
    stage.itemPlace = .item := by
  cases stage <;> first | rfl | exact absurd rfl begins

/-- A value in order begins like a value. -/
theorem InOrder.isValue {tree : Tree Piece} (inOrder : InOrder tree) {tokens : Tree Lexeme}
    (alike : tree.Related Matches tokens) :
    tokens.head.token.isValue = true := by
  have head := alike.head
  cases inOrder with
  | scalar source => rw [Token.isValue, head.isScalar, Bool.true_or]
  | object members => rw [head.token_eq]; rfl
  | array items => rw [head.token_eq]; rfl

mutual

/-- **A value in order is skipped.** -/
theorem InOrder.skipTree_eq : ∀ {tree : Tree Piece}, InOrder tree → ∀ {tokens : Tree Lexeme},
    tree.Related Matches tokens → skipTree tokens = .done () tokens.last.lexer
  | _, .scalar source, _, .leaf same => skipTree_of_isScalar same.isScalar
  | _, .object members, _, .group same inner => by
      rw [skipTree, if_pos same.token_eq]
      exact members.skipMembers_eq inner
  | _, .array items, _, .group same inner => by
      rw [skipTree, if_neg (by rw [same.token_eq]; decide)]
      exact items.skipItems_eq inner

theorem HasMembers.skipMembers_eq : ∀ {stage : Stage} {body : Body Piece}, HasMembers stage body →
    ∀ {tokens : Body Lexeme}, body.Related Matches tokens →
      skipMembers stage.memberPlace tokens = .done () tokens.ending.lexer
  | stage, _, .close ends, _, .close same => by
      have mayEnd : stage.memberPlace.mayEnd = true := by rcases ends with rfl | rfl <;> rfl
      rw [skipMembers, if_pos ⟨same.token_eq, mayEnd⟩]
      rfl
  | stage, _, .key begins behind, _, .more (.leaf same) following => by
      have place : stage.memberPlace = .key := by rcases begins with rfl | rfl <;> rfl
      rw [place, skipMembers, Tree.head, if_pos same.exists_text.1]
      exact behind.skipMembers_eq following
  | _, _, .colon behind, _, .more (.leaf same) following => by
      rw [Stage.memberPlace, skipMembers, Tree.head, if_pos same.token_eq]
      exact behind.skipMembers_eq following
  | _, _, .value inOrder behind, _, .more alike following => by
      rw [Stage.memberPlace, skipMembers, if_pos (inOrder.isValue alike),
        inOrder.skipTree_eq alike, Outcome.follow_done]
      exact behind.skipMembers_eq following
  | _, _, .comma behind, _, .more (.leaf same) following => by
      rw [Stage.memberPlace, skipMembers, Tree.head, if_pos same.token_eq]
      exact behind.skipMembers_eq following

theorem HasItems.skipItems_eq : ∀ {stage : Stage} {body : Body Piece}, HasItems stage body →
    ∀ {tokens : Body Lexeme}, body.Related Matches tokens →
      skipItems stage.itemPlace tokens = .done () tokens.ending.lexer
  | _, _, .close _, _, .close same => by
      rw [skipItems, if_pos same.token_eq]
      rfl
  | _, _, .item begins inOrder behind, _, .more alike following => by
      rw [Stage.itemPlace_of_ne begins, skipItems, if_pos (inOrder.isValue alike),
        inOrder.skipTree_eq alike, Outcome.follow_done]
      exact behind.skipItems_eq following
  | _, _, .comma behind, _, .more (.leaf same) following => by
      rw [Stage.itemPlace, skipItems, Tree.head, if_pos same.token_eq]
      exact behind.skipItems_eq following

end

/-! ## What is captured is read again -/

theorem Piece.cut_spaces {count : Nat} {spaces : Bytes}
    (blank : ∀ byte ∈ spaces, Ascii.isSpace byte = true) (rest : Bytes) :
    cut (count + 1) (spaces ++ rest) = cut (count + 1) rest := by
  rw [cut, cut, List.dropWhile_append_of_pos blank]

/-- **A document that holds the tokens of a value**, with white space around them, is one value
of pieces that match the tokens. -/
theorem Piece.body_of_run {lexer last : Lexer} {tokens : Tree Lexeme}
    {spaces document blanks rest : Bytes} (nested : tokens.IsNested fun lexeme => lexeme.token.role)
    (run : Lexer.Run lexer tokens.items last) (blank : ∀ byte ∈ spaces, Ascii.isSpace byte = true)
    (ahead : lexer.ahead = spaces ++ document ++ rest)
    (blankBehind : ∀ byte ∈ blanks, Ascii.isSpace byte = true)
    (behindLast : last.ahead = blanks ++ rest) :
    ∃ tree : Tree Piece, tree.Related Matches tokens ∧
      Piece.body document = .more tree (.close .eof) := by
  have within : ((spaces ++ document).dropWhile Ascii.isSpace).length < document.length + 1 := by
    rw [List.dropWhile_append_of_pos blank]
    exact Nat.lt_succ_of_le (List.dropWhile_sublist Ascii.isSpace).length_le
  obtain ⟨pieces, cutUp, matching⟩ := Piece.cut_of_run run blankBehind behindLast ahead within
  obtain ⟨tree, rfl, alike⟩ := Tree.exists_related matching
  have nestedTree : tree.IsNested Piece.role :=
    alike.flip.isNested (fun _ _ same => same.role_eq.symm) nested
  have grouped : Body.levels Piece.role .eof (tree.items ++ []) = _ :=
    Tree.levels_items nestedTree []
  rw [List.append_nil] at grouped
  refine ⟨tree, alike, ?_⟩
  rw [Piece.body, ← Piece.cut_spaces blank document, cutUp, Body.ofList, grouped, Body.levels]

/-- Such a document is read like the pieces that match its tokens. -/
theorem Value.ofDocument_of_run {lexer last : Lexer} {tokens : Tree Lexeme}
    {spaces document blanks rest : Bytes} (nested : tokens.IsNested fun lexeme => lexeme.token.role)
    (run : Lexer.Run lexer tokens.items last) (blank : ∀ byte ∈ spaces, Ascii.isSpace byte = true)
    (ahead : lexer.ahead = spaces ++ document ++ rest)
    (blankBehind : ∀ byte ∈ blanks, Ascii.isSpace byte = true)
    (behindLast : last.ahead = blanks ++ rest) :
    ∃ tree : Tree Piece, tree.Related Matches tokens ∧
      Value.ofDocument document = readValue nestingLimit tree := by
  obtain ⟨tree, alike, grouped⟩ :=
    Piece.body_of_run nested run blank ahead blankBehind behindLast
  refine ⟨tree, alike, ?_⟩
  rw [Value.ofDocument, readDocument, grouped]
  exact bind_pure (readValue nestingLimit tree)

/-- **The bytes of a value make a document** of pieces that match its tokens. -/
theorem Value.ofDocument_rawTo {lexer last : Lexer} {tokens : Tree Lexeme}
    (nested : tokens.IsNested fun lexeme => lexeme.token.role)
    (run : Lexer.Run lexer tokens.items last) :
    ∃ tree : Tree Piece, tree.Related Matches tokens ∧
      Value.ofDocument (tokens.head.lexer.rawTo last) = readValue nestingLimit tree := by
  obtain ⟨others, items⟩ := tokens.items_eq_cons
  obtain ⟨spaces, raw, blank, -, ahead, captured⟩ := (items ▸ run).exists_raw
  rw [captured]
  exact ofDocument_of_run nested run blank ahead (List.forall_mem_nil _) rfl

end Json

/-- **A value that the strict reader reads is decoded as opaque JSON**, if it is read at a
nesting within the limit. -/
theorem decodeOpaque_of_readValue {lexer last : Lexer} {tokens : Tree Lexeme}
    {tree : Tree Json.Piece} {allowed : Nat} {value : Json.Value}
    (run : Lexer.Run lexer tokens.items last) (alike : tree.Related Json.Piece.Matches tokens)
    (inOrder : Json.InOrder tree) (within : allowed ≤ Json.nestingLimit)
    (read : Json.readValue allowed tree = .ok value) (before : Json.Value) :
    decodeOpaque tokens before = .done value last := by
  have nested : tokens.IsNested fun lexeme => lexeme.token.role :=
    alike.isNested (fun _ _ same => same.role_eq) inOrder.isNested
  obtain ⟨again, alikeAgain, document⟩ := Json.Value.ofDocument_rawTo nested run
  have readAgain := Json.readValue_of_related alike alikeAgain within read
  rw [decodeOpaque, inOrder.skipTree_eq alike, run.last_eq, Outcome.follow_done]
  simp only [document, readAgain]

end ChatCodec
