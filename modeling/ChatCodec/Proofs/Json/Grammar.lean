import ChatCodec.Json.Reader
import ChatCodec.Proofs.Json.Pieces
import ChatCodec.Proofs.Successes

/-!
# The strict grammar

A grouped document keeps to the grammar (`Json.InOrder`) if every object consists of
members and every array of items, with commas between them and nowhere else.  The readers
each hold a document to the grammar on their way.  What a reader requires of the piece in
front of it is said once for every stage of its walk (`Json.readMembers_key` and so on), and
so whatever is passed over or read is in order (`Json.inOrder_of_passValue`,
`Json.inOrder_of_readValue`).

A value in order is nested, and has no two scalars next to each other
(`Json.InOrder.isNested`, `Json.InOrder.isChain`).
-/

namespace ChatCodec

set_option autoImplicit false

namespace Json

/-! ## Pieces in front of a reader -/

namespace Piece

theorem isMark_iff {piece : Piece} {token : Token} :
    piece.isMark token = true ↔ piece = .mark token := by
  rw [isMark, beq_iff_eq]

theorem key?_eq_some_iff {piece : Piece} {bytes : Bytes} :
    piece.key? = some bytes ↔ piece = .scalar (Ascii.quote :: bytes) := by
  constructor
  · intro found
    unfold key? at found
    split at found
    · by_cases quote : ‹UInt8› = Ascii.quote
      · rw [if_pos quote] at found
        cases found
        rw [quote]
      · rw [if_neg quote] at found
        cases found
    · cases found
  · rintro rfl
    rw [key?, if_pos rfl]

theorem role_mark_eq_opens {piece : Piece} (opens : piece.role = .opens) :
    piece = .mark .objectStart ∨ piece = .mark .arrayStart := by
  cases piece with
  | mark token =>
      cases token with
      | objectStart => exact .inl rfl
      | arrayStart => exact .inr rfl
      | _ => cases opens
  | scalar source => cases opens
  | eof => cases opens
  | broken fault => cases opens

end Piece

/-- A value that does not begin with an opening piece is one piece. -/
theorem eq_leaf_of_isOpened {tree : Tree Piece} {piece : Piece} (opened : tree.IsOpened Piece.role)
    (begins : tree.head = piece) (stands : piece.role = .stands) : tree = .leaf piece := by
  cases tree with
  | leaf item => exact congrArg Tree.leaf begins
  | group opening body =>
      rw [Tree.IsOpened] at opened
      rw [← begins, Tree.head, opened.1] at stands
      cases stands

/-! ## Steps of passing over a value -/

section

variable {tree : Tree Piece} {rest : Body Piece} {stage : Stage}

theorem passMembers_close {ending : Piece} :
    passMembers stage (.close ending) = .ok () ↔
      ending = .mark .objectEnd ∧ (stage = .opened ∨ stage = .filled) := by
  rw [passMembers, ite_error_eq_ok_iff, Piece.isMark_iff, and_iff_left rfl]

theorem passMembers_key (begins : stage = .opened ∨ stage = .separated) :
    passMembers stage (.more tree rest) = .ok () ↔
      ∃ bytes, tree.head = .scalar (Ascii.quote :: bytes) ∧ passValue tree = .ok () ∧
        passMembers .named rest = .ok () := by
  rw [passMembers_awaited begins]
  simp only [← Piece.key?_eq_some_iff]
  cases tree.head.key? with
  | none => simp only [reduceCtorEq, false_and, exists_false]
  | some bytes => simp only [andThen_eq_ok_iff, Option.some.injEq, exists_eq_left']

theorem passMembers_colon :
    passMembers .named (.more tree rest) = .ok () ↔
      tree.head = .mark .colon ∧ passMembers .announced rest = .ok () := by
  rw [passMembers, ite_error_eq_ok_iff, Piece.isMark_iff]

theorem passMembers_value :
    passMembers .announced (.more tree rest) = .ok () ↔
      passValue tree = .ok () ∧ passMembers .filled rest = .ok () := by
  rw [passMembers, andThen_eq_ok_iff]

theorem passMembers_comma :
    passMembers .filled (.more tree rest) = .ok () ↔
      tree.head = .mark .comma ∧ passMembers .separated rest = .ok () := by
  rw [passMembers, ite_error_eq_ok_iff, Piece.isMark_iff]

theorem passItems_close {ending : Piece} :
    passItems stage (.close ending) = .ok () ↔
      ending = .mark .arrayEnd ∧ (stage = .opened ∨ stage = .filled) := by
  rw [passItems, ite_error_eq_ok_iff, Piece.isMark_iff, and_iff_left rfl]

theorem passItems_item (begins : stage ≠ .filled) :
    passItems stage (.more tree rest) = .ok () ↔
      passValue tree = .ok () ∧ passItems .filled rest = .ok () := by
  rw [passItems_awaited begins, andThen_eq_ok_iff]

theorem passItems_comma :
    passItems .filled (.more tree rest) = .ok () ↔
      tree.head = .mark .comma ∧ passItems .separated rest = .ok () := by
  rw [passItems, ite_error_eq_ok_iff, Piece.isMark_iff]

/-! ## Steps of reading a value -/

variable {allowed : Nat} {key : String} {before members : Members} {items : Items}

theorem readMembers_close {ending : Piece} :
    readMembers allowed stage key before (.close ending) = .ok members ↔
      (ending = .mark .objectEnd ∧ (stage = .opened ∨ stage = .filled)) ∧ before = members := by
  rw [readMembers, ite_error_eq_ok_iff, Piece.isMark_iff, Except.ok.injEq]

theorem readMembers_key (begins : stage = .opened ∨ stage = .separated) :
    readMembers allowed stage key before (.more tree rest) = .ok members ↔
      ∃ bytes, tree.head = .scalar (Ascii.quote :: bytes) ∧
        ∃ key, readText bytes = .ok key ∧
          readMembers allowed .named key before rest = .ok members := by
  rw [readMembers_awaited begins]
  simp only [← Piece.key?_eq_some_iff]
  cases tree.head.key? with
  | none => simp only [reduceCtorEq, false_and, exists_false]
  | some bytes => simp only [bind_eq_ok_iff, Option.some.injEq, exists_eq_left']

theorem readMembers_colon :
    readMembers allowed .named key before (.more tree rest) = .ok members ↔
      tree.head = .mark .colon ∧
        readMembers allowed .announced key before rest = .ok members := by
  rw [readMembers, ite_error_eq_ok_iff, Piece.isMark_iff]

theorem readMembers_value :
    readMembers allowed .announced key before (.more tree rest) = .ok members ↔
      ∃ value, readValue allowed tree = .ok value ∧
        readMembers allowed .filled key (before.insert key value) rest = .ok members := by
  rw [readMembers, bind_eq_ok_iff]

theorem readMembers_comma :
    readMembers allowed .filled key before (.more tree rest) = .ok members ↔
      tree.head = .mark .comma ∧
        readMembers allowed .separated key before rest = .ok members := by
  rw [readMembers, ite_error_eq_ok_iff, Piece.isMark_iff]

theorem readItems_close {ending : Piece} :
    readItems allowed stage (.close ending) = .ok items ↔
      (ending = .mark .arrayEnd ∧ (stage = .opened ∨ stage = .filled)) ∧ .nil = items := by
  rw [readItems, ite_error_eq_ok_iff, Piece.isMark_iff, Except.ok.injEq]

theorem readItems_item (begins : stage ≠ .filled) :
    readItems allowed stage (.more tree rest) = .ok items ↔
      ∃ head, readValue allowed tree = .ok head ∧
        ∃ tail, readItems allowed .filled rest = .ok tail ∧ .cons head tail = items := by
  simp only [readItems_awaited begins, bind_eq_ok_iff, pure, Except.pure, Except.ok.injEq]

theorem readItems_comma :
    readItems allowed .filled (.more tree rest) = .ok items ↔
      tree.head = .mark .comma ∧ readItems allowed .separated rest = .ok items := by
  rw [readItems, ite_error_eq_ok_iff, Piece.isMark_iff]

theorem readValue_object {body : Body Piece} {value : Value} :
    readValue allowed (.group (.mark .objectStart) body) = .ok value ↔
      ∃ inside, allowed = inside + 1 ∧
        ∃ members, readMembers inside .opened "" .nil body = .ok members ∧
          .object members = value := by
  cases allowed with
  | zero => simp only [readValue, reduceCtorEq, false_and, exists_false, Nat.zero_ne_add_one]
  | succ inside =>
      rw [readValue, if_pos (Piece.isMark_iff.mpr rfl), map_eq_ok_iff]
      simp only [Nat.add_right_cancel_iff, exists_eq_left']

theorem readValue_array {opening : Piece} {body : Body Piece} {value : Value}
    (array : opening ≠ .mark .objectStart) :
    readValue allowed (.group opening body) = .ok value ↔
      ∃ inside, allowed = inside + 1 ∧
        ∃ items, readItems inside .opened body = .ok items ∧ .array items = value := by
  cases allowed with
  | zero => simp only [readValue, reduceCtorEq, false_and, exists_false, Nat.zero_ne_add_one]
  | succ inside =>
      rw [readValue, if_neg (mt Piece.isMark_iff.mp array), map_eq_ok_iff]
      simp only [Nat.add_right_cancel_iff, exists_eq_left']

end

/-! ## The grammar -/

mutual

/-- A value that keeps to the grammar. -/
inductive InOrder : Tree Piece → Prop where
  | scalar (source : Bytes) : InOrder (.leaf (.scalar source))
  | object {body : Body Piece} (members : HasMembers .opened body) :
      InOrder (.group (.mark .objectStart) body)
  | array {body : Body Piece} (items : HasItems .opened body) :
      InOrder (.group (.mark .arrayStart) body)

/-- The rest of an object that keeps to the grammar, from a stage on. -/
inductive HasMembers : Stage → Body Piece → Prop where
  | close {stage : Stage} (ends : stage = .opened ∨ stage = .filled) :
      HasMembers stage (.close (.mark .objectEnd))
  | key {stage : Stage} {bytes : Bytes} {rest : Body Piece}
      (begins : stage = .opened ∨ stage = .separated) (following : HasMembers .named rest) :
      HasMembers stage (.more (.leaf (.scalar (Ascii.quote :: bytes))) rest)
  | colon {rest : Body Piece} (following : HasMembers .announced rest) :
      HasMembers .named (.more (.leaf (.mark .colon)) rest)
  | value {tree : Tree Piece} {rest : Body Piece} (inOrder : InOrder tree)
      (following : HasMembers .filled rest) : HasMembers .announced (.more tree rest)
  | comma {rest : Body Piece} (following : HasMembers .separated rest) :
      HasMembers .filled (.more (.leaf (.mark .comma)) rest)

/-- The rest of an array that keeps to the grammar, from a stage on. -/
inductive HasItems : Stage → Body Piece → Prop where
  | close {stage : Stage} (ends : stage = .opened ∨ stage = .filled) :
      HasItems stage (.close (.mark .arrayEnd))
  | item {stage : Stage} {tree : Tree Piece} {rest : Body Piece} (begins : stage ≠ .filled)
      (inOrder : InOrder tree) (following : HasItems .filled rest) :
      HasItems stage (.more tree rest)
  | comma {rest : Body Piece} (following : HasItems .separated rest) :
      HasItems .filled (.more (.leaf (.mark .comma)) rest)

end

mutual

/-- **What is passed over is in order**, if its groups are opened. -/
theorem inOrder_of_passValue : ∀ {tree : Tree Piece}, tree.IsOpened Piece.role →
    passValue tree = .ok () → InOrder tree
  | .leaf (.scalar source), _, _ => .scalar source
  | .leaf (.mark token), _, passed => by cases passed
  | .leaf .eof, _, passed => by cases passed
  | .leaf (.broken fault), _, passed => by cases passed
  | .group opening body, opened, passed => by
      rw [Tree.IsOpened] at opened
      rcases Piece.role_mark_eq_opens opened.1 with rfl | rfl
      · exact .object (hasMembers_of_passMembers opened.2 passed)
      · exact .array (hasItems_of_passItems opened.2 passed)

theorem hasMembers_of_passMembers : ∀ {body : Body Piece}, body.IsOpened Piece.role →
    ∀ {stage : Stage}, passMembers stage body = .ok () → HasMembers stage body
  | .close ending, _, stage, passed => by
      obtain ⟨rfl, ends⟩ := passMembers_close.mp passed
      exact .close ends
  | .more tree rest, opened, stage, passed => by
      rw [Body.IsOpened] at opened
      have key (begins : stage = .opened ∨ stage = .separated) : HasMembers stage (.more tree rest) := by
        obtain ⟨bytes, head, -, following⟩ := (passMembers_key begins).mp passed
        rw [eq_leaf_of_isOpened opened.1 head rfl]
        exact .key begins (hasMembers_of_passMembers opened.2 following)
      cases stage with
      | opened => exact key (.inl rfl)
      | separated => exact key (.inr rfl)
      | named =>
          obtain ⟨head, following⟩ := passMembers_colon.mp passed
          rw [eq_leaf_of_isOpened opened.1 head rfl]
          exact .colon (hasMembers_of_passMembers opened.2 following)
      | announced =>
          obtain ⟨value, following⟩ := passMembers_value.mp passed
          exact .value (inOrder_of_passValue opened.1 value)
            (hasMembers_of_passMembers opened.2 following)
      | filled =>
          obtain ⟨head, following⟩ := passMembers_comma.mp passed
          rw [eq_leaf_of_isOpened opened.1 head rfl]
          exact .comma (hasMembers_of_passMembers opened.2 following)

theorem hasItems_of_passItems : ∀ {body : Body Piece}, body.IsOpened Piece.role →
    ∀ {stage : Stage}, passItems stage body = .ok () → HasItems stage body
  | .close ending, _, stage, passed => by
      obtain ⟨rfl, ends⟩ := passItems_close.mp passed
      exact .close ends
  | .more tree rest, opened, stage, passed => by
      rw [Body.IsOpened] at opened
      by_cases filled : stage = .filled
      · subst filled
        obtain ⟨head, following⟩ := passItems_comma.mp passed
        rw [eq_leaf_of_isOpened opened.1 head rfl]
        exact .comma (hasItems_of_passItems opened.2 following)
      · obtain ⟨value, following⟩ := (passItems_item filled).mp passed
        exact .item filled (inOrder_of_passValue opened.1 value)
          (hasItems_of_passItems opened.2 following)

end

mutual

/-- **What is read is in order**, if its groups are opened. -/
theorem inOrder_of_readValue : ∀ {tree : Tree Piece}, tree.IsOpened Piece.role →
    ∀ {allowed : Nat} {value : Value}, readValue allowed tree = .ok value → InOrder tree
  | .leaf (.scalar source), _, _, _, _ => .scalar source
  | .leaf (.mark token), _, _, _, read => by cases read
  | .leaf .eof, _, _, _, read => by cases read
  | .leaf (.broken fault), _, _, _, read => by cases read
  | .group opening body, opened, allowed, value, read => by
      rw [Tree.IsOpened] at opened
      rcases Piece.role_mark_eq_opens opened.1 with rfl | rfl
      · obtain ⟨inside, -, members, inner, -⟩ := readValue_object.mp read
        exact .object (hasMembers_of_readMembers opened.2 inner)
      · obtain ⟨inside, -, items, inner, -⟩ := (readValue_array (by decide)).mp read
        exact .array (hasItems_of_readItems opened.2 inner)

theorem hasMembers_of_readMembers : ∀ {body : Body Piece}, body.IsOpened Piece.role →
    ∀ {allowed : Nat} {stage : Stage} {key : String} {before members : Members},
      readMembers allowed stage key before body = .ok members → HasMembers stage body
  | .close ending, _, _, stage, _, _, _, read => by
      obtain ⟨⟨rfl, ends⟩, -⟩ := readMembers_close.mp read
      exact .close ends
  | .more tree rest, opened, _, stage, _, _, _, read => by
      rw [Body.IsOpened] at opened
      have key (begins : stage = .opened ∨ stage = .separated) : HasMembers stage (.more tree rest) := by
        obtain ⟨bytes, head, key, -, following⟩ := (readMembers_key begins).mp read
        rw [eq_leaf_of_isOpened opened.1 head rfl]
        exact .key begins (hasMembers_of_readMembers opened.2 following)
      cases stage with
      | opened => exact key (.inl rfl)
      | separated => exact key (.inr rfl)
      | named =>
          obtain ⟨head, following⟩ := readMembers_colon.mp read
          rw [eq_leaf_of_isOpened opened.1 head rfl]
          exact .colon (hasMembers_of_readMembers opened.2 following)
      | announced =>
          obtain ⟨value, valueRead, following⟩ := readMembers_value.mp read
          exact .value (inOrder_of_readValue opened.1 valueRead)
            (hasMembers_of_readMembers opened.2 following)
      | filled =>
          obtain ⟨head, following⟩ := readMembers_comma.mp read
          rw [eq_leaf_of_isOpened opened.1 head rfl]
          exact .comma (hasMembers_of_readMembers opened.2 following)

theorem hasItems_of_readItems : ∀ {body : Body Piece}, body.IsOpened Piece.role →
    ∀ {allowed : Nat} {stage : Stage} {items : Items},
      readItems allowed stage body = .ok items → HasItems stage body
  | .close ending, _, _, stage, _, read => by
      obtain ⟨⟨rfl, ends⟩, -⟩ := readItems_close.mp read
      exact .close ends
  | .more tree rest, opened, _, stage, _, read => by
      rw [Body.IsOpened] at opened
      by_cases filled : stage = .filled
      · subst filled
        obtain ⟨head, following⟩ := readItems_comma.mp read
        rw [eq_leaf_of_isOpened opened.1 head rfl]
        exact .comma (hasItems_of_readItems opened.2 following)
      · obtain ⟨value, valueRead, tail, following, -⟩ := (readItems_item filled).mp read
        exact .item filled (inOrder_of_readValue opened.1 valueRead)
          (hasItems_of_readItems opened.2 following)

end

/-! ## What is in order -/

mutual

/-- **A value in order is nested.** -/
theorem InOrder.isNested : ∀ {tree : Tree Piece}, InOrder tree → tree.IsNested Piece.role
  | _, .scalar source => by
      rw [Tree.IsNested]
      rfl
  | _, .object members => by
      rw [Tree.IsNested]
      exact ⟨rfl, members.isNested⟩
  | _, .array items => by
      rw [Tree.IsNested]
      exact ⟨rfl, items.isNested⟩

theorem HasMembers.isNested : ∀ {stage : Stage} {body : Body Piece}, HasMembers stage body →
    body.IsNested Piece.role
  | _, _, .close _ => by
      rw [Body.IsNested]
      rfl
  | _, _, .key _ following => by
      rw [Body.IsNested, Tree.IsNested]
      exact ⟨rfl, following.isNested⟩
  | _, _, .colon following => by
      rw [Body.IsNested, Tree.IsNested]
      exact ⟨rfl, following.isNested⟩
  | _, _, .value inOrder following => by
      rw [Body.IsNested]
      exact ⟨inOrder.isNested, following.isNested⟩
  | _, _, .comma following => by
      rw [Body.IsNested, Tree.IsNested]
      exact ⟨rfl, following.isNested⟩

theorem HasItems.isNested : ∀ {stage : Stage} {body : Body Piece}, HasItems stage body →
    body.IsNested Piece.role
  | _, _, .close _ => by
      rw [Body.IsNested]
      rfl
  | _, _, .item _ inOrder following => by
      rw [Body.IsNested]
      exact ⟨inOrder.isNested, following.isNested⟩
  | _, _, .comma following => by
      rw [Body.IsNested, Tree.IsNested]
      exact ⟨rfl, following.isNested⟩

end

/-- Stretches of which the second does not begin with a scalar stay apart. -/
theorem Piece.isChain_append {first second : List Piece} (apart : first.IsChain Apart)
    (apartBehind : second.IsChain Apart)
    (begins : ∀ piece ∈ second.head?, piece.isScalar = false) :
    (first ++ second).IsChain Apart :=
  List.isChain_append.mpr
    ⟨apart, apartBehind, fun _ _ piece isIn _ => begins piece isIn⟩

theorem Piece.isScalar_of_head?_mark {token : Token} {items : List Piece} :
    ∀ piece ∈ (Piece.mark token :: items).head?, piece.isScalar = false := by
  intro piece isIn
  cases isIn
  rfl

/-- A mark stays apart from whatever follows it. -/
theorem Piece.isChain_cons_mark {token : Token} {items : List Piece} (apart : items.IsChain Apart) :
    (Piece.mark token :: items).IsChain Apart := by
  refine List.isChain_cons.mpr ⟨fun _ _ isScalar => ?_, apart⟩
  cases isScalar

mutual

/-- **No two scalars of a value in order are next to each other.** -/
theorem InOrder.isChain : ∀ {tree : Tree Piece}, InOrder tree → tree.items.IsChain Piece.Apart
  | _, .scalar source => .singleton _
  | _, .object members => Piece.isChain_cons_mark members.isChain.1
  | _, .array items => Piece.isChain_cons_mark items.isChain.1

/-- Behind a key and behind a value no scalar comes next. -/
theorem HasMembers.isChain : ∀ {stage : Stage} {body : Body Piece}, HasMembers stage body →
    body.items.IsChain Piece.Apart ∧
      (stage = .named ∨ stage = .filled → ∀ piece ∈ body.items.head?, piece.isScalar = false)
  | _, _, .close _ => ⟨.singleton _, fun _ => Piece.isScalar_of_head?_mark⟩
  | stage, _, .key begins following => by
      refine ⟨Piece.isChain_append (.singleton _) following.isChain.1
        (following.isChain.2 (.inl rfl)), fun behind => ?_⟩
      rcases begins with rfl | rfl
      · rcases behind with same | same <;> cases same
      · rcases behind with same | same <;> cases same
  | _, _, .colon following =>
      ⟨Piece.isChain_cons_mark following.isChain.1, fun _ => Piece.isScalar_of_head?_mark⟩
  | _, _, .value inOrder following => by
      refine ⟨Piece.isChain_append inOrder.isChain following.isChain.1
        (following.isChain.2 (.inr rfl)), fun behind => ?_⟩
      rcases behind with same | same <;> cases same
  | _, _, .comma following =>
      ⟨Piece.isChain_cons_mark following.isChain.1, fun _ => Piece.isScalar_of_head?_mark⟩

/-- Behind an item no scalar comes next. -/
theorem HasItems.isChain : ∀ {stage : Stage} {body : Body Piece}, HasItems stage body →
    body.items.IsChain Piece.Apart ∧
      (stage = .filled → ∀ piece ∈ body.items.head?, piece.isScalar = false)
  | _, _, .close _ => ⟨.singleton _, fun _ => Piece.isScalar_of_head?_mark⟩
  | _, _, .item begins inOrder following =>
      ⟨Piece.isChain_append inOrder.isChain following.isChain.1 (following.isChain.2 rfl),
        fun behind => absurd behind begins⟩
  | _, _, .comma following =>
      ⟨Piece.isChain_cons_mark following.isChain.1, fun _ => Piece.isScalar_of_head?_mark⟩

end

/-! ## Whole documents -/

/-- A document is read if it holds one value, and this is read. -/
theorem readDocument_eq_ok_iff {Result : Type} {read : Tree Piece → Except Fault Result}
    {document : Bytes} {result : Result} :
    readDocument read document = .ok result ↔
      ∃ tree, Piece.body document = .more tree (.close .eof) ∧ read tree = .ok result := by
  rw [readDocument]
  cases Piece.body document with
  | close ending => simp only [reduceCtorEq, false_and, exists_false]
  | more tree rest =>
      simp only [bind_eq_ok_iff, Body.more.injEq]
      constructor
      · rintro ⟨value, isRead, behind⟩
        split at behind
        · cases behind
          exact ⟨tree, ⟨rfl, rfl⟩, isRead⟩
        · cases behind
        · cases behind
      · rintro ⟨_, ⟨rfl, rfl⟩, isRead⟩
        exact ⟨result, isRead, rfl⟩

theorem Piece.isOpened_body {document : Bytes} {tree : Tree Piece} {rest : Body Piece}
    (grouped : body document = .more tree rest) : tree.IsOpened role := by
  have opened := (Body.isOpened_levels role (cut (document.length + 1) document).2
    (cut (document.length + 1) document).1).1
  rw [← Body.ofList, ← body, grouped, Body.IsOpened] at opened
  exact opened.1

/-- The last piece of a document ends no level. -/
theorem Piece.role_cut_ne_closes : ∀ (count : Nat) (bytes : Bytes),
    (cut count bytes).2.role ≠ .closes
  | 0, _ => by
      rw [cut]
      decide
  | count + 1, bytes => by
      rw [cut]
      split
      · decide
      · split
        · exact role_cut_ne_closes count _
        · split
          · exact role_cut_ne_closes count _
          · intro closes
            cases closes

/-- **A lexer reads the tokens of a document in order**, from its beginning to its end. -/
theorem exists_run_of_body {document : Bytes} {tree : Tree Piece} {lexer : Lexer}
    (going : lexer.fault = none) (ahead : lexer.ahead = document)
    (grouped : Piece.body document = .more tree (.close .eof)) (inOrder : InOrder tree) :
    ∃ (tokens : Tree Lexeme) (last : Lexer), tree.Related Piece.Matches tokens ∧
      tokens.IsNested (fun lexeme => lexeme.token.role) ∧
      Lexer.Run lexer tokens.items last ∧ last.scan.token = .eof := by
  have open_ := Piece.role_cut_ne_closes (document.length + 1) document
  rw [Piece.body] at grouped
  cases cutUp : Piece.cut (document.length + 1) document with
  | mk pieces final =>
      rw [cutUp] at grouped open_
      obtain ⟨others, rfl, behind⟩ := Tree.eq_items_of_levels open_ inOrder.isNested
        (Prod.ext grouped rfl : Body.levels Piece.role final pieces = (_, (Body.levels _ _ _).2))
      obtain ⟨rfl, rfl⟩ := Body.eq_nil_of_levels_close behind (by decide)
      rw [List.append_nil] at cutUp
      obtain ⟨items, last, run, ended, matching⟩ :=
        Piece.exists_run_of_cut cutUp (Nat.lt_succ_self _) inOrder.isChain going ahead
      obtain ⟨tokens, rfl, alike⟩ := Tree.exists_related
        (List.Forall₂.flip (R := fun lexeme piece => Piece.Matches piece lexeme) matching)
      have alike' : tree.Related Piece.Matches tokens := alike.flip
      exact ⟨tokens, last, alike',
        alike'.isNested (fun _ _ same => same.role_eq) inOrder.isNested, run, ended⟩

end Json

end ChatCodec
