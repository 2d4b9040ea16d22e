import ChatCodec.Proofs.Streaming.Texts

/-!
# The grammar of what is skipped

A value is a scalar, an object or an array, where a comma may also stand behind the last member or
item (`FormValue`).  The skipper accepts exactly these: it stops without an error behind the tokens
that form a value with the one it was given, and in every other case it reports an error
(`Lexer.skipValue_accepts`).

The skipper goes through an object or an array place by place, and the grammar tells of whole
members and items.  Between the two stands what may follow at a place (`ObjectRest`, `ArrayRest`).
It has one rule for each step of the skipper, and behind an opening bracket it is what the grammar
wants there (`ObjectRest.of_key`, `ArrayRest.of_item`).  In the other direction, tokens that form a
value are grouped to a value that is skipped (`FormValue.exists_tree`), by induction over the
grammar: members are put in front of what may follow them.

What is captured of a skipped value is a text of its own.  A fresh lexer over it reads the same
first token and skips it to the end (`Lexer.captureValue_again`).
-/

namespace ChatCodec

set_option autoImplicit false

/-! ## The grammar -/

mutual

/-- Tokens that form a value. -/
inductive FormValue : List Token → Prop where
  | scalar {token : Token} (isScalar : token.isScalar = true) : FormValue [token]
  | emptyObject : FormValue [.objectStart, .objectEnd]
  | object {members trailing : List Token} (areMembers : FormMembers members)
      (mayTrail : trailing = [] ∨ trailing = [.comma]) :
      FormValue (.objectStart :: (members ++ trailing ++ [.objectEnd]))
  | emptyArray : FormValue [.arrayStart, .arrayEnd]
  | array {items trailing : List Token} (areItems : FormItems items)
      (mayTrail : trailing = [] ∨ trailing = [.comma]) :
      FormValue (.arrayStart :: (items ++ trailing ++ [.arrayEnd]))

/-- Tokens that form one member or more, separated by commas. -/
inductive FormMembers : List Token → Prop where
  | one {value : List Token} (isValue : FormValue value) : FormMembers (.string :: .colon :: value)
  | more {value members : List Token} (isValue : FormValue value)
      (areMembers : FormMembers members) :
      FormMembers (.string :: .colon :: (value ++ .comma :: members))

/-- Tokens that form one item or more, separated by commas. -/
inductive FormItems : List Token → Prop where
  | one {value : List Token} (isValue : FormValue value) : FormItems value
  | more {value items : List Token} (isValue : FormValue value) (areItems : FormItems items) :
      FormItems (value ++ .comma :: items)

end

/-! ## What may follow at a place -/

/-- Tokens that may follow at a place in an object, up to its closing brace. -/
inductive ObjectRest : MemberPlace → List Token → Prop where
  | close {place : MemberPlace} (mayEnd : place.mayEnd = true) : ObjectRest place [.objectEnd]
  | key {rest : List Token} (following : ObjectRest .colon rest) :
      ObjectRest .key (.string :: rest)
  | colon {rest : List Token} (following : ObjectRest .value rest) :
      ObjectRest .colon (.colon :: rest)
  | value {value rest : List Token} (isValue : FormValue value)
      (following : ObjectRest .separator rest) : ObjectRest .value (value ++ rest)
  | comma {rest : List Token} (following : ObjectRest .key rest) :
      ObjectRest .separator (.comma :: rest)

/-- Tokens that may follow at a place in an array, up to its closing bracket. -/
inductive ArrayRest : ItemPlace → List Token → Prop where
  | close (place : ItemPlace) : ArrayRest place [.arrayEnd]
  | item {value rest : List Token} (isValue : FormValue value)
      (following : ArrayRest .separator rest) : ArrayRest .item (value ++ rest)
  | comma {rest : List Token} (following : ArrayRest .item rest) :
      ArrayRest .separator (.comma :: rest)

mutual

/-- Behind an opening brace there are no members, or some and perhaps one more comma. -/
theorem ObjectRest.of_key : ∀ {tokens : List Token}, ObjectRest .key tokens →
    tokens = [.objectEnd] ∨ ∃ members trailing, FormMembers members ∧
      (trailing = [] ∨ trailing = [.comma]) ∧ tokens = members ++ trailing ++ [.objectEnd]
  | _, .close _ => .inl rfl
  | _, .key (.colon (.value isValue following)) => .inr (following.of_separator isValue)
termination_by tokens => tokens.length
decreasing_by
  simp only [List.length_cons, List.length_append]
  omega

/-- Behind a member the object ends, perhaps behind one more comma, or more members follow. -/
theorem ObjectRest.of_separator : ∀ {rest value : List Token}, ObjectRest .separator rest →
    FormValue value → ∃ members trailing, FormMembers members ∧
      (trailing = [] ∨ trailing = [.comma]) ∧
        .string :: .colon :: (value ++ rest) = members ++ trailing ++ [.objectEnd]
  | _, _, .close _, isValue => ⟨_, [], .one isValue, .inl rfl, by
      rw [List.append_nil, List.cons_append, List.cons_append]⟩
  | _, _, .comma following, isValue => by
      rcases following.of_key with rfl | ⟨members, trailing, areMembers, mayTrail, rfl⟩
      · refine ⟨_, [.comma], .one isValue, .inr rfl, ?_⟩
        simp only [List.cons_append, List.append_assoc, List.nil_append]
      · refine ⟨_, trailing, .more isValue areMembers, mayTrail, ?_⟩
        simp only [List.cons_append, List.append_assoc]
termination_by rest => rest.length

end

mutual

/-- Behind an opening bracket there are no items, or some and perhaps one more comma. -/
theorem ArrayRest.of_item : ∀ {tokens : List Token}, ArrayRest .item tokens →
    tokens = [.arrayEnd] ∨ ∃ items trailing, FormItems items ∧
      (trailing = [] ∨ trailing = [.comma]) ∧ tokens = items ++ trailing ++ [.arrayEnd]
  | _, .close _ => .inl rfl
  | _, .item isValue following => .inr (following.of_separator isValue)
termination_by tokens => (tokens.length, 1)
decreasing_by
  simp only [List.length_append, Prod.lex_def]
  omega

/-- Behind an item the array ends, perhaps behind one more comma, or more items follow. -/
theorem ArrayRest.of_separator : ∀ {rest value : List Token}, ArrayRest .separator rest →
    FormValue value → ∃ items trailing, FormItems items ∧
      (trailing = [] ∨ trailing = [.comma]) ∧ value ++ rest = items ++ trailing ++ [.arrayEnd]
  | _, _, .close _, isValue => ⟨_, [], .one isValue, .inl rfl, by rw [List.append_nil]⟩
  | _, _, .comma following, isValue => by
      rcases following.of_item with rfl | ⟨items, trailing, areItems, mayTrail, rfl⟩
      · refine ⟨_, [.comma], .one isValue, .inr rfl, ?_⟩
        simp only [List.append_assoc, List.cons_append, List.nil_append]
      · refine ⟨_, trailing, .more isValue areItems, mayTrail, ?_⟩
        simp only [List.cons_append, List.append_assoc]
termination_by rest => (rest.length, 0)

end

/-! ## The skipper keeps to the grammar -/

/-- The tokens of lexemes. -/
def tokensOf (lexemes : List Lexeme) : List Token := lexemes.map (·.token)

@[simp] theorem tokensOf_cons (lexeme : Lexeme) (lexemes : List Lexeme) :
    tokensOf (lexeme :: lexemes) = lexeme.token :: tokensOf lexemes := rfl

@[simp] theorem tokensOf_append (first second : List Lexeme) :
    tokensOf (first ++ second) = tokensOf first ++ tokensOf second := List.map_append

/-- A value whose first token plays no part in the nesting is that token. -/
theorem tokensOf_items_of_stands {tree : Tree Lexeme}
    (opened : tree.IsOpened fun lexeme => lexeme.token.role)
    (stands : tree.head.token.role = .stands) : tokensOf tree.items = [tree.head.token] := by
  have nested := opened.isNested_of_stands stands
  cases tree with
  | leaf lexeme => rfl
  | group opening body =>
      rw [Tree.IsNested] at nested
      rw [Tree.head, nested.1] at stands
      cases stands

mutual

/-- **What is skipped forms a value.** -/
theorem formValue_of_skipTree : ∀ {tree : Tree Lexeme},
    tree.IsOpened (fun lexeme => lexeme.token.role) → (skipTree tree).error = none →
      FormValue (tokensOf tree.items)
  | .leaf lexeme, _, succeeded => by
      rw [skipTree] at succeeded
      exact .scalar (Outcome.of_ite_refuse succeeded).1
  | .group opening body, opened, succeeded => by
      rw [Tree.IsOpened] at opened
      rw [skipTree] at succeeded
      rw [Tree.items, tokensOf_cons]
      by_cases isObject : opening.token = .objectStart
      · rw [if_pos isObject] at succeeded
        rw [isObject]
        rcases (objectRest_of_skipMembers opened.2 succeeded).of_key with
          none_ | ⟨members, trailing, areMembers, mayTrail, same⟩
        · rw [none_]
          exact .emptyObject
        · rw [same]
          exact .object areMembers mayTrail
      · rw [if_neg isObject] at succeeded
        have isArray : opening.token = .arrayStart := by
          have opens := Token.isOpening_of_role opened.1
          revert opens isObject
          cases opening.token <;> decide
        rw [isArray]
        rcases (arrayRest_of_skipItems opened.2 succeeded).of_item with
          none_ | ⟨items, trailing, areItems, mayTrail, same⟩
        · rw [none_]
          exact .emptyArray
        · rw [same]
          exact .array areItems mayTrail

theorem objectRest_of_skipMembers : ∀ {body : Body Lexeme} {place : MemberPlace},
    body.IsOpened (fun lexeme => lexeme.token.role) → (skipMembers place body).error = none →
      ObjectRest place (tokensOf body.items)
  | .close ending, place, _, succeeded => by
      rw [skipMembers] at succeeded
      obtain ⟨ends, -, -⟩ := Outcome.of_ite_refuse succeeded
      rw [Body.items, tokensOf_cons, ends.1]
      exact .close ends.2
  | .more tree rest, place, opened, succeeded => by
      rw [Body.IsOpened] at opened
      obtain ⟨openedTree, openedRest⟩ := opened
      rw [Body.items, tokensOf_append]
      cases place with
      | key =>
          simp only [skipMembers] at succeeded
          obtain ⟨isKey, following, -⟩ := Outcome.of_ite_refuse succeeded
          rw [tokensOf_items_of_stands openedTree (by rw [isKey]; rfl), isKey]
          exact .key (objectRest_of_skipMembers openedRest following)
      | colon =>
          simp only [skipMembers] at succeeded
          obtain ⟨isColon, following, -⟩ := Outcome.of_ite_refuse succeeded
          rw [tokensOf_items_of_stands openedTree (by rw [isColon]; rfl), isColon]
          exact .colon (objectRest_of_skipMembers openedRest following)
      | value =>
          simp only [skipMembers] at succeeded
          obtain ⟨-, following, -⟩ := Outcome.of_ite_refuse succeeded
          have first := Outcome.error_eq_none_of_follow following
          rw [(Outcome.follow_of_error_eq_none first _ _).1] at following
          exact .value (formValue_of_skipTree openedTree first)
            (objectRest_of_skipMembers openedRest following)
      | separator =>
          simp only [skipMembers] at succeeded
          obtain ⟨isComma, following, -⟩ := Outcome.of_ite_refuse succeeded
          rw [tokensOf_items_of_stands openedTree (by rw [isComma]; rfl), isComma]
          exact .comma (objectRest_of_skipMembers openedRest following)

theorem arrayRest_of_skipItems : ∀ {body : Body Lexeme} {place : ItemPlace},
    body.IsOpened (fun lexeme => lexeme.token.role) → (skipItems place body).error = none →
      ArrayRest place (tokensOf body.items)
  | .close ending, place, _, succeeded => by
      rw [skipItems] at succeeded
      obtain ⟨ends, -, -⟩ := Outcome.of_ite_refuse succeeded
      rw [Body.items, tokensOf_cons, ends]
      exact .close place
  | .more tree rest, place, opened, succeeded => by
      rw [Body.IsOpened] at opened
      obtain ⟨openedTree, openedRest⟩ := opened
      rw [Body.items, tokensOf_append]
      cases place with
      | item =>
          simp only [skipItems] at succeeded
          obtain ⟨-, following, -⟩ := Outcome.of_ite_refuse succeeded
          have first := Outcome.error_eq_none_of_follow following
          rw [(Outcome.follow_of_error_eq_none first _ _).1] at following
          exact .item (formValue_of_skipTree openedTree first)
            (arrayRest_of_skipItems openedRest following)
      | separator =>
          simp only [skipItems] at succeeded
          obtain ⟨isComma, following, -⟩ := Outcome.of_ite_refuse succeeded
          rw [tokensOf_items_of_stands openedTree (by rw [isComma]; rfl), isComma]
          exact .comma (arrayRest_of_skipItems openedRest following)

end

/-! ## What the grammar admits is skipped -/

/-- A nested value that is skipped to its last token. -/
structure Tree.Skips (tree : Tree Lexeme) : Prop where
  nested : tree.IsNested fun lexeme => lexeme.token.role
  skipped : skipTree tree = .done () tree.last.lexer

/-- The rest of an object, nested, that is skipped to its closing brace. -/
structure Body.SkipsMembers (place : MemberPlace) (body : Body Lexeme) : Prop where
  nested : body.IsNested fun lexeme => lexeme.token.role
  skipped : skipMembers place body = .done () body.ending.lexer

/-- The rest of an array, nested, that is skipped to its closing bracket. -/
structure Body.SkipsItems (place : ItemPlace) (body : Body Lexeme) : Prop where
  nested : body.IsNested fun lexeme => lexeme.token.role
  skipped : skipItems place body = .done () body.ending.lexer

section

variable {lexeme key colon : Lexeme} {tree : Tree Lexeme} {rest : Body Lexeme}

theorem Tree.skips_leaf (isScalar : lexeme.token.isScalar = true) :
    (Tree.leaf lexeme).Skips where
  nested := by
    rw [Tree.IsNested]
    exact Token.role_of_isScalar isScalar
  skipped := by
    rw [skipTree, if_pos isScalar]
    rfl

theorem Tree.skips_object (opens : lexeme.token = .objectStart)
    (skips : rest.SkipsMembers .key) : (Tree.group lexeme rest).Skips where
  nested := by
    rw [Tree.IsNested, opens]
    exact ⟨rfl, skips.nested⟩
  skipped := by
    rw [skipTree, if_pos opens, skips.skipped]
    rfl

theorem Tree.skips_array (opens : lexeme.token = .arrayStart) (skips : rest.SkipsItems .item) :
    (Tree.group lexeme rest).Skips where
  nested := by
    rw [Tree.IsNested, opens]
    exact ⟨rfl, skips.nested⟩
  skipped := by
    rw [skipTree, if_neg (by rw [opens]; decide), skips.skipped]
    rfl

/-- Only values are skipped. -/
theorem Tree.Skips.isValue (skips : tree.Skips) : tree.head.token.isValue = true := by
  obtain ⟨nested, skipped⟩ := skips
  cases tree with
  | leaf lexeme =>
      rw [skipTree] at skipped
      by_cases isScalar : lexeme.token.isScalar = true
      · rw [Tree.head, Token.isValue, isScalar, Bool.true_or]
      · rw [if_neg isScalar] at skipped
        cases congrArg Outcome.error skipped
  | group opening body =>
      rw [Tree.IsNested] at nested
      rw [Tree.head, Token.isValue, Token.isOpening_of_role nested.1, Bool.or_true]

theorem Body.skipsMembers_close {place : MemberPlace} (closes : lexeme.token = .objectEnd)
    (mayEnd : place.mayEnd = true) : (Body.close lexeme).SkipsMembers place where
  nested := by
    rw [Body.IsNested, closes]
    rfl
  skipped := by
    rw [skipMembers, if_pos ⟨closes, mayEnd⟩]
    rfl

theorem Body.skipsMembers_comma (isComma : lexeme.token = .comma)
    (skips : rest.SkipsMembers .key) :
    (Body.more (.leaf lexeme) rest).SkipsMembers .separator where
  nested := by
    rw [Body.IsNested, Tree.IsNested, isComma]
    exact ⟨rfl, skips.nested⟩
  skipped := by
    have here : (Tree.leaf lexeme).head.token = .comma := isComma
    simp only [skipMembers, if_pos here]
    exact skips.skipped

/-- A member in front of what follows one. -/
theorem Body.skipsMembers_member (isKey : key.token = .string) (isColon : colon.token = .colon)
    (skipsValue : tree.Skips) (skips : rest.SkipsMembers .separator) :
    (Body.more (.leaf key) (.more (.leaf colon) (.more tree rest))).SkipsMembers .key where
  nested := by
    simp only [Body.IsNested, Tree.IsNested, isKey, isColon]
    exact ⟨rfl, rfl, skipsValue.nested, skips.nested⟩
  skipped := by
    have keyHere : (Tree.leaf key).head.token = .string := isKey
    have colonHere : (Tree.leaf colon).head.token = .colon := isColon
    simp only [skipMembers, if_pos keyHere, if_pos colonHere, if_pos skipsValue.isValue,
      skipsValue.skipped]
    exact skips.skipped

theorem Body.skipsItems_close (place : ItemPlace) (closes : lexeme.token = .arrayEnd) :
    (Body.close lexeme).SkipsItems place where
  nested := by
    rw [Body.IsNested, closes]
    rfl
  skipped := by
    rw [skipItems, if_pos closes]
    rfl

theorem Body.skipsItems_comma (isComma : lexeme.token = .comma) (skips : rest.SkipsItems .item) :
    (Body.more (.leaf lexeme) rest).SkipsItems .separator where
  nested := by
    rw [Body.IsNested, Tree.IsNested, isComma]
    exact ⟨rfl, skips.nested⟩
  skipped := by
    have here : (Tree.leaf lexeme).head.token = .comma := isComma
    simp only [skipItems, if_pos here]
    exact skips.skipped

/-- An item in front of what follows one. -/
theorem Body.skipsItems_item (skipsValue : tree.Skips) (skips : rest.SkipsItems .separator) :
    (Body.more tree rest).SkipsItems .item where
  nested := by
    rw [Body.IsNested]
    exact ⟨skipsValue.nested, skips.nested⟩
  skipped := by
    simp only [skipItems, if_pos skipsValue.isValue, skipsValue.skipped]
    exact skips.skipped

end

/-! ### Lexemes with given tokens -/

theorem exists_cons_of_tokensOf {lexemes : List Lexeme} {token : Token} {tokens : List Token}
    (same : tokensOf lexemes = token :: tokens) :
    ∃ lexeme others, lexemes = lexeme :: others ∧ lexeme.token = token ∧
      tokensOf others = tokens := by
  obtain ⟨lexeme, others, rfl, isToken, rest⟩ := List.map_eq_cons_iff.mp same
  exact ⟨lexeme, others, rfl, isToken, rest⟩

theorem exists_append_of_tokensOf {lexemes : List Lexeme} {tokens others : List Token}
    (same : tokensOf lexemes = tokens ++ others) :
    ∃ front back, lexemes = front ++ back ∧ tokensOf front = tokens ∧ tokensOf back = others := by
  obtain ⟨front, back, rfl, first, second⟩ := List.map_eq_append_iff.mp same
  exact ⟨front, back, rfl, first, second⟩

/-- What ends an object behind its last member. -/
theorem Body.exists_objectEnd {lexemes : List Lexeme} {trailing : List Token}
    (mayTrail : trailing = [] ∨ trailing = [.comma])
    (same : tokensOf lexemes = trailing ++ [.objectEnd]) :
    ∃ body : Body Lexeme, body.items = lexemes ∧ body.SkipsMembers .separator := by
  rcases mayTrail with rfl | rfl
  · obtain ⟨ending, others, rfl, closes, none_⟩ := exists_cons_of_tokensOf same
    obtain rfl := List.map_eq_nil_iff.mp none_
    exact ⟨.close ending, rfl, skipsMembers_close closes rfl⟩
  · obtain ⟨comma, others, rfl, isComma, behind⟩ := exists_cons_of_tokensOf same
    obtain ⟨ending, others, rfl, closes, none_⟩ := exists_cons_of_tokensOf behind
    obtain rfl := List.map_eq_nil_iff.mp none_
    exact ⟨.more (.leaf comma) (.close ending), rfl,
      skipsMembers_comma isComma (skipsMembers_close closes rfl)⟩

/-- What ends an array behind its last item. -/
theorem Body.exists_arrayEnd {lexemes : List Lexeme} {trailing : List Token}
    (mayTrail : trailing = [] ∨ trailing = [.comma])
    (same : tokensOf lexemes = trailing ++ [.arrayEnd]) :
    ∃ body : Body Lexeme, body.items = lexemes ∧ body.SkipsItems .separator := by
  rcases mayTrail with rfl | rfl
  · obtain ⟨ending, others, rfl, closes, none_⟩ := exists_cons_of_tokensOf same
    obtain rfl := List.map_eq_nil_iff.mp none_
    exact ⟨.close ending, rfl, skipsItems_close _ closes⟩
  · obtain ⟨comma, others, rfl, isComma, behind⟩ := exists_cons_of_tokensOf same
    obtain ⟨ending, others, rfl, closes, none_⟩ := exists_cons_of_tokensOf behind
    obtain rfl := List.map_eq_nil_iff.mp none_
    exact ⟨.more (.leaf comma) (.close ending), rfl,
      skipsItems_comma isComma (skipsItems_close _ closes)⟩

mutual

/-- **Lexemes whose tokens form a value** are the items of a nested value that is skipped. -/
theorem FormValue.exists_tree : ∀ {tokens : List Token}, FormValue tokens →
    ∀ {lexemes : List Lexeme}, tokensOf lexemes = tokens →
      ∃ tree : Tree Lexeme, tree.items = lexemes ∧ tree.Skips
  | _, .scalar isScalar, lexemes, same => by
      obtain ⟨lexeme, others, rfl, rfl, none_⟩ := exists_cons_of_tokensOf same
      obtain rfl := List.map_eq_nil_iff.mp none_
      exact ⟨.leaf lexeme, rfl, Tree.skips_leaf isScalar⟩
  | _, .emptyObject, lexemes, same => by
      obtain ⟨opening, others, rfl, opens, behind⟩ := exists_cons_of_tokensOf same
      obtain ⟨ending, others, rfl, closes, none_⟩ := exists_cons_of_tokensOf behind
      obtain rfl := List.map_eq_nil_iff.mp none_
      exact ⟨.group opening (.close ending), rfl,
        Tree.skips_object opens (Body.skipsMembers_close closes rfl)⟩
  | _, .object areMembers mayTrail, lexemes, same => by
      obtain ⟨opening, others, rfl, opens, behind⟩ := exists_cons_of_tokensOf same
      rw [List.append_assoc] at behind
      obtain ⟨members, tail, rfl, membersSame, tailSame⟩ := exists_append_of_tokensOf behind
      obtain ⟨end_, rfl, skipsEnd⟩ := Body.exists_objectEnd mayTrail tailSame
      obtain ⟨body, bodyItems, skips⟩ := areMembers.exists_body membersSame skipsEnd
      exact ⟨.group opening body, by rw [Tree.items, bodyItems],
        Tree.skips_object opens skips⟩
  | _, .emptyArray, lexemes, same => by
      obtain ⟨opening, others, rfl, opens, behind⟩ := exists_cons_of_tokensOf same
      obtain ⟨ending, others, rfl, closes, none_⟩ := exists_cons_of_tokensOf behind
      obtain rfl := List.map_eq_nil_iff.mp none_
      exact ⟨.group opening (.close ending), rfl,
        Tree.skips_array opens (Body.skipsItems_close _ closes)⟩
  | _, .array areItems mayTrail, lexemes, same => by
      obtain ⟨opening, others, rfl, opens, behind⟩ := exists_cons_of_tokensOf same
      rw [List.append_assoc] at behind
      obtain ⟨items, tail, rfl, itemsSame, tailSame⟩ := exists_append_of_tokensOf behind
      obtain ⟨end_, rfl, skipsEnd⟩ := Body.exists_arrayEnd mayTrail tailSame
      obtain ⟨body, bodyItems, skips⟩ := areItems.exists_body itemsSame skipsEnd
      exact ⟨.group opening body, by rw [Tree.items, bodyItems],
        Tree.skips_array opens skips⟩

/-- Members in front of what may follow them. -/
theorem FormMembers.exists_body : ∀ {tokens : List Token}, FormMembers tokens →
    ∀ {lexemes : List Lexeme} {tail : Body Lexeme}, tokensOf lexemes = tokens →
      tail.SkipsMembers .separator →
      ∃ body : Body Lexeme, body.items = lexemes ++ tail.items ∧ body.SkipsMembers .key
  | _, .one isValue, lexemes, tail, same, skips => by
      obtain ⟨key, others, rfl, isKey, behind⟩ := exists_cons_of_tokensOf same
      obtain ⟨colon, others, rfl, isColon, valueSame⟩ := exists_cons_of_tokensOf behind
      obtain ⟨tree, rfl, skipsValue⟩ := isValue.exists_tree valueSame
      exact ⟨_, rfl, Body.skipsMembers_member isKey isColon skipsValue skips⟩
  | _, .more isValue areMembers, lexemes, tail, same, skips => by
      obtain ⟨key, others, rfl, isKey, behind⟩ := exists_cons_of_tokensOf same
      obtain ⟨colon, others, rfl, isColon, behind⟩ := exists_cons_of_tokensOf behind
      obtain ⟨value, others, rfl, valueSame, behind⟩ := exists_append_of_tokensOf behind
      obtain ⟨comma, members, rfl, isComma, membersSame⟩ := exists_cons_of_tokensOf behind
      obtain ⟨tree, rfl, skipsValue⟩ := isValue.exists_tree valueSame
      obtain ⟨body, bodyItems, skipsRest⟩ := areMembers.exists_body membersSame skips
      refine ⟨_, ?_, Body.skipsMembers_member isKey isColon skipsValue
        (Body.skipsMembers_comma isComma skipsRest)⟩
      simp only [Body.items, Tree.items, bodyItems, List.append_assoc, List.cons_append,
        List.nil_append]

/-- Items in front of what may follow them. -/
theorem FormItems.exists_body : ∀ {tokens : List Token}, FormItems tokens →
    ∀ {lexemes : List Lexeme} {tail : Body Lexeme}, tokensOf lexemes = tokens →
      tail.SkipsItems .separator →
      ∃ body : Body Lexeme, body.items = lexemes ++ tail.items ∧ body.SkipsItems .item
  | _, .one isValue, lexemes, tail, same, skips => by
      obtain ⟨tree, rfl, skipsValue⟩ := isValue.exists_tree same
      exact ⟨_, rfl, Body.skipsItems_item skipsValue skips⟩
  | _, .more isValue areItems, lexemes, tail, same, skips => by
      obtain ⟨value, others, rfl, valueSame, behind⟩ := exists_append_of_tokensOf same
      obtain ⟨comma, items, rfl, isComma, itemsSame⟩ := exists_cons_of_tokensOf behind
      obtain ⟨tree, rfl, skipsValue⟩ := isValue.exists_tree valueSame
      obtain ⟨body, bodyItems, skipsRest⟩ := areItems.exists_body itemsSame skips
      refine ⟨_, ?_, Body.skipsItems_item skipsValue (Body.skipsItems_comma isComma skipsRest)⟩
      simp only [Body.items, Tree.items, bodyItems, List.append_assoc, List.cons_append,
        List.nil_append]

end

/-! ## Accepting -/

namespace Lexer

variable {lexer last : Lexer} {token : Token}

/-- The tokens of a nested body make a run. -/
theorem run_of_isNested (nested : lexer.body.IsNested fun lexeme => lexeme.token.role) :
    Run lexer lexer.body.items lexer.body.ending.lexer := by
  have open_ : lexer.stream.last.token.role ≠ .closes := by
    rw [Token.role_of_isFinal (isFinal_last_stream lexer)]
    decide
  obtain ⟨others, same, -⟩ :=
    @Body.eq_items_of_levels _ (fun lexeme => lexeme.token.role) lexer.stream.last open_ _ _
      lexer.stream.lexemes nested (rfl : Body.levels _ _ _ = (_, (Body.levels _ _ _).2))
  obtain ⟨last, run, -⟩ := run_of_stream same
  have ending : lexer.body.ending.lexer = last := run.ending
  rw [ending]
  exact run

/-- The tokens behind the first one of a nested value make a run. -/
theorem exists_run_of_tree (nested : (lexer.tree token).IsNested fun lexeme => lexeme.token.role) :
    ∃ items, (lexer.tree token).items = ⟨token, lexer⟩ :: items ∧
      Run lexer items (lexer.tree token).last.lexer := by
  rw [tree] at nested ⊢
  by_cases opens : token.isOpening = true
  · rw [if_pos opens, Tree.IsNested] at nested
    rw [if_pos opens]
    exact ⟨_, rfl, run_of_isNested nested.2⟩
  · rw [if_neg opens]
    exact ⟨[], rfl, .nil lexer⟩

/-- A nested value whose tokens a lexer reads is the value that the lexer has before it. -/
theorem tree_eq_of_run {tree : Tree Lexeme} {items : List Lexeme}
    (nested : tree.IsNested fun lexeme => lexeme.token.role)
    (whole : tree.items = ⟨token, lexer⟩ :: items) (run : Run lexer items last) :
    lexer.tree token = tree ∧ tree.last.lexer = last := by
  cases tree with
  | leaf lexeme =>
      rw [Tree.items, List.cons.injEq] at whole
      obtain ⟨rfl, rfl⟩ := whole
      cases run
      rw [Tree.IsNested] at nested
      refine ⟨?_, rfl⟩
      rw [Lexer.tree, if_neg]
      intro opens
      cases nested.symm.trans (Token.role_of_isOpening opens)
  | group opening body =>
      rw [Tree.items, List.cons.injEq] at whole
      obtain ⟨rfl, rfl⟩ := whole
      rw [Tree.IsNested] at nested
      exact ⟨by rw [Lexer.tree, if_pos (Token.isOpening_of_role nested.1), run.body nested.2],
        run.ending⟩

/-- **Skipping succeeds exactly behind the tokens that form a value.** -/
theorem skipValue_eq_done_iff :
    lexer.skipValue token = .done () last ↔
      ∃ items, lexer.Run items last ∧ FormValue (token :: tokensOf items) := by
  constructor
  · intro skipped
    have succeeded : (lexer.skipValue token).error = none := by rw [skipped]; rfl
    have opened := lexer.isOpened_tree token
    obtain ⟨nested, lands⟩ := skipTree_lands opened succeeded
    obtain ⟨items, whole, run⟩ := exists_run_of_tree nested
    have lastSame : (lexer.tree token).last.lexer = last := by
      rw [← lands]
      exact congrArg Outcome.lexer skipped
    have isValue := formValue_of_skipTree opened succeeded
    rw [whole] at isValue
    exact ⟨items, lastSame ▸ run, isValue⟩
  · rintro ⟨items, run, isValue⟩
    obtain ⟨tree, whole, skips⟩ :=
      isValue.exists_tree (rfl : tokensOf (⟨token, lexer⟩ :: items) = _)
    obtain ⟨same, lands⟩ := tree_eq_of_run skips.nested whole run
    rw [skipValue, same, skips.skipped, lands]

/-- **What is captured of a value is a text of its own**: alone, it begins with the same token and
is skipped to its end. -/
theorem captureValue_again {raw : Bytes}
    (captured : (lexer.scan.lexer.captureValue lexer.scan.token).result = .ok raw) :
    (Lexeme.ofText raw).token = lexer.scan.token ∧
      (Lexeme.ofText raw).lexer.output = lexer.scan.lexer.output ∧
      (skipText raw).result = .ok () ∧ (skipText raw).lexer.position = raw.length ∧
      (skipText raw).lexer.ahead = [] := by
  obtain ⟨skipped, rfl⟩ := Outcome.result_eq_ok_iff.mp captured
  have isValue := isValue_of_skipValue skipped
  obtain ⟨nested, lands⟩ := skipTree_lands (lexer.scan.lexer.isOpened_tree _) skipped
  obtain ⟨rest, found⟩ := exists_body_of_isValue isValue
  obtain ⟨run, -⟩ := run_of_body found nested
  obtain ⟨others, items⟩ := (lexer.scan.lexer.tree lexer.scan.token).items_eq_cons
  obtain ⟨spaces, raw, blank, -, ahead, same⟩ := (items ▸ run).exists_raw
  rw [head_tree, ← lands] at same
  rw [← lands, List.append_assoc] at ahead
  have sameRaw : (lexer.scan.lexer.captureValue lexer.scan.token).value = raw := same
  -- Without the white space in front of it, the value is read in the same way.
  obtain ⟨-, going, -⟩ := exists_spaces (ne_error_of_going (Token.isFinal_of_isValue isValue))
  obtain ⟨behind, faces, scan⟩ :=
    Approaches.exists_faces (⟨spaces, blank, going, ahead⟩ : lexer.Approaches _)
  have skippedBehind : (behind.scan.lexer.skipValue behind.scan.token).error = none := by
    rw [scan]
    exact skipped
  obtain ⟨sameToken, sameOutput, accepted, position, ended⟩ :=
    @Faces.skipText behind raw skippedBehind (by rw [scan]; exact faces)
  rw [scan] at sameToken sameOutput
  rw [sameRaw]
  exact ⟨sameToken, sameOutput, Outcome.result_eq_ok_iff.mpr ⟨accepted, rfl⟩, position,
    ended.ahead_eq⟩

/-- Skipping gives a result if it stops somewhere without an error. -/
theorem result_skipValue_eq_ok_iff :
    (lexer.skipValue token).result = .ok () ↔ ∃ last, lexer.skipValue token = .done () last := by
  rw [Outcome.result_eq_ok_iff]
  constructor
  · rintro ⟨succeeded, -⟩
    exact ⟨_, skipTree_passesLike _ succeeded⟩
  · rintro ⟨last, skipped⟩
    rw [skipped]
    exact ⟨rfl, rfl⟩

/-- **Skipping accepts exactly the grammar.**  With the token that was just read:

* the value is skipped without an error, up to some position, exactly if the tokens up to there
  form a value;
* in every other case there is an error;
* what is captured of a value is, on its own, the text of a value that begins with the same token
  and is skipped exactly to its end. -/
theorem skipValue_accepts (lexer : Lexer) :
    (∀ position, (lexer.scan.lexer.skipValue lexer.scan.token).result = .ok () ∧
        (lexer.scan.lexer.skipValue lexer.scan.token).lexer.position = position ↔
      ∃ items last, lexer.scan.lexer.Run items last ∧ last.position = position ∧
        FormValue (lexer.scan.token :: tokensOf items)) ∧
    ((∃ error, (lexer.scan.lexer.skipValue lexer.scan.token).result = .error error) ↔
      ¬ ∃ items last, lexer.scan.lexer.Run items last ∧
        FormValue (lexer.scan.token :: tokensOf items)) ∧
    ∀ raw, (lexer.scan.lexer.captureValue lexer.scan.token).result = .ok raw →
      (ofBytes raw).scan.token = lexer.scan.token ∧
        (ofBytes raw).scan.lexer.output = lexer.scan.lexer.output ∧
        ((ofBytes raw).scan.lexer.skipValue (ofBytes raw).scan.token).result = .ok () ∧
        ((ofBytes raw).scan.lexer.skipValue (ofBytes raw).scan.token).lexer.position =
          raw.length ∧
        ((ofBytes raw).scan.lexer.skipValue (ofBytes raw).scan.token).lexer.ahead = [] := by
  have accepts : (lexer.scan.lexer.skipValue lexer.scan.token).result = .ok () ↔
      ∃ items last, lexer.scan.lexer.Run items last ∧
        FormValue (lexer.scan.token :: tokensOf items) := by
    rw [result_skipValue_eq_ok_iff]
    constructor
    · rintro ⟨last, skipped⟩
      obtain ⟨items, run, isValue⟩ := skipValue_eq_done_iff.mp skipped
      exact ⟨items, last, run, isValue⟩
    · rintro ⟨items, last, run, isValue⟩
      exact ⟨last, skipValue_eq_done_iff.mpr ⟨items, run, isValue⟩⟩
  refine ⟨fun position => ⟨?_, ?_⟩, ?_, fun raw => captureValue_again⟩
  · rintro ⟨succeeded, rfl⟩
    obtain ⟨last, skipped⟩ := result_skipValue_eq_ok_iff.mp succeeded
    obtain ⟨items, run, isValue⟩ := skipValue_eq_done_iff.mp skipped
    exact ⟨items, last, run, by rw [skipped]; rfl, isValue⟩
  · rintro ⟨items, last, run, rfl, isValue⟩
    rw [skipValue_eq_done_iff.mpr ⟨items, run, isValue⟩]
    exact ⟨rfl, rfl⟩
  · rw [← accepts]
    cases (lexer.scan.lexer.skipValue lexer.scan.token).result with
    | ok value => simp only [reduceCtorEq, exists_false, not_true_eq_false]
    | error error => simp only [Except.error.injEq, exists_eq', reduceCtorEq, not_false_eq_true]

end Lexer

end ChatCodec
