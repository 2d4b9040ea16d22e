import ChatCodec.Proofs.Lexer.Bodies
import ChatCodec.Proofs.Streaming.Skipping

/-!
# Decoding token by token

Decoding is a recursion on nested tokens.  Read from the front it is a loop over the lexer: at
each place in an object or an array the next token is looked at, and decoding goes on from
where this token, or the value that begins with it, has left the lexer.

For values this takes an argument, because the rest of a body is behind its first value only
where the value is nested.  A value that is skipped is (`skipTree_lands`), and so is one that is
decoded, since decoding passes like skipping.
-/

namespace ChatCodec

set_option autoImplicit false

/-! ## Steps that succeed -/

namespace Outcome

variable {Value Other : Type} {outcome : Outcome Value} {left : Value → Other}
  {next : Value → Lexer → Outcome Other}

/-- A step that is refused under some condition takes place if it succeeds. -/
theorem of_ite_refuse {condition : Prop} [Decidable condition] {value : Value} {lexeme : Lexeme}
    {wanted : Wanted}
    (succeeded : (if condition then outcome else .refuse value lexeme wanted).error = none) :
    condition ∧ outcome.error = none ∧
      (if condition then outcome else .refuse value lexeme wanted) = outcome := by
  by_cases holds : condition
  · rw [if_pos holds] at succeeded
    exact ⟨holds, succeeded, if_pos holds⟩
  · rw [if_neg holds] at succeeded
    cases succeeded

theorem error_eq_none_of_follow (succeeded : (outcome.follow left next).error = none) :
    outcome.error = none := by
  obtain ⟨value, events, error, lexer⟩ := outcome
  cases error with
  | none => rfl
  | some error => cases succeeded

/-- Behind a success the second step decides. -/
theorem follow_of_error_eq_none (succeeded : outcome.error = none) (left : Value → Other)
    (next : Value → Lexer → Outcome Other) :
    (outcome.follow left next).error = (next outcome.value outcome.lexer).error ∧
      (outcome.follow left next).value = (next outcome.value outcome.lexer).value ∧
      (outcome.follow left next).lexer = (next outcome.value outcome.lexer).lexer := by
  rw [follow, succeeded]
  exact ⟨rfl, rfl, rfl⟩

/-- Second steps may be exchanged if they are the same behind a success. -/
theorem follow_congr {next' : Value → Lexer → Outcome Other}
    (same : outcome.error = none →
      next outcome.value outcome.lexer = next' outcome.value outcome.lexer) :
    outcome.follow left next = outcome.follow left next' := by
  rw [follow, follow]
  cases error : outcome.error with
  | none => simp only [same error]
  | some error => rfl

end Outcome

/-! ## Values that are skipped -/

/-- What is opened and begins with a token that stands by itself is this token. -/
theorem Tree.IsOpened.isNested_of_stands {tree : Tree Lexeme}
    (opened : tree.IsOpened fun lexeme => lexeme.token.role)
    (stands : tree.head.token.role = .stands) :
    tree.IsNested fun lexeme => lexeme.token.role := by
  cases tree with
  | leaf lexeme =>
      rw [Tree.IsNested]
      exact stands
  | group opening body =>
      rw [Tree.IsOpened] at opened
      rw [Tree.head] at stands
      rw [opened.1] at stands
      cases stands

mutual

/-- **A value that is skipped is nested**, and its last token is where the lexer is left. -/
theorem skipTree_lands : ∀ {tree : Tree Lexeme}, tree.IsOpened (fun lexeme => lexeme.token.role) →
    (skipTree tree).error = none →
      tree.IsNested (fun lexeme => lexeme.token.role) ∧ (skipTree tree).lexer = tree.last.lexer
  | .leaf lexeme, _, succeeded => by
      rw [skipTree] at succeeded ⊢
      obtain ⟨scalar, -, same⟩ := Outcome.of_ite_refuse succeeded
      rw [same, Tree.IsNested]
      exact ⟨Token.role_of_isScalar scalar, rfl⟩
  | .group opening body, opened, succeeded => by
      rw [Tree.IsOpened] at opened
      rw [skipTree] at succeeded ⊢
      rw [Tree.IsNested, Tree.last]
      by_cases object : opening.token = .objectStart
      · rw [if_pos object] at succeeded ⊢
        obtain ⟨nested, lands⟩ := skipMembers_lands opened.2 .key succeeded
        exact ⟨⟨opened.1, nested⟩, lands⟩
      · rw [if_neg object] at succeeded ⊢
        obtain ⟨nested, lands⟩ := skipItems_lands opened.2 .item succeeded
        exact ⟨⟨opened.1, nested⟩, lands⟩

theorem skipMembers_lands : ∀ {body : Body Lexeme},
    body.IsOpened (fun lexeme => lexeme.token.role) → ∀ (place : MemberPlace),
      (skipMembers place body).error = none →
        body.IsNested (fun lexeme => lexeme.token.role) ∧
          (skipMembers place body).lexer = body.ending.lexer
  | .close ending, _, place, succeeded => by
      rw [skipMembers] at succeeded ⊢
      obtain ⟨ends, -, same⟩ := Outcome.of_ite_refuse succeeded
      rw [same, Body.IsNested, ends.1]
      exact ⟨rfl, rfl⟩
  | .more tree rest, opened, place, succeeded => by
      rw [Body.IsOpened] at opened
      rw [Body.IsNested, Body.ending]
      -- A token of the grammar stands by itself.
      have mark : ∀ {token : Token} {next : MemberPlace}, token.role = .stands →
          tree.head.token = token → (skipMembers next rest).error = none →
            (tree.IsNested (fun lexeme => lexeme.token.role) ∧
              rest.IsNested fun lexeme => lexeme.token.role) ∧
              (skipMembers next rest).lexer = rest.ending.lexer := by
        intro token next stands isToken following
        obtain ⟨nested, lands⟩ := skipMembers_lands opened.2 next following
        exact ⟨⟨opened.1.isNested_of_stands (by rw [isToken, stands]), nested⟩, lands⟩
      rw [skipMembers.eq_def] at succeeded ⊢
      cases place with
      | key =>
          simp only at succeeded ⊢
          obtain ⟨isToken, following, same⟩ := Outcome.of_ite_refuse succeeded
          rw [same]
          exact mark rfl isToken following
      | colon =>
          simp only at succeeded ⊢
          obtain ⟨isToken, following, same⟩ := Outcome.of_ite_refuse succeeded
          rw [same]
          exact mark rfl isToken following
      | value =>
          simp only at succeeded ⊢
          obtain ⟨-, succeeded, same⟩ := Outcome.of_ite_refuse succeeded
          have skipped := Outcome.error_eq_none_of_follow succeeded
          obtain ⟨following, -, last⟩ := Outcome.follow_of_error_eq_none skipped id
            fun _ _ => skipMembers .separator rest
          rw [following] at succeeded
          rw [same, last]
          obtain ⟨nested, lands⟩ := skipMembers_lands opened.2 .separator succeeded
          exact ⟨⟨(skipTree_lands opened.1 skipped).1, nested⟩, lands⟩
      | separator =>
          simp only at succeeded ⊢
          obtain ⟨isToken, following, same⟩ := Outcome.of_ite_refuse succeeded
          rw [same]
          exact mark rfl isToken following

theorem skipItems_lands : ∀ {body : Body Lexeme},
    body.IsOpened (fun lexeme => lexeme.token.role) → ∀ (place : ItemPlace),
      (skipItems place body).error = none →
        body.IsNested (fun lexeme => lexeme.token.role) ∧
          (skipItems place body).lexer = body.ending.lexer
  | .close ending, _, place, succeeded => by
      rw [skipItems] at succeeded ⊢
      obtain ⟨ends, -, same⟩ := Outcome.of_ite_refuse succeeded
      rw [same, Body.IsNested, ends]
      exact ⟨rfl, rfl⟩
  | .more tree rest, opened, place, succeeded => by
      rw [Body.IsOpened] at opened
      rw [Body.IsNested, Body.ending]
      rw [skipItems.eq_def] at succeeded ⊢
      cases place with
      | item =>
          simp only at succeeded ⊢
          obtain ⟨-, succeeded, same⟩ := Outcome.of_ite_refuse succeeded
          have skipped := Outcome.error_eq_none_of_follow succeeded
          obtain ⟨following, -, last⟩ := Outcome.follow_of_error_eq_none skipped id
            fun _ _ => skipItems .separator rest
          rw [following] at succeeded
          rw [same, last]
          obtain ⟨nested, lands⟩ := skipItems_lands opened.2 .separator succeeded
          exact ⟨⟨(skipTree_lands opened.1 skipped).1, nested⟩, lands⟩
      | separator =>
          simp only at succeeded ⊢
          obtain ⟨isToken, following, same⟩ := Outcome.of_ite_refuse succeeded
          rw [same]
          obtain ⟨nested, lands⟩ := skipItems_lands opened.2 .item following
          exact ⟨⟨opened.1.isNested_of_stands (by rw [isToken]; rfl), nested⟩, lands⟩

end

/-- **Behind a value that passes like the skipper**, the rest of the body is what the lexer has
before it, and the tokens of the value make a run up to there. -/
theorem Lexer.rest_of_passesLike {lexer : Lexer} {rest : Body Lexeme} {Value : Type}
    {outcome : Outcome Value}
    (found : lexer.body = .more (lexer.scan.lexer.tree lexer.scan.token) rest)
    (passes : outcome.PassesLike (lexer.scan.lexer.skipValue lexer.scan.token))
    (succeeded : outcome.error = none) :
    rest = outcome.lexer.body ∧
      lexer.Run (lexer.scan.lexer.tree lexer.scan.token).items outcome.lexer := by
  have skipped := passes succeeded
  rw [skipValue] at skipped
  obtain ⟨nested, lands⟩ :=
    skipTree_lands (lexer.scan.lexer.isOpened_tree lexer.scan.token) (by rw [skipped]; rfl)
  rw [skipped] at lands
  have last : outcome.lexer = (lexer.scan.lexer.tree lexer.scan.token).last.lexer := lands
  obtain ⟨run, behind⟩ := run_of_body found nested
  rw [last]
  exact ⟨behind, run⟩

/-! ## Values by their first token -/

section

variable {C : Catalog} {matching : KeyMatching} {lexer : Lexer} {inner : C.Shape}

theorem decodeTree_option {tree : Tree Lexeme} (present : tree.head.token ≠ .null)
    (before : C.Value (.option inner)) :
    decodeTree C matching tree (.option inner) before =
      (decodeTree C matching tree inner (C.blank inner)).replace before .some := by
  cases tree with
  | leaf lexeme =>
      rw [decodeTree, decodeLeaf]
      exact if_neg present
  | group opening body => rw [decodeTree, decodeGroup]

theorem decodeInto_list (before : C.Value (.list inner)) :
    decodeInto C matching before lexer .arrayStart =
      (decodeItems C matching lexer.body inner .item).map .list := by
  rw [decodeInto, Lexer.tree, if_pos (by rfl), decodeTree, decodeGroup]
  exact if_pos rfl

theorem decodeInto_entity {name : C.Name} (before : C.Entity name) :
    decodeInto C matching (.entity before) lexer .objectStart =
      (decodeFrom C matching before .key lexer).map .entity := by
  rw [decodeInto, Lexer.tree, if_pos (by rfl), decodeTree, decodeGroup]
  exact if_pos rfl

end

/-! ## The loop -/

section

variable {C : Catalog} {matching : KeyMatching} {lexer : Lexer} {name : C.Name}
  {current : Option Nat} {record : C.Entity name} {inner : C.Shape}

variable (C matching) in
/-- Decodes the value of a member whose key has found the field of that number, or none. -/
def decodeMember (current : Option Nat) (record : C.Entity name) (lexer : Lexer) (token : Token) :
    Outcome (C.Entity name) :=
  match current with
  | some index => decodeField C matching record index lexer token
  | none => (lexer.skipValue token).map fun _ => record

theorem decodeMember_passesLike (current : Option Nat) (record : C.Entity name) (lexer : Lexer)
    (token : Token) :
    (decodeMember C matching current record lexer token).PassesLike (lexer.skipValue token) := by
  cases current with
  | some index =>
      exact record.decodeAt_passesLike (decodeTree_passesLike (lexer.isOpened_tree token)) index
  | none => exact (skipTree_passesLike _).map _

/-- What passes like the skipper leads on. -/
theorem Lexer.leadsTo_of_passesLike {Value : Type} {outcome : Outcome Value}
    (isValue : lexer.scan.token.isValue = true)
    (passes : outcome.PassesLike (lexer.scan.lexer.skipValue lexer.scan.token))
    (succeeded : outcome.error = none) : lexer.LeadsTo outcome.lexer := by
  obtain ⟨rest, found⟩ := exists_body_of_isValue isValue
  exact (rest_of_passesLike found passes succeeded).2.leadsTo

/-- What passes like the skipper makes progress. -/
theorem Lexer.ahead_lt_of_passesLike {Value : Type} {outcome : Outcome Value}
    (isValue : lexer.scan.token.isValue = true)
    (passes : outcome.PassesLike (lexer.scan.lexer.skipValue lexer.scan.token))
    (succeeded : outcome.error = none) : outcome.lexer.ahead.length < lexer.ahead.length := by
  obtain ⟨rest, found⟩ := exists_body_of_isValue isValue
  have run := (rest_of_passesLike found passes succeeded).2
  obtain ⟨others, items⟩ := (lexer.scan.lexer.tree lexer.scan.token).items_eq_cons
  rw [items] at run
  exact run.ahead_lt

/-- Where a key may stand, it makes no difference which field was found last. -/
theorem decodeMembers_key_of_any (body : Body Lexeme) (current : Option Nat) :
    decodeMembers C matching body name .key current record =
      decodeMembers C matching body name .key none record := by
  cases body with
  | close ending => rw [decodeMembers, decodeMembers]
  | more tree rest => rw [decodeMembers, decodeMembers]

theorem decodeMembers_key (isKey : lexer.scan.token = .string) :
    decodeMembers C matching lexer.body name .key current record =
      match Key.resolve (C.keys name) lexer.scan.lexer.output matching with
      | some index =>
          decodeMembers C matching lexer.scan.lexer.body name .colon (some index) record
      | none =>
          (decodeMembers C matching lexer.scan.lexer.body name .colon none record).note
            (.unknownKey (C.title name) (Utf8.decodeLossy lexer.scan.lexer.output)) := by
  rw [Lexer.body_of_stands (by rw [isKey]; rfl) (by rw [isKey]; rfl), decodeMembers]
  exact if_pos isKey

theorem decodeMembers_colon (isColon : lexer.scan.token = .colon) :
    decodeMembers C matching lexer.body name .colon current record =
      decodeMembers C matching lexer.scan.lexer.body name .value current record := by
  rw [Lexer.body_of_stands (by rw [isColon]; rfl) (by rw [isColon]; rfl), decodeMembers]
  exact if_pos isColon

theorem decodeMembers_value (isValue : lexer.scan.token.isValue = true) :
    decodeMembers C matching lexer.body name .value current record =
      (decodeMember C matching current record lexer.scan.lexer lexer.scan.token).follow id
        fun record behind => decodeMembers C matching behind.body name .separator none record := by
  obtain ⟨rest, found⟩ := Lexer.exists_body_of_isValue isValue
  have passes := @decodeMember_passesLike C matching name current record lexer.scan.lexer
    lexer.scan.token
  rw [found, decodeMembers.eq_def]
  simp only [Lexer.head_tree, if_pos isValue]
  calc
    _ = (decodeMember C matching current record lexer.scan.lexer lexer.scan.token).follow id
          fun record _ => decodeMembers C matching rest name .separator none record := by
      cases current <;> rfl
    _ = _ := by
      refine Outcome.follow_congr fun succeeded => ?_
      rw [(Lexer.rest_of_passesLike found passes succeeded).1]

theorem decodeMembers_separator (isComma : lexer.scan.token = .comma) :
    decodeMembers C matching lexer.body name .separator current record =
      decodeMembers C matching lexer.scan.lexer.body name .key none record := by
  rw [Lexer.body_of_stands (by rw [isComma]; rfl) (by rw [isComma]; rfl), decodeMembers]
  exact if_pos isComma

/-- The tokens with which an object goes on at a place. -/
def MemberPlace.admits : MemberPlace → Token → Bool
  | .key, token => token == .string
  | .colon, token => token == .colon
  | .value, token => token.isValue
  | .separator, token => token == .comma

/-- **What does not fit the place** ends the object, if this may end there, and is refused
otherwise. -/
theorem decodeMembers_of_not_admits {place : MemberPlace}
    (refused : ¬ place.admits lexer.scan.token = true) :
    decodeMembers C matching lexer.body name place current record =
      if lexer.scan.token = .objectEnd ∧ place.mayEnd = true then .done record lexer.scan.lexer
      else .refuse record lexer.scan place.wanted := by
  rcases lexer.body_cases with close | ⟨tree, rest, more, head⟩
  · rw [close, decodeMembers]
  · have goesOn : lexer.scan.token ≠ .objectEnd := by
      intro ends
      rw [Lexer.body_of_ends (.inl (by rw [ends]; rfl))] at more
      cases more
    rw [if_neg fun ended => goesOn ended.1, more, decodeMembers.eq_def, ← head]
    rw [← head] at refused
    cases place with
    | key | colon | separator =>
        rw [MemberPlace.admits, beq_iff_eq] at refused
        exact if_neg refused
    | value => exact if_neg refused

/-- **Only what fits the place is decoded**: the object goes on there, or it ends. -/
theorem admits_of_decodeMembers {place : MemberPlace}
    (succeeded : (decodeMembers C matching lexer.body name place current record).error = none) :
    place.admits lexer.scan.token = true ∨
      (lexer.scan.token = .objectEnd ∧ place.mayEnd = true) := by
  by_contra refused
  obtain ⟨misfit, goesOn⟩ := not_or.mp refused
  rw [decodeMembers_of_not_admits misfit, if_neg goesOn] at succeeded
  cases succeeded

/-- An object ends with its brace, where it may. -/
theorem decodeMembers_end {place : MemberPlace} (isEnd : lexer.scan.token = .objectEnd)
    (mayEnd : place.mayEnd = true) :
    decodeMembers C matching lexer.body name place current record =
      .done record lexer.scan.lexer := by
  rw [Lexer.body_of_ends (.inl (by rw [isEnd]; rfl)), decodeMembers, if_pos ⟨isEnd, mayEnd⟩]

variable (C matching) in
theorem decodeInto_passesLike {shape : C.Shape} (before : C.Value shape) (lexer : Lexer)
    (token : Token) :
    (decodeInto C matching before lexer token).PassesLike (lexer.skipValue token) :=
  decodeTree_passesLike (lexer.isOpened_tree token) shape before

theorem decodeItems_item (isValue : lexer.scan.token.isValue = true) :
    decodeItems C matching lexer.body inner .item =
      (decodeInto C matching (C.blank inner) lexer.scan.lexer lexer.scan.token).follow
        (fun _ => .nil) fun head behind =>
          (decodeItems C matching behind.body inner .separator).map fun tail => .cons head tail := by
  obtain ⟨rest, found⟩ := Lexer.exists_body_of_isValue isValue
  have passes := decodeInto_passesLike C matching (C.blank inner) lexer.scan.lexer lexer.scan.token
  rw [found, decodeItems.eq_def]
  simp only [Lexer.head_tree, if_pos isValue]
  refine Outcome.follow_congr fun succeeded => ?_
  rw [(Lexer.rest_of_passesLike found passes succeeded).1]
  rfl

theorem decodeItems_separator (isComma : lexer.scan.token = .comma) :
    decodeItems C matching lexer.body inner .separator =
      decodeItems C matching lexer.scan.lexer.body inner .item := by
  rw [Lexer.body_of_stands (by rw [isComma]; rfl) (by rw [isComma]; rfl), decodeItems]
  exact if_pos isComma

/-- The tokens with which an array goes on at a place. -/
def ItemPlace.admits : ItemPlace → Token → Bool
  | .item, token => token.isValue
  | .separator, token => token == .comma

/-- What does not fit the place ends the array or is refused. -/
theorem decodeItems_of_not_admits {place : ItemPlace}
    (refused : ¬ place.admits lexer.scan.token = true) :
    decodeItems C matching lexer.body inner place =
      if lexer.scan.token = .arrayEnd then .done .nil lexer.scan.lexer
      else .refuse .nil lexer.scan place.wanted := by
  rcases lexer.body_cases with close | ⟨tree, rest, more, head⟩
  · rw [close, decodeItems]
  · have goesOn : lexer.scan.token ≠ .arrayEnd := by
      intro ends
      rw [Lexer.body_of_ends (.inl (by rw [ends]; rfl))] at more
      cases more
    rw [if_neg goesOn, more, decodeItems.eq_def, ← head]
    rw [← head] at refused
    cases place with
    | item => exact if_neg refused
    | separator =>
        rw [ItemPlace.admits, beq_iff_eq] at refused
        exact if_neg refused

end

end ChatCodec
