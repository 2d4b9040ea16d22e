import ChatCodec.Proofs.Streaming.Texts

/-!
# The texts of objects

The text of an object is the text of a value (`ObjectText.isValueText`), and every text of a value
that begins with a brace is the text of an object (`exists_objectText`).  So what is said of all
texts of objects is said of all objects that the grammar knows.

Skipping an object is decoding an entity that has no fields (`Hollow`): nothing is written, and
nothing but the grammar can be offended.
-/

namespace ChatCodec

set_option autoImplicit false

/-- A catalog with one entity, which has no fields. -/
abbrev Hollow : Catalog where
  Name := Unit
  fields _ := []
  title _ := ""
  layout _ := .plain
  depth := 1
  grounded _ := rfl

/-- The one record of the entity. -/
def hollow : Hollow.Entity Unit.unit := .nil

/-- No key finds a field where there is none. -/
theorem Key.resolve_nil (key : Bytes) : resolve [] key .exact = none := by
  rw [resolve]
  split <;> rfl

theorem resolve_hollow (key : Bytes) : Key.resolve (Hollow.keys Unit.unit) key .exact = none :=
  Key.resolve_nil key

/-- Skipping the rest of an object is decoding it into the record without fields. -/
theorem skipMembers_hollow : ∀ (body : Body Lexeme) (place : MemberPlace),
    ((skipMembers place body).map fun _ => hollow).Agrees Eq
      (decodeMembers Hollow .exact body Unit.unit place none hollow)
  | .close ending, place => by
      rw [skipMembers, decodeMembers]
      split
      · exact .refl _
      · exact .refl _
  | .more tree rest, .key => by
      rw [skipMembers.eq_def, decodeMembers.eq_def]
      simp only [List.map_nil, Key.resolve_nil]
      split
      · exact (skipMembers_hollow rest .colon).trans (.noted _ _)
      · exact .refl _
  | .more tree rest, .colon => by
      rw [skipMembers.eq_def, decodeMembers.eq_def]
      simp only
      split
      · exact skipMembers_hollow rest .value
      · exact .refl _
  | .more tree rest, .value => by
      rw [skipMembers.eq_def, decodeMembers.eq_def]
      simp only
      split
      · have following := skipMembers_hollow rest .separator
        generalize skipTree tree = skipped
        obtain ⟨value, events, error, lexer⟩ := skipped
        cases error with
        | none => exact ⟨following.value_eq, following.report_eq, following.alike⟩
        | some error => exact ⟨rfl, rfl, fun succeeded => by cases succeeded⟩
      · exact .refl _
  | .more tree rest, .separator => by
      rw [skipMembers.eq_def, decodeMembers.eq_def]
      simp only
      split
      · exact skipMembers_hollow rest .key
      · exact .refl _

theorem writeAll_hollow (members : List MemberText) :
    writeAll Hollow .exact hollow members = .ok hollow := by
  induction members with
  | nil => rfl
  | cons member members ih =>
      rw [writeAll, List.foldlM_cons, member.write_of_unknown (resolve_hollow _)]
      exact ih

/-- **The text of an object is the text of a value.** -/
theorem ObjectText.isValueText (object : ObjectText) : IsValueText object.bytes := by
  have start := Lexer.approaches_ofBytes object.bytes
  have isStart := object.token_ofText
  have yields : (decodeObject Hollow .exact hollow (Lexer.ofBytes object.bytes)).Yields _ _ :=
    object.decodeObject_yields hollow start
  rw [writeAll_hollow] at yields
  obtain ⟨succeeded, -, nears⟩ := yields.succeeds
  have first : decodeObject Hollow .exact hollow (Lexer.ofBytes object.bytes) =
      decodeFrom Hollow .exact hollow .key (Lexeme.ofText object.bytes).lexer := if_pos isStart
  rw [first] at succeeded nears
  have skipped := decodeInto_passesLike Hollow .exact (.entity hollow)
    (Lexeme.ofText object.bytes).lexer .objectStart (by rw [decodeInto_entity]; exact succeeded)
  rw [decodeInto_entity] at skipped
  rw [IsValueText, skipText, isStart, skipped]
  exact ⟨rfl, Lexer.finish_iff.mpr nears⟩

/-! ## Every object -/

/-- What a lexer reads as a value is the text of one. -/
theorem Lexer.exists_valueText {lexer : Lexer} (isValue : lexer.scan.token.isValue = true)
    (skipped : (lexer.scan.lexer.skipValue lexer.scan.token).error = none) :
    ∃ text, IsValueText text ∧ (Lexeme.ofText text).token = lexer.scan.token ∧
      lexer.ahead = text ++ (lexer.scan.lexer.skipValue lexer.scan.token).lexer.ahead := by
  have passes := skipTree_passesLike (lexer.scan.lexer.tree lexer.scan.token)
  obtain ⟨text, ahead, -⟩ := leadsTo_of_passesLike isValue passes skipped
  obtain ⟨-, going, -⟩ := exists_spaces (ne_error_of_going (Token.isFinal_of_isValue isValue))
  obtain ⟨sameToken, -, accepted, -, ended⟩ :=
    Faces.skipText skipped (⟨going, ahead⟩ : lexer.Faces _)
  exact ⟨text, ⟨accepted, finish_iff.mpr ended.approaches⟩, sameToken, ahead⟩

section

variable {lexer : Lexer}

/-- The lexer behind the rest of an object that is skipped. -/
def afterMembers (place : MemberPlace) (lexer : Lexer) : Lexer :=
  (decodeMembers Hollow .exact lexer.body Unit.unit place none hollow).lexer

/-- The rest of an object is skipped. -/
def PassesMembers (place : MemberPlace) (lexer : Lexer) : Prop :=
  (decodeMembers Hollow .exact lexer.body Unit.unit place none hollow).error = none

theorem PassesMembers.key (passes : PassesMembers .key lexer) :
    lexer.scan.token = .objectEnd ∨
      lexer.scan.token = .string ∧ PassesMembers .colon lexer.scan.lexer ∧
        afterMembers .key lexer = afterMembers .colon lexer.scan.lexer := by
  rcases admits_of_decodeMembers passes with isKey | ⟨isEnd, -⟩
  · rw [MemberPlace.admits, beq_iff_eq] at isKey
    rw [PassesMembers, decodeMembers_key isKey, resolve_hollow] at passes
    rw [afterMembers, decodeMembers_key isKey, resolve_hollow]
    exact .inr ⟨isKey, passes, rfl⟩
  · exact .inl isEnd

theorem PassesMembers.colon (passes : PassesMembers .colon lexer) :
    lexer.scan.token = .colon ∧ PassesMembers .value lexer.scan.lexer ∧
      afterMembers .colon lexer = afterMembers .value lexer.scan.lexer := by
  rcases admits_of_decodeMembers passes with isColon | ⟨-, mayEnd⟩
  · rw [MemberPlace.admits, beq_iff_eq] at isColon
    rw [PassesMembers, decodeMembers_colon isColon] at passes
    rw [afterMembers, decodeMembers_colon isColon]
    exact ⟨isColon, passes, rfl⟩
  · cases mayEnd

theorem PassesMembers.value (passes : PassesMembers .value lexer) :
    lexer.scan.token.isValue = true ∧
      (lexer.scan.lexer.skipValue lexer.scan.token).error = none ∧
      PassesMembers .separator (lexer.scan.lexer.skipValue lexer.scan.token).lexer ∧
      afterMembers .value lexer =
        afterMembers .separator (lexer.scan.lexer.skipValue lexer.scan.token).lexer := by
  rcases admits_of_decodeMembers passes with isValue | ⟨-, mayEnd⟩
  · rw [MemberPlace.admits] at isValue
    rw [PassesMembers, decodeMembers_value isValue] at passes
    rw [afterMembers, decodeMembers_value isValue]
    have skipped := Outcome.error_eq_none_of_follow passes
    obtain ⟨following, -, last⟩ := Outcome.follow_of_error_eq_none skipped id
      fun record behind => decodeMembers Hollow .exact behind.body Unit.unit .separator none record
    rw [following] at passes
    exact ⟨isValue, skipped, passes, last⟩
  · cases mayEnd

theorem PassesMembers.separator (passes : PassesMembers .separator lexer) :
    lexer.scan.token = .objectEnd ∨
      lexer.scan.token = .comma ∧ PassesMembers .key lexer.scan.lexer ∧
        afterMembers .separator lexer = afterMembers .key lexer.scan.lexer := by
  rcases admits_of_decodeMembers passes with isComma | ⟨isEnd, -⟩
  · rw [MemberPlace.admits, beq_iff_eq] at isComma
    rw [PassesMembers, decodeMembers_separator isComma] at passes
    rw [afterMembers, decodeMembers_separator isComma]
    exact .inr ⟨isComma, passes, rfl⟩
  · exact .inl isEnd

/-- The bytes of members and of what closes their object.  A comma may stand in between. -/
def closedText (members : List PlacedMember) (trailing : Bool) (beforeEnd : Blanks)
    (rest : Bytes) : Bytes :=
  membersText members ++ ((if trailing then [Ascii.comma] else []) ++
    (beforeEnd.val ++ Ascii.closeBrace :: rest))

/-- **The rest of an object that is skipped is made of members**, and a brace behind them. -/
theorem PassesMembers.exists_closedText {lexer : Lexer} (passes : PassesMembers .key lexer) :
    ∃ members trailing beforeEnd, (trailing = true → members ≠ []) ∧
      lexer.ahead = closedText members trailing beforeEnd (afterMembers .key lexer).ahead := by
  have brace : Scanned.punctuation? Ascii.closeBrace = some .objectEnd := by decide
  have comma : Scanned.punctuation? Ascii.comma = some .comma := by decide
  have colon : Scanned.punctuation? Ascii.colon = some .colon := by decide
  rcases passes.key with isEnd | ⟨isKey, passesColon, afterKey⟩
  · obtain ⟨blanks, blank, ahead⟩ := Lexer.exists_blanks_of_mark brace isEnd
    refine ⟨[], false, ⟨blanks, blank⟩, fun trails => (by cases trails), ?_⟩
    rw [afterMembers, decodeMembers_end isEnd rfl]
    exact ahead
  -- A key, a colon and a value.
  have keySkipped := Lexer.skipValue_of_isScalar (show Token.string.isScalar = true from rfl)
    lexer.scan.lexer
  rw [← isKey] at keySkipped
  obtain ⟨key, isKeyText, keyToken, keyAhead⟩ :=
    Lexer.exists_valueText (by rw [isKey]; rfl) (by rw [keySkipped]; rfl)
  rw [keySkipped] at keyAhead
  obtain ⟨isColon, passesValue, afterColon⟩ := passesColon.colon
  obtain ⟨behindKey, keyBlank, colonAhead⟩ := Lexer.exists_blanks_of_mark colon isColon
  obtain ⟨isValue, skipped, passesSeparator, afterValue⟩ := passesValue.value
  obtain ⟨value, isValueText, -, valueAhead⟩ := Lexer.exists_valueText isValue skipped
  rw [afterKey, afterColon, afterValue]
  generalize (lexer.scan.lexer.scan.lexer.scan.lexer.skipValue
    lexer.scan.lexer.scan.lexer.scan.token).lexer = behind at *
  obtain ⟨member, member_bytes⟩ : ∃ member : Blanks → PlacedMember, ∀ blanks rest,
      (member blanks).bytes ++ rest =
        key ++ (behindKey ++ Ascii.colon :: (value ++ (blanks.val ++ rest))) := by
    refine ⟨fun blanks =>
      { key := key, isKey := isKeyText, isString := keyToken.trans isKey, value := value,
        isValue := isValueText, behindKey := ⟨behindKey, keyBlank⟩, behindValue := blanks }, ?_⟩
    intro blanks rest
    simp only [PlacedMember.bytes, List.append_assoc, List.nil_append, List.cons_append]
  have whole : ∀ (blanks : Blanks) rest, behind.ahead = blanks.val ++ rest →
      lexer.ahead = (member blanks).bytes ++ rest := by
    intro blanks rest ahead
    rw [member_bytes, ← ahead, ← valueAhead, ← colonAhead]
    exact keyAhead
  -- The brace, or a comma and further members.
  rcases passesSeparator.separator with isEnd | ⟨isComma, passesKey, afterComma⟩
  · obtain ⟨blanks, blank, ahead⟩ := Lexer.exists_blanks_of_mark brace isEnd
    refine ⟨[member ⟨[], List.forall_mem_nil _⟩], false, ⟨blanks, blank⟩,
      fun trails => (by cases trails), ?_⟩
    rw [whole ⟨[], List.forall_mem_nil _⟩ _ ahead, afterMembers, decodeMembers_end isEnd rfl,
      closedText, membersText, List.map_cons, List.map_nil, List.intercalate_singleton]
    rfl
  · obtain ⟨blanks, blank, ahead⟩ := Lexer.exists_blanks_of_mark comma isComma
    have wholeComma := whole ⟨blanks, blank⟩ _ ahead
    have shorter : behind.scan.lexer.ahead.length < lexer.ahead.length := by
      rw [wholeComma, List.length_append, List.length_cons]
      omega
    obtain ⟨members, trailing, beforeEnd, settled, following⟩ := passesKey.exists_closedText
    rw [afterComma, wholeComma, following]
    cases members with
    | nil =>
        have noComma : trailing = false := by
          rw [← Bool.not_eq_true]
          exact fun trails => settled trails rfl
        refine ⟨[member ⟨blanks, blank⟩], true, beforeEnd, fun _ => List.cons_ne_nil _ _, ?_⟩
        rw [noComma, closedText, closedText, membersText, membersText, List.map_cons,
          List.map_nil, List.intercalate_singleton]
        rfl
    | cons next members =>
        refine ⟨member ⟨blanks, blank⟩ :: next :: members, trailing, beforeEnd,
          fun _ => List.cons_ne_nil _ _, ?_⟩
        rw [closedText, closedText, membersText, membersText, List.map_cons, List.map_cons,
          List.map_cons, List.intercalate_cons_cons]
        simp only [List.append_assoc, List.cons_append, List.nil_append]
termination_by lexer.ahead.length

end

/-- **Every text of a value that begins with a brace is the text of an object.** -/
theorem exists_objectText {text : Bytes} (isText : IsValueText text)
    (isStart : (Lexeme.ofText text).token = .objectStart) :
    ∃ object : ObjectText, object.bytes = text := by
  obtain ⟨skipped, finished⟩ := isText
  have start : (Lexer.ofBytes text).scan.token = .objectStart := isStart
  obtain ⟨before, blank, ahead⟩ := Lexer.exists_blanks_of_mark
    (show Scanned.punctuation? Ascii.openBrace = some .objectStart by decide) start
  have members : skipText text = skipMembers .key (Lexeme.ofText text).lexer.body := by
    rw [skipText, isStart, Lexer.skipValue, Lexer.tree, if_pos (by rfl), skipTree]
    exact if_pos rfl
  have same := skipMembers_hollow (Lexeme.ofText text).lexer.body .key
  rw [members] at skipped finished
  have passes : PassesMembers .key (Lexeme.ofText text).lexer :=
    same.error_eq_none_iff.mpr skipped
  obtain ⟨members, trailing, beforeEnd, settled, closed⟩ := passes.exists_closedText
  obtain ⟨behind, blankBehind, -, aheadBehind⟩ := Lexer.finish_iff.mp finished
  have last : afterMembers .key (Lexeme.ofText text).lexer =
      (skipMembers .key (Lexeme.ofText text).lexer.body).lexer := (same.alike skipped).symm
  refine ⟨⟨⟨before, blank⟩, members, trailing, beforeEnd, ⟨behind, blankBehind⟩, settled⟩, ?_⟩
  rw [last, aheadBehind, List.append_nil] at closed
  exact (ahead.trans (congrArg (before ++ Ascii.openBrace :: ·) closed)).symm

end ChatCodec
