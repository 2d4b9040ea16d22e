import ChatCodec.Entity.Catalog
import ChatCodec.Proofs.Lexer.Runs
import ChatCodec.Streaming.Decode

/-!
# Decoding and skipping read alike

Three readers go over the tokens of a value: the decoder of entities, the decoder of
sequences, and the skipper.  A decoder passes like a skipper (`Outcome.PassesLike`) if
whenever it succeeds the skipper does, and both leave the lexer in the same state.

The outcomes that decoding is put together from preserve this, and so it holds of every
shape of every catalog, by induction over the nesting of the tokens
(`decodeTree_passesLike`).  Descending into optional values is an induction over shapes,
since it takes no token (`decodeLeaf_passesLike`, `decodeGroup_passesLike`).

Whether a key is known thus has no influence on where the rest of an object is read from
(`decode_passes_like_skip`).
-/

namespace ChatCodec

set_option autoImplicit false

/-! ## Outcomes -/

namespace Outcome

variable {Value Other : Type}

/-- If the outcome is a success, the skipper succeeds too and leaves the lexer alike. -/
def PassesLike (outcome : Outcome Value) (skipped : Outcome Unit) : Prop :=
  outcome.error = none → skipped = .done () outcome.lexer

variable {outcome : Outcome Value} {skipped : Outcome Unit}

theorem PassesLike.done (value : Value) (lexer : Lexer) :
    (Outcome.done value lexer).PassesLike (.done () lexer) :=
  fun _ => rfl

theorem PassesLike.fail (value : Value) (error : DecodeError) (lexer : Lexer) :
    (Outcome.fail value error lexer).PassesLike skipped :=
  fun succeeded => by cases succeeded

theorem PassesLike.refuse (value : Value) (lexeme : Lexeme) (wanted : Wanted) :
    (Outcome.refuse value lexeme wanted).PassesLike skipped :=
  .fail value _ _

theorem PassesLike.map (passes : outcome.PassesLike skipped) (wrap : Value → Other) :
    (outcome.map wrap).PassesLike skipped :=
  passes

theorem PassesLike.note (passes : outcome.PassesLike skipped) (event : Event) :
    (outcome.note event).PassesLike skipped :=
  passes

theorem PassesLike.replace (passes : outcome.PassesLike skipped) (before : Other)
    (wrap : Value → Other) : (outcome.replace before wrap).PassesLike skipped := by
  rw [Outcome.replace]
  split <;> exact passes.map _

@[simp] theorem follow_done (value : Value) (lexer : Lexer) (left : Value → Other)
    (next : Value → Lexer → Outcome Other) :
    (Outcome.done value lexer).follow left next = next value lexer := rfl

/-- A step behind another passes like a skipper behind another. -/
theorem PassesLike.follow (passes : outcome.PassesLike skipped) {left : Value → Other}
    {next : Value → Lexer → Outcome Other} {skippedNext : Outcome Unit}
    (passesNext : ∀ value lexer, (next value lexer).PassesLike skippedNext) :
    (outcome.follow left next).PassesLike (skipped.follow id fun _ _ => skippedNext) := by
  intro succeeded
  obtain ⟨value, events, error, lexer⟩ := outcome
  cases error with
  | none =>
      rw [passes rfl, follow_done]
      exact passesNext value lexer succeeded
  | some error => cases succeeded

end Outcome

open Outcome (PassesLike)

/-! ## Skipping notes nothing -/

theorem Outcome.events_follow {Value Other : Type} {outcome : Outcome Value} {left : Value → Other}
    {next : Value → Lexer → Outcome Other} (quiet : outcome.events = [])
    (quietNext : ∀ value lexer, (next value lexer).events = []) :
    (outcome.follow left next).events = [] := by
  obtain ⟨value, events, error, lexer⟩ := outcome
  cases quiet
  cases error with
  | none => exact quietNext value lexer
  | some error => rfl

mutual

theorem events_skipTree : ∀ tree : Tree Lexeme, (skipTree tree).events = []
  | .leaf lexeme => by
      rw [skipTree]
      split <;> rfl
  | .group opening body => by
      rw [skipTree]
      split
      · exact events_skipMembers body .key
      · exact events_skipItems body .item

theorem events_skipMembers : ∀ (body : Body Lexeme) (place : MemberPlace),
    (skipMembers place body).events = []
  | .close ending, place => by
      rw [skipMembers]
      split <;> rfl
  | .more tree rest, place => by
      rw [skipMembers.eq_def]
      cases place with
      | key =>
          simp only
          split
          · exact events_skipMembers rest .colon
          · rfl
      | colon =>
          simp only
          split
          · exact events_skipMembers rest .value
          · rfl
      | value =>
          simp only
          split
          · exact Outcome.events_follow (events_skipTree tree)
              fun _ _ => events_skipMembers rest .separator
          · rfl
      | separator =>
          simp only
          split
          · exact events_skipMembers rest .key
          · rfl

theorem events_skipItems : ∀ (body : Body Lexeme) (place : ItemPlace),
    (skipItems place body).events = []
  | .close ending, place => by
      rw [skipItems]
      split <;> rfl
  | .more tree rest, place => by
      rw [skipItems.eq_def]
      cases place with
      | item =>
          simp only
          split
          · exact Outcome.events_follow (events_skipTree tree)
              fun _ _ => events_skipItems rest .separator
          · rfl
      | separator =>
          simp only
          split
          · exact events_skipItems rest .item
          · rfl

end

/-- Skipping passes like itself. -/
theorem skipTree_passesLike (tree : Tree Lexeme) : (skipTree tree).PassesLike (skipTree tree) := by
  intro succeeded
  have quiet := events_skipTree tree
  revert succeeded quiet
  generalize skipTree tree = skipped
  intro succeeded quiet
  obtain ⟨value, events, error, lexer⟩ := skipped
  cases succeeded
  cases quiet
  rfl

/-! ## Scalars -/

theorem skipTree_of_isScalar {lexeme : Lexeme} (scalar : lexeme.token.isScalar = true) :
    skipTree (.leaf lexeme) = .done () lexeme.lexer := by
  rw [skipTree, if_pos scalar]

theorem Token.isScalar_of_isOpening {token : Token} (opens : token.isOpening = true) :
    token.isScalar = false := by
  cases token <;> first | rfl | cases opens

/-- A scalar token is skipped by itself. -/
theorem Lexer.skipValue_of_isScalar {token : Token} (scalar : token.isScalar = true)
    (lexer : Lexer) : lexer.skipValue token = .done () lexer := by
  have closed : ¬ token.isOpening = true := by
    intro opens
    rw [Token.isScalar_of_isOpening opens] at scalar
    cases scalar
  rw [skipValue, tree, if_neg closed]
  exact skipTree_of_isScalar scalar

theorem Scalar.isScalar_of_accepts {kind : Scalar} {token : Token}
    (accepted : kind.accepts token = true) : token.isScalar = true := by
  cases token <;> first | rfl | (cases kind <;> cases accepted)

/-- Opaque JSON is skipped to begin with. -/
theorem decodeOpaque_passesLike (tree : Tree Lexeme) (before : Json.Value) :
    (decodeOpaque tree before).PassesLike (skipTree tree) := by
  intro succeeded
  have quiet := skipTree_passesLike tree
  rw [decodeOpaque] at succeeded ⊢
  revert succeeded quiet
  generalize skipTree tree = skipped
  intro succeeded quiet
  obtain ⟨value, events, error, lexer⟩ := skipped
  cases error with
  | some error => cases succeeded
  | none =>
      rw [quiet rfl] at succeeded ⊢
      rw [Outcome.follow_done] at succeeded ⊢
      simp only [Outcome.done] at succeeded ⊢
      split at succeeded
      · rfl
      · cases succeeded

/-- Any other scalar is read from one token. -/
theorem Scalar.decode_of_ne {kind : Scalar} (differs : kind ≠ .opaqueJson) (tree : Tree Lexeme)
    (before : kind.Carrier) :
    kind.decode tree before =
      if tree.head.token = .null then .done before tree.head.lexer
      else if kind.accepts tree.head.token then
        match Scalar.read tree.head.lexer tree.head.token kind with
        | .ok value => .done value tree.head.lexer
        | .error error => .fail before error tree.head.lexer
      else .fail before (tree.head.lexer.mismatch kind.title tree.head.token) tree.head.lexer := by
  cases kind <;> first | rfl | exact absurd rfl differs

/-- A scalar passes like a skipper, if a scalar token is skipped by itself. -/
theorem Scalar.decode_passesLike (kind : Scalar) (before : kind.Carrier) {tree : Tree Lexeme}
    (alone : tree.head.token.isScalar = true → skipTree tree = .done () tree.head.lexer) :
    (kind.decode tree before).PassesLike (skipTree tree) := by
  by_cases opaqueJson : kind = .opaqueJson
  · subst opaqueJson
    exact decodeOpaque_passesLike tree before
  rw [Scalar.decode_of_ne opaqueJson]
  by_cases null : tree.head.token = .null
  · rw [if_pos null, alone (by rw [null]; rfl)]
    exact .done before _
  rw [if_neg null]
  by_cases accepted : kind.accepts tree.head.token = true
  · rw [if_pos accepted, alone (isScalar_of_accepts accepted)]
    cases Scalar.read tree.head.lexer tree.head.token kind with
    | ok value => exact .done value _
    | error error => exact .fail before error _
  · rw [if_neg accepted]
    exact .fail before _ _

/-! ## Values -/

section

variable {C : Catalog} {matching : KeyMatching}

/-- A value of one token passes like a skipper. -/
theorem decodeLeaf_passesLike (lexeme : Lexeme) : ∀ (shape : C.Shape) (before : C.Value shape),
    (decodeLeaf C lexeme shape before).PassesLike (skipTree (.leaf lexeme))
  | .scalar kind, .scalar before => by
      rw [decodeLeaf]
      exact (kind.decode_passesLike before skipTree_of_isScalar).map _
  | .option inner, before => by
      rw [decodeLeaf]
      by_cases null : lexeme.token = .null
      · rw [if_pos null, skipTree_of_isScalar (by rw [null]; rfl)]
        exact .done _ _
      · rw [if_neg null]
        exact (decodeLeaf_passesLike lexeme inner (C.blank inner)).replace before _
  | .list _, before => by
      rw [decodeLeaf]
      by_cases null : lexeme.token = .null
      · rw [if_pos null, skipTree_of_isScalar (by rw [null]; rfl)]
        exact .done _ _
      · rw [if_neg null]
        exact .fail before _ _
  | .entity name, before => by
      rw [decodeLeaf]
      by_cases null : lexeme.token = .null
      · rw [if_pos null, skipTree_of_isScalar (by rw [null]; rfl)]
        exact .done _ _
      · rw [if_neg null]
        exact .fail before _ _

/-- A value with a body passes like a skipper, if its members or its items do. -/
theorem decodeGroup_passesLike {opening : Lexeme} {body : Body Lexeme}
    (opens : opening.token.isOpening = true)
    {members : (name : C.Name) → C.Entity name → Outcome (C.Entity name)}
    {items : (inner : C.Shape) → Outcome (C.Sequence inner)}
    (passesMembers : ∀ name record, (members name record).PassesLike (skipMembers .key body))
    (passesItems : ∀ inner, (items inner).PassesLike (skipItems .item body)) :
    ∀ (shape : C.Shape) (before : C.Value shape),
      (decodeGroup C opening body members items shape before).PassesLike
        (skipTree (.group opening body))
  | .scalar kind, .scalar before => by
      rw [decodeGroup]
      refine (kind.decode_passesLike before fun scalar => ?_).map _
      exact absurd (scalar.symm.trans (Token.isScalar_of_isOpening opens)) (by decide)
  | .option inner, before => by
      rw [decodeGroup]
      exact (decodeGroup_passesLike opens passesMembers passesItems inner
        (C.blank inner)).replace before _
  | .list inner, before => by
      rw [decodeGroup, skipTree]
      by_cases array : opening.token = .arrayStart
      · rw [if_pos array, if_neg (by rw [array]; decide)]
        exact (passesItems inner).map _
      · rw [if_neg array]
        exact .fail before _ _
  | .entity name, .entity before => by
      rw [decodeGroup, skipTree]
      by_cases object : opening.token = .objectStart
      · rw [if_pos object, if_pos object]
        exact (passesMembers name before).map _
      · rw [if_neg object]
        exact .fail _ _ _

/-- Decoding into a field passes like a skipper, also where there is no such field. -/
theorem Record.decodeAt_passesLike {tree : Tree Lexeme}
    {decode : (shape : C.Shape) → C.Value shape → Outcome (C.Value shape)}
    (passes : ∀ shape before, (decode shape before).PassesLike (skipTree tree)) :
    ∀ {list : List (Field C.Name)} (index : Nat) (record : C.Record list),
      (record.decodeAt tree decode index).PassesLike (skipTree tree)
  | [], _, .nil => by
      rw [Record.decodeAt]
      exact (skipTree_passesLike tree).map _
  | field :: _, 0, .cons head _ => by
      rw [Record.decodeAt]
      exact (passes field.shape head).map _
  | _ :: _, index + 1, .cons _ tail => by
      rw [Record.decodeAt]
      exact (tail.decodeAt_passesLike passes index).map _

mutual

/-- **Decoding passes like skipping**, for a value whose groups are opened. -/
theorem decodeTree_passesLike : ∀ {tree : Tree Lexeme},
    tree.IsOpened (fun lexeme => lexeme.token.role) →
      ∀ (shape : C.Shape) (before : C.Value shape),
        (decodeTree C matching tree shape before).PassesLike (skipTree tree)
  | .leaf lexeme, _, shape, before => by
      rw [decodeTree]
      exact decodeLeaf_passesLike lexeme shape before
  | .group opening body, opened, shape, before => by
      rw [Tree.IsOpened] at opened
      rw [decodeTree]
      exact decodeGroup_passesLike (Token.isOpening_of_role opened.1)
        (fun name record => decodeMembers_passesLike opened.2 name .key none record)
        (fun inner => decodeItems_passesLike opened.2 inner .item) shape before

theorem decodeMembers_passesLike : ∀ {body : Body Lexeme},
    body.IsOpened (fun lexeme => lexeme.token.role) →
      ∀ (name : C.Name) (place : MemberPlace) (current : Option Nat) (record : C.Entity name),
        (decodeMembers C matching body name place current record).PassesLike
          (skipMembers place body)
  | .close ending, _, name, place, current, record => by
      rw [decodeMembers, skipMembers]
      split
      · exact .done _ _
      · exact .refuse _ _ _
  | .more tree rest, opened, name, place, current, record => by
      rw [Body.IsOpened] at opened
      rw [decodeMembers.eq_def, skipMembers.eq_def]
      cases place with
      | key =>
          simp only
          split
          · split
            · exact decodeMembers_passesLike opened.2 name .colon _ record
            · exact (decodeMembers_passesLike opened.2 name .colon none record).note _
          · exact .refuse _ _ _
      | colon =>
          simp only
          split
          · exact decodeMembers_passesLike opened.2 name .value current record
          · exact .refuse _ _ _
      | value =>
          simp only
          split
          · refine PassesLike.follow ?_ fun record _ =>
              decodeMembers_passesLike opened.2 name .separator none record
            cases current with
            | none => exact (skipTree_passesLike tree).map _
            | some index =>
                exact record.decodeAt_passesLike (decodeTree_passesLike opened.1) index
          · exact .refuse _ _ _
      | separator =>
          simp only
          split
          · exact decodeMembers_passesLike opened.2 name .key none record
          · exact .refuse _ _ _

theorem decodeItems_passesLike : ∀ {body : Body Lexeme},
    body.IsOpened (fun lexeme => lexeme.token.role) →
      ∀ (inner : C.Shape) (place : ItemPlace),
        (decodeItems C matching body inner place).PassesLike (skipItems place body)
  | .close ending, _, inner, place => by
      rw [decodeItems, skipItems]
      split
      · exact .done _ _
      · exact .refuse _ _ _
  | .more tree rest, opened, inner, place => by
      rw [Body.IsOpened] at opened
      rw [decodeItems.eq_def, skipItems.eq_def]
      cases place with
      | item =>
          simp only
          split
          · refine PassesLike.follow (decodeTree_passesLike opened.1 inner (C.blank inner))
              fun head _ => ?_
            exact (decodeItems_passesLike opened.2 inner .separator).map _
          · exact .refuse _ _ _
      | separator =>
          simp only
          split
          · exact decodeItems_passesLike opened.2 inner .item
          · exact .refuse _ _ _

end

/-! ## Lexers -/

/-- The values that a lexer has before it have opened groups. -/
theorem Lexer.isOpened_tree (lexer : Lexer) (token : Token) :
    (lexer.tree token).IsOpened (fun lexeme => lexeme.token.role) := by
  rw [Lexer.tree]
  by_cases opens : token.isOpening = true
  · rw [if_pos opens, Tree.IsOpened]
    exact ⟨by rw [Token.role, if_pos opens], (Body.isOpened_levels _ _ _).1⟩
  · rw [if_neg opens, Tree.IsOpened]
    trivial

end

/-- **Decoding and skipping consume the same bytes.**  Whatever is decoded by whatever
configuration into whatever value, and also if it is decoded into a field of an entity by
the field's number: if that succeeds, skipping the value from the same state succeeds as
well, and leaves the lexer in the same state. -/
theorem decode_passes_like_skip (C : Catalog) (matching : KeyMatching) (lexer : Lexer)
    (token : Token) :
    (∀ (shape : C.Shape) (before : C.Value shape),
      (decodeInto C matching before lexer token).error = none →
        (lexer.skipValue token).error = none ∧
          (lexer.skipValue token).lexer = (decodeInto C matching before lexer token).lexer) ∧
    ∀ (name : C.Name) (before : C.Entity name) (index : Nat),
      (decodeField C matching before index lexer token).error = none →
        (lexer.skipValue token).error = none ∧
          (lexer.skipValue token).lexer =
            (decodeField C matching before index lexer token).lexer := by
  have passes := @decodeTree_passesLike C matching _ (lexer.isOpened_tree token)
  refine ⟨?_, ?_⟩
  · intro shape before succeeded
    have same := passes shape before succeeded
    exact ⟨congrArg Outcome.error same, congrArg Outcome.lexer same⟩
  · intro name before index succeeded
    have same := before.decodeAt_passesLike passes index succeeded
    exact ⟨congrArg Outcome.error same, congrArg Outcome.lexer same⟩

/-- The lexer behind the bracket of a list of stickers, with a member that no field has, a
comma too many, and a `null`. -/
def stickersAhead : Lexeme :=
  (Lexer.ofBytes (bytesOf "[\x7b\"id\":\"1\",\"x\":[2,],\x7d,null] ")).scan

/-- The list of stickers is passed alike by itself and as a field of a message. -/
theorem decode_passes_like_skip_stickers :
    (stickersAhead.lexer.skipValue stickersAhead.token).error = none ∧
      (stickersAhead.lexer.skipValue stickersAhead.token).lexer =
        (decodeInto Chat .lenient (Chat.blank (.list (.entity .stickerItem)))
          stickersAhead.lexer stickersAhead.token).lexer ∧
      (stickersAhead.lexer.skipValue stickersAhead.token).lexer =
        (decodeField Chat .exact (Chat.blankEntity .message) 27
          stickersAhead.lexer stickersAhead.token).lexer := by
  have alone :=
    (decode_passes_like_skip Chat .lenient stickersAhead.lexer stickersAhead.token).1
      (.list (.entity .stickerItem)) (Chat.blank _) (by decide +kernel)
  have inField :=
    (decode_passes_like_skip Chat .exact stickersAhead.lexer stickersAhead.token).2
      .message (Chat.blankEntity .message) 27 (by decide +kernel)
  exact ⟨alone.1, alone.2, inField.2⟩

end ChatCodec
