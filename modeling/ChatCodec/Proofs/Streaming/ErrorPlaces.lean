import ChatCodec.Proofs.Lexer.Scans
import ChatCodec.Proofs.Streaming.Skipping

/-!
# Where errors point

An error names a token and an offset, and may show what was captured for the token.  All of
this is taken from the lexer as it stands where decoding stops; a lexer that has gone on in the
meantime would give the right words at the wrong place.

The main result is that this never happens: every error of a payload points at one of its scans
(`DecodeError.PointsAt`, `decode_error_points`).  The invariant behind it belongs to outcomes.
An outcome is placed in a payload if the lexer stands where scanning the payload leads to, and
the error, if there is one, points at a scan (`Outcome.IsPlaced`).  Every operation that outcomes
are put together from keeps to it, and so do the skipper and the decoder, by induction over
values all of whose tokens are scans.
-/

namespace ChatCodec

set_option autoImplicit false

/-! ## Pointing at a scan -/

/-- The tokens that are marks of the grammar. -/
def Token.isStructural : Token → Bool
  | .objectStart | .objectEnd | .arrayStart | .arrayEnd | .colon | .comma => true
  | _ => false

namespace Cause

/-- The token that a cause says was found. -/
def found? : Cause → Option Token
  | misplaced _ found | mismatch _ found => some found
  | _ => none

/-- An error of the common form may have the cause at a token of that kind. -/
def Suits (token : Token) : Cause → Prop
  | misplaced _ found | mismatch _ found => found = token
  | malformed _ | rejected (.timestamp _) => True
  | rejected (.json _) | lexical _ => False

end Cause

namespace DecodeError

/-- **The error points at a scan of the payload.**  It has the offset and the token of the scan,
and shows what was captured there, unless the token is a mark or the end or the text is no UTF-8.
Opaque JSON that the strict reader refuses shows the bytes of the value instead, which begins at
the offset. -/
structure PointsAt (payload : Bytes) (error : DecodeError) (lexeme : Lexeme) : Prop where
  offset_eq : error.offset = lexeme.lexer.start
  token_eq : error.token = lexeme.token
  found_eq : ∀ found, error.cause.found? = some found → found = lexeme.token
  output_eq : (∀ fault, error.cause ≠ .rejected (.json fault)) →
    error.output =
      if lexeme.token.isStructural = true ∨ lexeme.token = .eof ∨
          error.cause = .lexical .invalidUtf8 then none
      else some (shownOutput lexeme.lexer.output)
  raw_eq : ∀ fault, error.cause = .rejected (.json fault) →
    ∃ raw, (lexeme.lexer.captureValue lexeme.token).result = .ok raw ∧
      raw <+: payload.drop error.offset ∧ error.output = some (shownOutput raw)

/-- The error points at some scan of the payload. -/
def Points (payload : Bytes) (error : DecodeError) : Prop :=
  ∃ count, error.PointsAt payload ((Lexer.ofBytes payload).nthScan count)

end DecodeError

open DecodeError (Points PointsAt)

section

variable {payload : Bytes} {lexeme : Lexeme}

theorem DecodeError.PointsAt.points {error : DecodeError} (points : error.PointsAt payload lexeme)
    (isScan : lexeme.IsScanOf payload) : error.Points payload := by
  obtain ⟨count, rfl⟩ := isScan
  exact ⟨count, points⟩

/-! ## The errors of a lexer -/

theorem Token.isScalar_iff {token : Token} (genuine : token ≠ .error) :
    token.isScalar = true ↔ ¬ (token.isStructural = true ∨ token = .eof) := by
  cases token <;> first | exact absurd rfl genuine | decide

/-- An error of the common form points at the token read last. -/
theorem Lexeme.IsScanOf.errorAt (isScan : lexeme.IsScanOf payload)
    (genuine : lexeme.token ≠ .error) {cause : Cause} (suits : cause.Suits lexeme.token) :
    (lexeme.lexer.errorAt cause lexeme.token).Points payload := by
  refine PointsAt.points ⟨rfl, rfl, ?_, ?_, ?_⟩ isScan
  · intro found same
    cases cause <;> cases same <;> exact suits
  · intro _
    have noFault : cause ≠ .lexical .invalidUtf8 := by
      rintro rfl
      exact suits
    rw [Lexer.errorAt]
    simp only [noFault, or_false]
    by_cases scalar : lexeme.token.isScalar = true
    · rw [if_pos scalar, if_neg ((Token.isScalar_iff genuine).mp scalar)]
    · rw [if_neg scalar, if_pos (not_not.mp fun shown => scalar
        ((Token.isScalar_iff genuine).mpr shown))]
  · rintro fault rfl
    exact suits.elim

/-- The error of a fault points at the error token. -/
theorem Lexeme.IsScanOf.faultError (isScan : lexeme.IsScanOf payload)
    (isError : lexeme.token = .error) : lexeme.lexer.faultError.Points payload := by
  refine PointsAt.points ⟨rfl, isError.symm, ?_, ?_, ?_⟩ isScan
  · intro found same
    cases same
  · intro _
    have other := isScan.isReached.keeps.fault_ne
    have noUtf8 : lexeme.lexer.faultError.cause ≠ .lexical .invalidUtf8 := by
      intro same
      have isReason : lexeme.lexer.fault.getD .unexpectedEof = .invalidUtf8 :=
        Cause.lexical.inj same
      cases fault : lexeme.lexer.fault with
      | none =>
          rw [fault] at isReason
          cases isReason
      | some reason =>
          rw [fault] at isReason other
          exact other (congrArg some isReason)
    rw [if_neg (by rw [isError]; simp only [noUtf8]; decide)]
    rfl
  · intro fault same
    cases same

/-- The error of a text that is no UTF-8 points at the text. -/
theorem Lexeme.IsScanOf.outputText (isScan : lexeme.IsScanOf payload)
    (isString : lexeme.token = .string) {error : DecodeError}
    (refused : lexeme.lexer.outputText = .error error) : error.Points payload := by
  rw [Lexer.outputText] at refused
  split at refused
  · cases refused
  · cases refused
    refine PointsAt.points ⟨rfl, isString.symm, ?_, ?_, ?_⟩ isScan
    · intro found same
      cases same
    · intro _
      rw [if_pos (.inr (.inr rfl))]
    · intro fault same
      cases same

/-- What stands where something else is wanted is pointed at. -/
theorem Lexeme.IsScanOf.refuse (isScan : lexeme.IsScanOf payload) (wanted : Wanted) :
    (lexeme.refuse wanted).Points payload := by
  rw [Lexeme.refuse]
  by_cases isError : lexeme.token = .error
  · rw [if_pos isError]
    exact isScan.faultError isError
  · rw [if_neg isError]
    exact isScan.errorAt isError rfl

/-! ## Outcomes -/

namespace Outcome

variable {Value Other : Type}

/-- **The outcome has its place in the payload**: the lexer is one that scanning the payload leads
to, and an error points at a scan. -/
structure IsPlaced (payload : Bytes) (outcome : Outcome Value) : Prop where
  isReached : outcome.lexer.IsReached payload
  points : ∀ error, outcome.error = some error → error.Points payload

variable {outcome : Outcome Value} {lexer : Lexer}

theorem IsPlaced.done (value : Value) (reached : lexer.IsReached payload) :
    (Outcome.done value lexer).IsPlaced payload :=
  ⟨reached, fun error same => by cases same⟩

theorem IsPlaced.fail (value : Value) {error : DecodeError} (points : error.Points payload)
    (reached : lexer.IsReached payload) : (Outcome.fail value error lexer).IsPlaced payload := by
  refine ⟨reached, fun other same => ?_⟩
  cases same
  exact points

theorem IsPlaced.refuse (value : Value) (isScan : lexeme.IsScanOf payload) (wanted : Wanted) :
    (Outcome.refuse value lexeme wanted).IsPlaced payload :=
  .fail value (isScan.refuse wanted) isScan.isReached

theorem IsPlaced.map (placed : outcome.IsPlaced payload) (wrap : Value → Other) :
    (outcome.map wrap).IsPlaced payload :=
  ⟨placed.isReached, placed.points⟩

theorem IsPlaced.note (placed : outcome.IsPlaced payload) (event : Event) :
    (outcome.note event).IsPlaced payload :=
  ⟨placed.isReached, placed.points⟩

theorem IsPlaced.replace (placed : outcome.IsPlaced payload) (before : Other)
    (wrap : Value → Other) : (outcome.replace before wrap).IsPlaced payload := by
  rw [Outcome.replace]
  split <;> exact placed.map _

/-- A second step is placed from where the first has left off. -/
theorem IsPlaced.follow (placed : outcome.IsPlaced payload) {left : Value → Other}
    {next : Value → Lexer → Outcome Other}
    (following : outcome.error = none → (next outcome.value outcome.lexer).IsPlaced payload) :
    (outcome.follow left next).IsPlaced payload := by
  cases ended : outcome.error with
  | none =>
      rw [Outcome.follow, ended]
      exact ⟨(following ended).isReached, (following ended).points⟩
  | some error =>
      rw [Outcome.follow, ended]
      exact placed.map left

end Outcome

open Outcome (IsPlaced)

/-! ## Skipping -/

mutual

/-- Skipping stays within the scans of a payload. -/
theorem Tree.IsScanned.skipTree : ∀ {tree : Tree Lexeme}, tree.IsScanned payload →
    (skipTree tree).IsPlaced payload
  | .leaf lexeme, scanned => by
      rw [Tree.IsScanned] at scanned
      rw [ChatCodec.skipTree]
      split
      · exact .done () scanned.1.isReached
      · exact .refuse () scanned.1 .value
  | .group opening body, scanned => by
      rw [Tree.IsScanned] at scanned
      rw [ChatCodec.skipTree]
      split
      · exact scanned.2.2.2.skipMembers .key
      · exact scanned.2.2.2.skipItems .item

theorem Body.IsScanned.skipMembers : ∀ {body : Body Lexeme}, body.IsScanned payload →
    ∀ place : MemberPlace, (skipMembers place body).IsPlaced payload
  | .close ending, scanned, place => by
      rw [Body.IsScanned] at scanned
      rw [ChatCodec.skipMembers]
      split
      · exact .done () scanned.isReached
      · exact .refuse () scanned place.wanted
  | .more tree rest, scanned, place => by
      rw [Body.IsScanned] at scanned
      obtain ⟨within, further⟩ := scanned
      rw [skipMembers.eq_def]
      cases place with
      | key =>
          simp only
          split
          · exact further.skipMembers .colon
          · exact .refuse () within.head _
      | colon =>
          simp only
          split
          · exact further.skipMembers .value
          · exact .refuse () within.head _
      | value =>
          simp only
          split
          · exact within.skipTree.follow fun _ => further.skipMembers .separator
          · exact .refuse () within.head _
      | separator =>
          simp only
          split
          · exact further.skipMembers .key
          · exact .refuse () within.head _

theorem Body.IsScanned.skipItems : ∀ {body : Body Lexeme}, body.IsScanned payload →
    ∀ place : ItemPlace, (skipItems place body).IsPlaced payload
  | .close ending, scanned, place => by
      rw [Body.IsScanned] at scanned
      rw [ChatCodec.skipItems]
      split
      · exact .done () scanned.isReached
      · exact .refuse () scanned place.wanted
  | .more tree rest, scanned, place => by
      rw [Body.IsScanned] at scanned
      obtain ⟨within, further⟩ := scanned
      rw [skipItems.eq_def]
      cases place with
      | item =>
          simp only
          split
          · exact within.skipTree.follow fun _ => further.skipItems .separator
          · exact .refuse () within.head _
      | separator =>
          simp only
          split
          · exact further.skipItems .item
          · exact .refuse () within.head _

end

/-- Only white space behind a value is left unmentioned. -/
theorem Lexer.IsReached.finishWith {lexer : Lexer} (reached : lexer.IsReached payload)
    {Value : Type} (value : Value) : (finishWith value lexer).IsPlaced payload := by
  rw [ChatCodec.finishWith, Lexer.finish]
  refine IsPlaced.map ?_ _
  split
  · exact .done () reached.scan.isReached
  · exact .refuse () reached.scan _

/-! ## Scalars -/

theorem Scalar.ne_error_of_accepts {kind : Scalar} {token : Token}
    (accepted : kind.accepts token = true) : token ≠ .error := by
  rintro rfl
  cases isScalar_of_accepts accepted

/-- Texts and timestamps are read from strings only. -/
theorem Scalar.eq_string_of_accepts {kind : Scalar} {token : Token}
    (textual : kind = .text ∨ kind = .timestamp) (accepted : kind.accepts token = true) :
    token = .string := by
  rcases textual with rfl | rfl <;> cases token <;> first | rfl | cases accepted

/-- A scalar that cannot be read is pointed at. -/
theorem Lexeme.IsScanOf.read (isScan : lexeme.IsScanOf payload) {kind : Scalar}
    (accepted : kind.accepts lexeme.token = true) {error : DecodeError}
    (refused : Scalar.read lexeme.lexer lexeme.token kind = .error error) :
    error.Points payload := by
  have genuine := Scalar.ne_error_of_accepts accepted
  have malformed : ∀ {Value : Type} {title : String} {value : Option Value},
      lexeme.lexer.orMalformed title lexeme.token value = .error error → error.Points payload := by
    intro Value title value refused
    cases value with
    | some value => cases refused
    | none =>
        cases refused
        exact isScan.errorAt genuine trivial
  cases kind with
  | text => exact isScan.outputText (Scalar.eq_string_of_accepts (.inl rfl) accepted) refused
  | timestamp =>
      rw [Scalar.read, Lexer.readTimestamp] at refused
      split at refused
      · next noText =>
          cases refused
          exact isScan.outputText (Scalar.eq_string_of_accepts (.inr rfl) accepted) noText
      · split at refused
        · cases refused
        · cases refused
          exact isScan.errorAt genuine trivial
  | opaqueJson => cases token : lexeme.token <;> rw [token] at accepted <;> cases accepted
  | bool => exact malformed refused
  | integer width => exact malformed refused
  | id resource => exact malformed refused
  | flags => exact malformed refused
  | code kind => exact malformed refused

/-- Opaque JSON that is refused begins where the error points. -/
theorem Tree.IsScanned.decodeOpaque {tree : Tree Lexeme} (scanned : tree.IsScanned payload)
    (before : Json.Value) : (decodeOpaque tree before).IsPlaced payload := by
  have skipped := scanned.skipTree
  rw [ChatCodec.decodeOpaque]
  refine skipped.follow fun succeeded => ?_
  dsimp only
  split
  · exact .done _ skipped.isReached
  · refine .fail before (PointsAt.points ⟨rfl, rfl, ?_, ?_, ?_⟩ scanned.head) skipped.isReached
    · intro found same
      cases same
    · intro other
      exact absurd rfl (other _)
    · intro _ _
      refine ⟨tree.head.lexer.rawTo (ChatCodec.skipTree tree).lexer, ?_, ?_, rfl⟩
      · rw [Lexer.captureValue, Lexer.skipValue, ← scanned.eq_tree, Outcome.result, Outcome.map]
        simp only [succeeded]
      · rw [Lexer.rawTo, ← scanned.head.isReached.keeps.fromStart_eq]
        exact List.take_prefix _ _

/-- A scalar that is refused is pointed at. -/
theorem Tree.IsScanned.decodeScalar {tree : Tree Lexeme} (scanned : tree.IsScanned payload)
    (genuine : tree.head.token ≠ .error) (kind : Scalar) (before : kind.Carrier) :
    (kind.decode tree before).IsPlaced payload := by
  by_cases opaqueJson : kind = .opaqueJson
  · subst opaqueJson
    exact scanned.decodeOpaque before
  have reached := scanned.head.isReached
  rw [Scalar.decode_of_ne opaqueJson]
  by_cases null : tree.head.token = .null
  · rw [if_pos null]
    exact .done before reached
  rw [if_neg null]
  by_cases accepted : kind.accepts tree.head.token = true
  · rw [if_pos accepted]
    cases read : Scalar.read tree.head.lexer tree.head.token kind with
    | ok value => exact .done value reached
    | error error => exact .fail before (scanned.head.read accepted read) reached
  · rw [if_neg accepted]
    exact .fail before (scanned.head.errorAt genuine rfl) reached

/-! ## Values -/

variable {C : Catalog} {matching : KeyMatching}

/-- A value of one token that is refused is pointed at. -/
theorem Tree.IsScanned.decodeLeaf (scanned : (Tree.leaf lexeme).IsScanned payload)
    (genuine : lexeme.token ≠ .error) : ∀ (shape : C.Shape) (before : C.Value shape),
    (decodeLeaf C lexeme shape before).IsPlaced payload
  | .scalar kind, .scalar before => by
      rw [ChatCodec.decodeLeaf]
      exact (scanned.decodeScalar genuine kind before).map _
  | .option inner, before => by
      rw [ChatCodec.decodeLeaf]
      split
      · exact .done _ scanned.head.isReached
      · exact (scanned.decodeLeaf genuine inner (C.blank inner)).replace before _
  | .list _, before => by
      rw [ChatCodec.decodeLeaf]
      split
      · exact .done _ scanned.head.isReached
      · exact .fail before (scanned.head.errorAt genuine rfl) scanned.head.isReached
  | .entity name, before => by
      rw [ChatCodec.decodeLeaf]
      split
      · exact .done _ scanned.head.isReached
      · exact .fail before (scanned.head.errorAt genuine rfl) scanned.head.isReached

/-- So is a value with a body, or what is refused within the body is. -/
theorem Tree.IsScanned.decodeGroup {opening : Lexeme} {body : Body Lexeme}
    (scanned : (Tree.group opening body).IsScanned payload) (genuine : opening.token ≠ .error)
    {members : (name : C.Name) → C.Entity name → Outcome (C.Entity name)}
    {items : (inner : C.Shape) → Outcome (C.Sequence inner)}
    (placedMembers : ∀ name record, (members name record).IsPlaced payload)
    (placedItems : ∀ inner, (items inner).IsPlaced payload) :
    ∀ (shape : C.Shape) (before : C.Value shape),
      (decodeGroup C opening body members items shape before).IsPlaced payload
  | .scalar kind, .scalar before => by
      rw [ChatCodec.decodeGroup]
      exact (scanned.decodeScalar genuine kind before).map _
  | .option inner, before => by
      rw [ChatCodec.decodeGroup]
      exact (scanned.decodeGroup genuine placedMembers placedItems inner
        (C.blank inner)).replace before _
  | .list inner, before => by
      rw [ChatCodec.decodeGroup]
      split
      · exact (placedItems inner).map _
      · exact .fail before (scanned.head.errorAt genuine rfl) scanned.head.isReached
  | .entity name, .entity before => by
      rw [ChatCodec.decodeGroup]
      split
      · exact (placedMembers name before).map _
      · exact .fail _ (scanned.head.errorAt genuine rfl) scanned.head.isReached

/-- Decoding into a field is placed as decoding is, and as skipping where there is no such
field. -/
theorem Record.isPlaced_decodeAt {tree : Tree Lexeme} (scanned : tree.IsScanned payload)
    {decode : (shape : C.Shape) → C.Value shape → Outcome (C.Value shape)}
    (placed : ∀ shape before, (decode shape before).IsPlaced payload) :
    ∀ {list : List (Field C.Name)} (index : Nat) (record : C.Record list),
      (record.decodeAt tree decode index).IsPlaced payload
  | [], _, .nil => by
      rw [Record.decodeAt]
      exact scanned.skipTree.map _
  | field :: _, 0, .cons head _ => by
      rw [Record.decodeAt]
      exact (placed field.shape head).map _
  | _ :: _, index + 1, .cons _ tail => by
      rw [Record.decodeAt]
      exact (tail.isPlaced_decodeAt scanned placed index).map _

/-- A value does not begin with an error. -/
theorem Token.ne_error_of_isValue {token : Token} (isValue : token.isValue = true) :
    token ≠ .error :=
  Lexer.ne_error_of_going (Token.isFinal_of_isValue isValue)

mutual

/-- **Decoding stays within the scans of a payload.** -/
theorem Tree.IsScanned.decodeTree : ∀ {tree : Tree Lexeme}, tree.IsScanned payload →
    tree.head.token ≠ .error → ∀ (shape : C.Shape) (before : C.Value shape),
      (decodeTree C matching tree shape before).IsPlaced payload
  | .leaf lexeme, scanned, genuine, shape, before => by
      rw [ChatCodec.decodeTree]
      exact scanned.decodeLeaf genuine shape before
  | .group opening body, scanned, genuine, shape, before => by
      have inner := scanned
      rw [Tree.IsScanned] at inner
      rw [ChatCodec.decodeTree]
      exact scanned.decodeGroup genuine
        (fun name record => inner.2.2.2.decodeMembers name .key none record)
        (fun shape => inner.2.2.2.decodeItems shape .item) shape before

theorem Body.IsScanned.decodeMembers : ∀ {body : Body Lexeme}, body.IsScanned payload →
    ∀ (name : C.Name) (place : MemberPlace) (current : Option Nat) (record : C.Entity name),
      (decodeMembers C matching body name place current record).IsPlaced payload
  | .close ending, scanned, name, place, current, record => by
      rw [Body.IsScanned] at scanned
      rw [ChatCodec.decodeMembers]
      split
      · exact .done record scanned.isReached
      · exact .refuse record scanned place.wanted
  | .more tree rest, scanned, name, place, current, record => by
      rw [Body.IsScanned] at scanned
      obtain ⟨within, further⟩ := scanned
      rw [decodeMembers.eq_def]
      cases place with
      | key =>
          simp only
          split
          · split
            · exact further.decodeMembers name .colon _ record
            · exact (further.decodeMembers name .colon none record).note _
          · exact .refuse record within.head _
      | colon =>
          simp only
          split
          · exact further.decodeMembers name .value current record
          · exact .refuse record within.head _
      | value =>
          simp only
          split
          · next isValue =>
              refine IsPlaced.follow ?_ fun _ => further.decodeMembers name .separator none _
              cases current with
              | none => exact within.skipTree.map _
              | some index =>
                  exact record.isPlaced_decodeAt within
                    (within.decodeTree (Token.ne_error_of_isValue isValue)) index
          · exact .refuse record within.head _
      | separator =>
          simp only
          split
          · exact further.decodeMembers name .key none record
          · exact .refuse record within.head _

theorem Body.IsScanned.decodeItems : ∀ {body : Body Lexeme}, body.IsScanned payload →
    ∀ (inner : C.Shape) (place : ItemPlace),
      (decodeItems C matching body inner place).IsPlaced payload
  | .close ending, scanned, inner, place => by
      rw [Body.IsScanned] at scanned
      rw [ChatCodec.decodeItems]
      split
      · exact .done _ scanned.isReached
      · exact .refuse _ scanned place.wanted
  | .more tree rest, scanned, inner, place => by
      rw [Body.IsScanned] at scanned
      obtain ⟨within, further⟩ := scanned
      rw [decodeItems.eq_def]
      cases place with
      | item =>
          simp only
          split
          · next isValue =>
              refine IsPlaced.follow
                (within.decodeTree (Token.ne_error_of_isValue isValue) inner (C.blank inner))
                fun _ => ?_
              exact (further.decodeItems inner .separator).map _
          · exact .refuse _ within.head _
      | separator =>
          simp only
          split
          · exact further.decodeItems inner .item
          · exact .refuse _ within.head _

end

/-! ## Payloads -/

/-- The outcome of a payload of any shape is placed in it. -/
theorem isPlaced_decodePayload (C : Catalog) (matching : KeyMatching) (shape : C.Shape)
    (payload : Bytes) : (decodePayload C matching shape payload).IsPlaced payload := by
  have first := (Lexer.isReached_ofBytes payload).scan
  rw [decodePayload]
  split
  · next isValue =>
      have placed := @Tree.IsScanned.decodeTree payload C matching _ first.tree
        (by rw [Lexer.head_tree]; exact Token.ne_error_of_isValue isValue) shape (C.blank shape)
      exact IsPlaced.follow placed fun _ => placed.isReached.finishWith _
  · exact .refuse _ first _

/-- The outcome of an object that comes next is placed. -/
theorem Lexer.IsReached.decodeObject {lexer : Lexer} (reached : lexer.IsReached payload)
    {name : C.Name} (before : C.Entity name) :
    (decodeObject C matching before lexer).IsPlaced payload := by
  rw [ChatCodec.decodeObject]
  split
  · exact reached.scan.isReached.body.decodeMembers name .key none before
  · exact .refuse before reached.scan _

/-- The outcome of a payload with one object is placed in it.  That a failure is noted changes
nothing. -/
theorem isPlaced_decodeDocument (C : Catalog) (matching : KeyMatching) (name : C.Name)
    (payload : Bytes) : (decodeDocument C matching name payload).IsPlaced payload := by
  have placed := @Lexer.IsReached.decodeObject payload C matching _
    (Lexer.isReached_ofBytes payload) name (C.blankEntity name)
  have whole := @IsPlaced.follow payload _ _ _ placed id finishWith fun _ =>
    placed.isReached.finishWith _
  rw [decodeDocument]
  split
  · exact whole
  · exact ⟨whole.isReached, whole.points⟩

end

/-- **Every error points at a token of the payload.**  Whatever is decoded by whatever
configuration, be it a value of some shape or an object with a name: if that fails, the sequence
of all scans of the payload has a scan that begins at the offset of the error and has its token,
also the token that the cause says was found.  What the error shows is what that scan captured;
only opaque JSON that the strict reader refuses shows the bytes of the value, which begins
there. -/
theorem decode_error_points (C : Catalog) (matching : KeyMatching) (payload : Bytes)
    (error : DecodeError) :
    (∀ shape : C.Shape, (decodePayload C matching shape payload).result = .error error →
      ∃ count, error.PointsAt payload ((Lexer.ofBytes payload).nthScan count)) ∧
    ∀ name : C.Name, (decodeDocument C matching name payload).result = .error error →
      ∃ count, error.PointsAt payload ((Lexer.ofBytes payload).nthScan count) := by
  refine ⟨fun shape failed => ?_, fun name failed => ?_⟩
  · exact (isPlaced_decodePayload C matching shape payload).points error
      (Outcome.result_eq_error_iff.mp failed)
  · exact (isPlaced_decodeDocument C matching name payload).points error
      (Outcome.result_eq_error_iff.mp failed)

/-- An emoji whose second role breaks off. -/
def brokenRoles : Bytes := bytesOf "\x7b\"roles\":[1,tru]\x7d"

/-- The role that breaks off is pointed at, and so is a list with a comma too many that the lexer
passes and the strict reader refuses. -/
theorem decode_error_points_roles :
    (decodeDocument Chat .lenient .emoji brokenRoles).result =
        .error ⟨.lexical .invalidLiteral, 12, .error, some "tru"⟩ ∧
      (∃ count, DecodeError.PointsAt brokenRoles ⟨.lexical .invalidLiteral, 12, .error, some "tru"⟩
        ((Lexer.ofBytes brokenRoles).nthScan count)) ∧
      (decodePayload Chat .exact (.scalar .opaqueJson) (bytesOf " [1,]")).result =
        .error ⟨.rejected (.json .trailingComma), 1, .arrayStart, some "[1,]"⟩ ∧
      ∃ count, DecodeError.PointsAt (bytesOf " [1,]")
        ⟨.rejected (.json .trailingComma), 1, .arrayStart, some "[1,]"⟩
        ((Lexer.ofBytes (bytesOf " [1,]")).nthScan count) := by
  have broken : (decodeDocument Chat .lenient .emoji brokenRoles).result =
      .error ⟨.lexical .invalidLiteral, 12, .error, some "tru"⟩ :=
    Outcome.result_eq_error_iff.mpr (by decide +kernel)
  have refused : (decodePayload Chat .exact (.scalar .opaqueJson) (bytesOf " [1,]")).result =
      .error ⟨.rejected (.json .trailingComma), 1, .arrayStart, some "[1,]"⟩ :=
    Outcome.result_eq_error_iff.mpr (by decide +kernel)
  exact ⟨broken, (decode_error_points Chat .lenient brokenRoles _).2 .emoji broken, refused,
    (decode_error_points Chat .exact (bytesOf " [1,]") _).1 _ refused⟩

end ChatCodec
