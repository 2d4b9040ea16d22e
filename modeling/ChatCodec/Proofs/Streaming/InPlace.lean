import ChatCodec.Proofs.Records
import ChatCodec.Proofs.Streaming.Loop

/-!
# Decoding in place

A value is decoded onto one that is already there.  What is there has no influence on the
course that decoding takes (`Outcome.course`): neither on whether it ends well, nor on its
error, nor on where it leaves the lexer (`course_decodeTree`).  This is an induction over the
nesting of the tokens for entities alone, since whatever else holds values decodes them onto
blank ones.

What decoding leaves does depend on what was there, in three ways only.  A `null` may keep it, a
failure may keep it, and an entity keeps the fields that none of the keys read for it has found
(`get_decodeMembers`).  The keys that are read are those up to the point where decoding stops
(`keysRead`).  Everything else comes from the tokens (`value_decodeTree`).
-/

namespace ChatCodec

set_option autoImplicit false

/-! ## The course of decoding -/

namespace Outcome

variable {Value Other : Type}

/-- What an outcome says about decoding itself: everything but the value. -/
def course (outcome : Outcome Value) : Outcome Unit := outcome.map fun _ => ()

theorem course_replace (before : Other) (wrap : Value → Other) (outcome : Outcome Value) :
    (outcome.replace before wrap).course = outcome.course := by
  rw [replace]
  split <;> rfl

theorem error_eq_of_course {first : Outcome Value} {second : Outcome Other}
    (same : first.course = second.course) : first.error = second.error :=
  congrArg Outcome.error same

theorem lexer_eq_of_course {first : Outcome Value} {second : Outcome Other}
    (same : first.course = second.course) : first.lexer = second.lexer :=
  congrArg Outcome.lexer same

theorem events_eq_of_course {first : Outcome Value} {second : Outcome Other}
    (same : first.course = second.course) : first.events = second.events :=
  congrArg Outcome.events same

/-- Two steps take the same course if both the first steps and the second steps do. -/
theorem course_follow {first second : Outcome Value} {left left' : Value → Other}
    {next next' : Value → Lexer → Outcome Other} (same : first.course = second.course)
    (sameNext : ∀ value value' lexer, (next value lexer).course = (next' value' lexer).course) :
    (first.follow left next).course = (second.follow left' next').course := by
  obtain ⟨value, events, error, lexer⟩ := first
  obtain ⟨value', events', error', lexer'⟩ := second
  cases same
  cases error with
  | some error => rfl
  | none =>
      have behind := sameNext value value' lexer
      show Outcome.mk () (events ++ (next value lexer).course.events)
          (next value lexer).course.error (next value lexer).course.lexer = _
      rw [behind]
      rfl

end Outcome

/-! ## Scalars -/

/-- Opaque JSON takes a course of its own, whatever was there. -/
theorem course_decodeOpaque (tree : Tree Lexeme) (before other : Json.Value) :
    (decodeOpaque tree before).course = (decodeOpaque tree other).course := by
  rw [decodeOpaque, decodeOpaque]
  refine Outcome.course_follow rfl fun _ _ ending => ?_
  simp only
  cases Json.Value.ofDocument (tree.head.lexer.rawTo ending) <;> rfl

/-- **A scalar takes its course**, whatever was there. -/
theorem Scalar.course_decode (kind : Scalar) (tree : Tree Lexeme) (before other : kind.Carrier) :
    (kind.decode tree before).course = (kind.decode tree other).course := by
  by_cases opaqueJson : kind = .opaqueJson
  · subst opaqueJson
    exact course_decodeOpaque tree before other
  rw [decode_of_ne opaqueJson, decode_of_ne opaqueJson]
  by_cases null : tree.head.token = .null
  · rw [if_pos null, if_pos null]
    rfl
  rw [if_neg null, if_neg null]
  by_cases accepted : kind.accepts tree.head.token = true
  · rw [if_pos accepted, if_pos accepted]
    cases Scalar.read tree.head.lexer tree.head.token kind <;> rfl
  · rw [if_neg accepted, if_neg accepted]
    rfl

/-- A value that was left in the place of another one: either it is the same whatever was
there, or decoding has stopped and has left what was there. -/
def Outcome.LeavesAlike {Value : Type} (first second : Outcome Value) (before other : Value) :
    Prop :=
  first.value = second.value ∨
    first.error ≠ none ∧ first.value = before ∧ second.value = other

theorem Outcome.LeavesAlike.fail {Value : Type} (before other : Value) (error : DecodeError)
    (lexer : Lexer) :
    (Outcome.fail before error lexer).LeavesAlike (.fail other error lexer) before other :=
  .inr ⟨Option.some_ne_none error, rfl, rfl⟩

/-- What wraps a value wraps also what was there. -/
theorem Outcome.LeavesAlike.map {Value Other : Type} {first second : Outcome Value}
    {before other : Value} (alike : first.LeavesAlike second before other)
    (wrap : Value → Other) :
    (first.map wrap).LeavesAlike (second.map wrap) (wrap before) (wrap other) := by
  rcases alike with same | ⟨failed, kept, keptOther⟩
  · exact .inl (congrArg wrap same)
  · exact .inr ⟨failed, congrArg wrap kept, congrArg wrap keptOther⟩

/-- An optional value is replaced as a whole or not at all. -/
theorem Outcome.LeavesAlike.replace {Value Other : Type} (before other : Other)
    (wrap : Value → Other) (outcome : Outcome Value) :
    (outcome.replace before wrap).LeavesAlike (outcome.replace other wrap) before other := by
  obtain ⟨value, events, error, lexer⟩ := outcome
  cases error with
  | none => exact .inl rfl
  | some error => exact .inr ⟨Option.some_ne_none error, rfl, rfl⟩

theorem leavesAlike_decodeOpaque (tree : Tree Lexeme) (before other : Json.Value) :
    (decodeOpaque tree before).LeavesAlike (decodeOpaque tree other) before other := by
  rw [decodeOpaque, decodeOpaque]
  generalize skipTree tree = skipped
  obtain ⟨value, events, error, lexer⟩ := skipped
  cases error with
  | some error => exact .inr ⟨Option.some_ne_none error, rfl, rfl⟩
  | none =>
      simp only [Outcome.follow]
      cases Json.Value.ofDocument (tree.head.lexer.rawTo lexer) with
      | ok value => exact .inl rfl
      | error fault => exact .inr ⟨Option.some_ne_none _, rfl, rfl⟩

/-- A scalar that is no `null` is replaced as a whole or not at all. -/
theorem Scalar.leavesAlike_decode (kind : Scalar) {tree : Tree Lexeme}
    (present : tree.head.token ≠ .null) (before other : kind.Carrier) :
    (kind.decode tree before).LeavesAlike (kind.decode tree other) before other := by
  by_cases opaqueJson : kind = .opaqueJson
  · subst opaqueJson
    exact leavesAlike_decodeOpaque tree before other
  rw [decode_of_ne opaqueJson, decode_of_ne opaqueJson, if_neg present, if_neg present]
  by_cases accepted : kind.accepts tree.head.token = true
  · rw [if_pos accepted, if_pos accepted]
    cases Scalar.read tree.head.lexer tree.head.token kind with
    | ok value => exact .inl rfl
    | error error => exact .fail before other error _
  · rw [if_neg accepted, if_neg accepted]
    exact .fail before other _ _

/-! ## Members -/

section

variable (C : Catalog) (matching : KeyMatching)

/-- Decodes the value of a member whose key has found the field of that number, or none. -/
def writeMember {name : C.Name} (current : Option Nat) (tree : Tree Lexeme)
    (record : C.Entity name) : Outcome (C.Entity name) :=
  match current with
  | some index =>
      record.decodeAt tree (fun shape before => decodeTree C matching tree shape before) index
  | none => (skipTree tree).map fun _ => record

/-- The keys that are read for an object at its own level, in order, when it is decoded onto a
record.  Where decoding stops, no more keys are read. -/
def keysRead {name : C.Name} : Body Lexeme → MemberPlace → Option Nat → C.Entity name → List Bytes
  | .close _, _, _, _ => []
  | .more tree rest, .key, _, record =>
      if tree.head.token = .string then
        tree.head.lexer.output ::
          keysRead rest .colon (Key.resolve (C.keys name) tree.head.lexer.output matching) record
      else []
  | .more tree rest, .colon, current, record =>
      if tree.head.token = .colon then keysRead rest .value current record else []
  | .more tree rest, .value, current, record =>
      if tree.head.token.isValue then
        if (writeMember C matching current tree record).error = none then
          keysRead rest .separator none (writeMember C matching current tree record).value
        else []
      else []
  | .more tree rest, .separator, _, record =>
      if tree.head.token = .comma then keysRead rest .key none record else []

end

section

variable {C : Catalog} {matching : KeyMatching} {name : C.Name}

theorem decodeMembers_more_key {tree : Tree Lexeme} (isKey : tree.head.token = .string)
    (rest : Body Lexeme) (current : Option Nat) (record : C.Entity name) :
    decodeMembers C matching (.more tree rest) name .key current record =
      match Key.resolve (C.keys name) tree.head.lexer.output matching with
      | some index => decodeMembers C matching rest name .colon (some index) record
      | none =>
          (decodeMembers C matching rest name .colon none record).note
            (.unknownKey (C.title name) (Utf8.decodeLossy tree.head.lexer.output)) := by
  rw [decodeMembers]
  exact if_pos isKey

theorem decodeMembers_more_colon {tree : Tree Lexeme} (isColon : tree.head.token = .colon)
    (rest : Body Lexeme) (current : Option Nat) (record : C.Entity name) :
    decodeMembers C matching (.more tree rest) name .colon current record =
      decodeMembers C matching rest name .value current record := by
  rw [decodeMembers]
  exact if_pos isColon

theorem decodeMembers_more_value {tree : Tree Lexeme} (isValue : tree.head.token.isValue = true)
    (rest : Body Lexeme) (current : Option Nat) (record : C.Entity name) :
    decodeMembers C matching (.more tree rest) name .value current record =
      (writeMember C matching current tree record).follow id fun record _ =>
        decodeMembers C matching rest name .separator none record := by
  rw [decodeMembers.eq_def]
  refine (if_pos isValue).trans ?_
  cases current <;> rfl

theorem decodeMembers_more_separator {tree : Tree Lexeme} (isComma : tree.head.token = .comma)
    (rest : Body Lexeme) (current : Option Nat) (record : C.Entity name) :
    decodeMembers C matching (.more tree rest) name .separator current record =
      decodeMembers C matching rest name .key none record := by
  rw [decodeMembers]
  exact if_pos isComma

theorem decodeMembers_more_of_not_admits {place : MemberPlace} {tree : Tree Lexeme}
    (refused : ¬ place.admits tree.head.token = true) (rest : Body Lexeme) (current : Option Nat)
    (record : C.Entity name) :
    decodeMembers C matching (.more tree rest) name place current record =
      .refuse record tree.head place.wanted := by
  rw [decodeMembers.eq_def]
  cases place with
  | key | colon | separator =>
      rw [MemberPlace.admits, beq_iff_eq] at refused
      exact if_neg refused
  | value => exact if_neg refused

/-! ## The same course whatever was there -/

/-- Decoding into a field takes the same course if decoding into the value of the field does. -/
theorem Record.course_decodeAt {tree : Tree Lexeme}
    {decode : (shape : C.Shape) → C.Value shape → Outcome (C.Value shape)}
    (same : ∀ shape before other, (decode shape before).course = (decode shape other).course) :
    ∀ {list : List (Field C.Name)} (index : Nat) (before other : C.Record list),
      (before.decodeAt tree decode index).course = (other.decodeAt tree decode index).course
  | [], _, .nil, .nil => rfl
  | field :: _, 0, .cons before _, .cons other _ => same field.shape before other
  | _ :: _, index + 1, .cons _ before, .cons _ other => course_decodeAt same index before other

theorem course_decodeLeaf (lexeme : Lexeme) : ∀ (shape : C.Shape) (before other : C.Value shape),
    (decodeLeaf C lexeme shape before).course = (decodeLeaf C lexeme shape other).course
  | .scalar kind, .scalar before, .scalar other => by
      rw [decodeLeaf, decodeLeaf]
      exact kind.course_decode _ before other
  | .option inner, before, other => by
      rw [decodeLeaf, decodeLeaf]
      by_cases null : lexeme.token = .null
      · rw [if_pos null, if_pos null]
      · rw [if_neg null, if_neg null, Outcome.course_replace, Outcome.course_replace]
  | .list _, before, other => by
      rw [decodeLeaf, decodeLeaf]
      split <;> rfl
  | .entity name, before, other => by
      rw [decodeLeaf, decodeLeaf]
      split <;> rfl

theorem course_decodeGroup {opening : Lexeme} {body : Body Lexeme}
    {members : (name : C.Name) → C.Entity name → Outcome (C.Entity name)}
    {items : (inner : C.Shape) → Outcome (C.Sequence inner)}
    (same : ∀ name before other, (members name before).course = (members name other).course) :
    ∀ (shape : C.Shape) (before other : C.Value shape),
      (decodeGroup C opening body members items shape before).course =
        (decodeGroup C opening body members items shape other).course
  | .scalar kind, .scalar before, .scalar other => by
      rw [decodeGroup, decodeGroup]
      exact kind.course_decode _ before other
  | .option inner, before, other => by
      rw [decodeGroup, decodeGroup, Outcome.course_replace, Outcome.course_replace]
  | .list inner, before, other => by
      rw [decodeGroup, decodeGroup]
      split <;> rfl
  | .entity name, .entity before, .entity other => by
      rw [decodeGroup, decodeGroup]
      split
      · exact same name before other
      · rfl

/-- The value of a member takes the same course if its tree does. -/
theorem course_writeMember {tree : Tree Lexeme}
    (same : ∀ (shape : C.Shape) (before other : C.Value shape),
      (decodeTree C matching tree shape before).course =
        (decodeTree C matching tree shape other).course)
    (current : Option Nat) (before other : C.Entity name) :
    (writeMember C matching current tree before).course =
      (writeMember C matching current tree other).course := by
  cases current with
  | none => rfl
  | some index => exact Record.course_decodeAt same index before other

mutual

/-- **Decoding takes the same course**, whatever was there. -/
theorem course_decodeTree : ∀ (tree : Tree Lexeme) (shape : C.Shape) (before other : C.Value shape),
    (decodeTree C matching tree shape before).course =
      (decodeTree C matching tree shape other).course
  | .leaf lexeme, shape, before, other => by
      rw [decodeTree]
      exact course_decodeLeaf lexeme shape before other
  | .group opening body, shape, before, other => by
      rw [decodeTree]
      exact course_decodeGroup (fun name => course_decodeMembers body name .key none) shape before
        other

theorem course_decodeMembers : ∀ (body : Body Lexeme) (name : C.Name) (place : MemberPlace)
    (current : Option Nat) (before other : C.Entity name),
    (decodeMembers C matching body name place current before).course =
      (decodeMembers C matching body name place current other).course
  | .close ending, name, place, current, before, other => by
      rw [decodeMembers, decodeMembers]
      split <;> rfl
  | .more tree rest, name, place, current, before, other => by
      by_cases admitted : place.admits tree.head.token = true
      · cases place with
        | key =>
            have isKey := beq_iff_eq.mp admitted
            rw [decodeMembers_more_key isKey, decodeMembers_more_key isKey]
            cases Key.resolve (C.keys name) tree.head.lexer.output matching with
            | some index => exact course_decodeMembers rest name .colon (some index) before other
            | none =>
                exact congrArg (Outcome.note _)
                  (course_decodeMembers rest name .colon none before other)
        | colon =>
            have isColon := beq_iff_eq.mp admitted
            rw [decodeMembers_more_colon isColon, decodeMembers_more_colon isColon]
            exact course_decodeMembers rest name .value current before other
        | value =>
            rw [decodeMembers_more_value admitted, decodeMembers_more_value admitted]
            exact Outcome.course_follow
              (course_writeMember (course_decodeTree tree) current before other)
              fun written written' _ =>
                course_decodeMembers rest name .separator none written written'
        | separator =>
            have isComma := beq_iff_eq.mp admitted
            rw [decodeMembers_more_separator isComma, decodeMembers_more_separator isComma]
            exact course_decodeMembers rest name .key none before other
      · rw [decodeMembers_more_of_not_admits admitted, decodeMembers_more_of_not_admits admitted]
        rfl

end

/-! ## What is left -/

theorem leavesAlike_decodeLeaf {lexeme : Lexeme} (present : lexeme.token ≠ .null) :
    ∀ {shape : C.Shape}, (∀ name, shape ≠ .entity name) → ∀ (before other : C.Value shape),
      (decodeLeaf C lexeme shape before).LeavesAlike (decodeLeaf C lexeme shape other) before other
  | .scalar kind, _, .scalar before, .scalar other => by
      rw [decodeLeaf, decodeLeaf]
      exact (kind.leavesAlike_decode (by exact present) before other).map Val.scalar
  | .option inner, _, before, other => by
      rw [decodeLeaf, decodeLeaf, if_neg present, if_neg present]
      exact .replace before other _ _
  | .list _, _, before, other => by
      rw [decodeLeaf, decodeLeaf, if_neg present, if_neg present]
      exact .fail before other _ _
  | .entity name, simple, _, _ => absurd rfl (simple name)

theorem leavesAlike_decodeGroup {opening : Lexeme} {body : Body Lexeme}
    (present : opening.token ≠ .null)
    {members : (name : C.Name) → C.Entity name → Outcome (C.Entity name)}
    {items : (inner : C.Shape) → Outcome (C.Sequence inner)} :
    ∀ {shape : C.Shape}, (∀ name, shape ≠ .entity name) → ∀ (before other : C.Value shape),
      (decodeGroup C opening body members items shape before).LeavesAlike
        (decodeGroup C opening body members items shape other) before other
  | .scalar kind, _, .scalar before, .scalar other => by
      rw [decodeGroup, decodeGroup]
      exact (kind.leavesAlike_decode (by exact present) before other).map Val.scalar
  | .option inner, _, before, other => by
      rw [decodeGroup, decodeGroup]
      exact .replace before other _ _
  | .list _, _, before, other => by
      rw [decodeGroup, decodeGroup]
      by_cases array : opening.token = .arrayStart
      · rw [if_pos array, if_pos array]
        exact .inl rfl
      · rw [if_neg array, if_neg array]
        exact .fail before other _ _
  | .entity name, simple, _, _ => absurd rfl (simple name)

/-- **What is no entity comes from the tokens**, unless a `null` or a failure keeps what was
there. -/
theorem leavesAlike_decodeTree {tree : Tree Lexeme} (present : tree.head.token ≠ .null)
    {shape : C.Shape} (simple : ∀ name, shape ≠ .entity name) (before other : C.Value shape) :
    (decodeTree C matching tree shape before).LeavesAlike
      (decodeTree C matching tree shape other) before other := by
  cases tree with
  | leaf lexeme =>
      rw [decodeTree]
      exact leavesAlike_decodeLeaf present simple before other
  | group opening body =>
      rw [decodeTree]
      exact leavesAlike_decodeGroup present simple before other

/-! ## What is kept -/

/-- Decoding into a field leaves the others, also if it fails. -/
theorem Record.get_decodeAt_ne {list : List (Field C.Name)} (record : C.Record list)
    {tree : Tree Lexeme}
    {decode : (shape : C.Shape) → C.Value shape → Outcome (C.Value shape)}
    {index : Nat} {other : Fin list.length} (differs : index ≠ other) :
    (record.decodeAt tree decode index).value.get other = record.get other := by
  by_cases inside : index < list.length
  · rw [record.decodeAt_eq tree decode ⟨index, inside⟩]
    exact record.get_set_ne ⟨index, inside⟩ other _ fun same => differs (congrArg Fin.val same.symm)
  · rw [record.decodeAt_beyond tree decode index (Nat.le_of_not_lt inside)]
    rfl

theorem get_writeMember {current : Option Nat} {index : Fin (C.fields name).length}
    (differs : current ≠ some index.val) (tree : Tree Lexeme) (record : C.Entity name) :
    (writeMember C matching current tree record).value.get index = record.get index := by
  cases current with
  | none => rfl
  | some found => exact record.get_decodeAt_ne fun same => differs (congrArg some same)

/-- What is no object leaves an entity as it was. -/
theorem value_decodeTree_entity {tree : Tree Lexeme} (other : tree.head.token ≠ .objectStart)
    (before : C.Value (.entity name)) :
    (decodeTree C matching tree (.entity name) before).value = before := by
  cases tree with
  | leaf lexeme =>
      rw [decodeTree, decodeLeaf]
      split <;> rfl
  | group opening body =>
      cases before with
      | entity record =>
          rw [decodeTree, decodeGroup]
          refine (congrArg Outcome.value (if_neg other)).trans ?_
          rfl

/-- **A field that no key has found is kept**, whether decoding ends well or not. -/
theorem get_decodeMembers {index : Fin (C.fields name).length} :
    ∀ (body : Body Lexeme) (place : MemberPlace) (current : Option Nat) (record : C.Entity name),
      current ≠ some index.val →
      (∀ key ∈ keysRead C matching body place current record,
        Key.resolve (C.keys name) key matching ≠ some index.val) →
      (decodeMembers C matching body name place current record).value.get index = record.get index
  | .close ending, place, current, record, _, _ => by
      rw [decodeMembers]
      split <;> rfl
  | .more tree rest, place, current, record, differs, unfound => by
      by_cases admitted : place.admits tree.head.token = true
      · cases place with
        | key =>
            have isKey := beq_iff_eq.mp admitted
            rw [keysRead, if_pos isKey] at unfound
            obtain ⟨here, behind⟩ := List.forall_mem_cons.mp unfound
            rw [decodeMembers_more_key isKey]
            cases found : Key.resolve (C.keys name) tree.head.lexer.output matching with
            | some other =>
                rw [found] at here behind
                exact get_decodeMembers rest .colon (some other) record here behind
            | none =>
                rw [found] at here behind
                exact get_decodeMembers rest .colon none record here behind
        | colon =>
            have isColon := beq_iff_eq.mp admitted
            rw [keysRead, if_pos isColon] at unfound
            rw [decodeMembers_more_colon isColon]
            exact get_decodeMembers rest .value current record differs unfound
        | value =>
            rw [keysRead, if_pos (show tree.head.token.isValue = true from admitted)] at unfound
            rw [decodeMembers_more_value admitted]
            have kept := @get_writeMember C matching name current index differs tree record
            cases failed : (writeMember C matching current tree record).error with
            | some error =>
                rw [Outcome.follow, failed]
                exact kept
            | none =>
                rw [if_pos failed] at unfound
                rw [(Outcome.follow_of_error_eq_none failed _ _).2.1]
                exact (get_decodeMembers rest .separator none _ (Option.some_ne_none _).symm
                  unfound).trans kept
        | separator =>
            have isComma := beq_iff_eq.mp admitted
            rw [keysRead, if_pos isComma] at unfound
            rw [decodeMembers_more_separator isComma]
            exact get_decodeMembers rest .key none record (Option.some_ne_none _).symm unfound
      · rw [decodeMembers_more_of_not_admits admitted]
        rfl

end

/-! ## The main result -/

/-- The keys that are read for the value that begins with a token, at its own level, when it is
decoded onto a record.  Only an object has keys. -/
def Lexer.keysRead (C : Catalog) (matching : KeyMatching) {name : C.Name} (record : C.Entity name)
    (lexer : Lexer) (token : Token) : List Bytes :=
  if token = .objectStart then ChatCodec.keysRead C matching lexer.body .key none record else []

/-- **Decoding in place.**  For any two values that are there, decoding has the same outcome and
leaves the lexer in the same state.  Behind a token other than `null`, what it makes of a value
that is no entity is the same as well; only a failure may leave each of the two as it was.  A field
of an entity keeps its value if none of the keys read for the entity has found it, whether
decoding succeeds or fails on the way. -/
theorem decodeInto_in_place (C : Catalog) (matching : KeyMatching) (lexer : Lexer)
    (token : Token) :
    (∀ (shape : C.Shape) (before other : C.Value shape),
      let first := decodeInto C matching before lexer token
      let second := decodeInto C matching other lexer token
      first.error = second.error ∧ first.lexer = second.lexer ∧ first.events = second.events ∧
        (token ≠ .null → (∀ name, shape ≠ .entity name) →
          (first.error = none → first.value = second.value) ∧
            (first.value = second.value ∨ first.value = before ∧ second.value = other))) ∧
    ∀ (name : C.Name) (before : C.Entity name) (index : Fin (C.fields name).length),
      (∀ key ∈ lexer.keysRead C matching before token,
        Key.resolve (C.keys name) key matching ≠ some index.val) →
      (decodeInto C matching (.entity before) lexer token).value.record.get index =
        before.get index := by
  constructor
  · intro shape before other
    have same := @course_decodeTree C matching (lexer.tree token) shape before other
    refine ⟨Outcome.error_eq_of_course same, Outcome.lexer_eq_of_course same,
      Outcome.events_eq_of_course same, fun present simple => ?_⟩
    have alike := @leavesAlike_decodeTree C matching (lexer.tree token)
      (by rw [Lexer.head_tree]; exact present) shape simple before other
    refine ⟨fun succeeded => ?_, ?_⟩
    · exact alike.resolve_right fun kept => kept.1 succeeded
    · exact alike.imp_right And.right
  · intro name before index unfound
    by_cases object : token = .objectStart
    · subst object
      rw [decodeInto_entity]
      exact get_decodeMembers lexer.body .key none before (Option.some_ne_none _).symm unfound
    · rw [decodeInto, value_decodeTree_entity (by rw [Lexer.head_tree]; exact object)]
      rfl

/-- The lexer behind the brace of an emoji whose second role is malformed. -/
def emojiMidway : Lexeme :=
  (Lexer.ofBytes (bytesOf "\x7b\"name\":\"a\",\"roles\":[7,true],\"managed\":false\x7d")).scan

/-- Decoding stops at the roles, so that the flag behind them is kept; and a list of roles comes
out the same whatever was there. -/
theorem decodeInto_in_place_emoji :
    (decodeInto Chat .lenient
        (.entity ((Chat.blankEntity .emoji).set ⟨5, by decide⟩ (.scalar true)) :
          Chat.Value (.entity .emoji))
        emojiMidway.lexer emojiMidway.token).value.record.get ⟨5, by decide⟩ = .scalar true ∧
      (decodeInto Chat .lenient (.list .nil : Chat.Value (.list (.scalar (.id .role))))
          (Lexer.ofBytes (bytesOf "[7]")).scan.lexer .arrayStart).value =
        (decodeInto Chat .lenient (.list (.cons (.scalar Id.unset) .nil))
          (Lexer.ofBytes (bytesOf "[7]")).scan.lexer .arrayStart).value := by
  constructor
  · have kept := (decodeInto_in_place Chat .lenient emojiMidway.lexer emojiMidway.token).2 .emoji
      ((Chat.blankEntity .emoji).set ⟨5, by decide⟩ (.scalar true)) ⟨5, by decide⟩
      (by decide +kernel)
    exact kept.trans (Record.get_set_same (Chat.blankEntity .emoji) ⟨5, by decide⟩ (.scalar true))
  · have same := (decodeInto_in_place Chat .lenient (Lexer.ofBytes (bytesOf "[7]")).scan.lexer
      .arrayStart).1 (.list (.scalar (.id .role))) (.list .nil)
      (.list (.cons (.scalar Id.unset) .nil))
    exact (same.2.2.2 (by decide) fun name same => by cases same).1 (by decide +kernel)

end ChatCodec
