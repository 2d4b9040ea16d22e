import ChatCodec.Entity.Catalog
import ChatCodec.Proofs.Records
import ChatCodec.Proofs.Streaming.Objects

/-!
# What the members of an object do

Decoding an object into a record is a left fold over its members (`decodeOnto_append`): what is
carried from one member to the next is the record and nothing else.

A member whose key finds a field decodes its value into that field
(`MemberText.write_of_found`), and leaves the other fields alone.  What this does where the
field already has a value depends on the form of the field.

* A `null` keeps a plain scalar and an entity, and clears an optional value and a sequence
  (`decodeText_null`).
* An object is merged into an entity (`decodeText_entity`), and replaces an optional one
  (`decodeText_option`).
-/

namespace ChatCodec

set_option autoImplicit false

section

variable {C : Catalog} {matching : KeyMatching} {name : C.Name} {record : C.Entity name}

/-! ## Values -/

variable (C matching) in
/-- Decodes a text into a value. -/
def decodeText {shape : C.Shape} (before : C.Value shape) (text : Bytes) :
    Except Report (C.Value shape) :=
  (decodeInto C matching before (Lexeme.ofText text).lexer (Lexeme.ofText text).token).reported

theorem Outcome.reported_map {Value Other : Type} (outcome : Outcome Value) (wrap : Value → Other) :
    (outcome.map wrap).reported = outcome.reported.map wrap := by
  rw [reported_eq, reported_eq, map]
  cases outcome.error <;> rfl

theorem Outcome.reported_replace {Value Other : Type} (outcome : Outcome Value) (before : Other)
    (wrap : Value → Other) :
    (outcome.replace before wrap).reported = outcome.reported.map wrap := by
  obtain ⟨value, events, error, lexer⟩ := outcome
  cases error <;> rfl

/-- **A member decodes its value into the field that its key finds.** -/
theorem MemberText.write_of_found {member : MemberText} {index : Fin (C.fields name).length}
    (found : member.field? C name matching = some index.val) :
    member.write C matching record =
      (decodeText C matching (record.get index) member.value).map (record.set index) := by
  rw [write, found, decodeMemberText, decodeMember, decodeField, Record.decodeAt_eq,
    Outcome.reported_map]
  rfl

/-- What a `null` makes of a scalar: opaque JSON takes it for a value. -/
def Scalar.afterNull : (kind : Scalar) → kind.Carrier → kind.Carrier
  | .opaqueJson, _ => .null
  | _, before => before

/-- What a `null` makes of a value. -/
def Val.afterNull : {shape : C.Shape} → C.Value shape → C.Value shape
  | .scalar kind, .scalar before => .scalar (kind.afterNull before)
  | .option _, _ => .none
  | .list _, _ => .list .nil
  | .entity _, before => before

theorem Scalar.decode_null {lexer : Lexer} (null : lexer.scan.token = .null) (kind : Scalar)
    (before : kind.Carrier) :
    kind.decode (.leaf lexer.scan) before = .done (kind.afterNull before) lexer.scan.lexer := by
  have isNull : (Tree.leaf lexer.scan).head.token = .null := null
  by_cases opaqueJson : kind = .opaqueJson
  · subst opaqueJson
    obtain ⟨-, -, -, -, reads, -⟩ := @Lexer.exists_spaces lexer (by rw [null]; decide)
    rw [null] at reads
    have raw : lexer.scan.lexer.rawTo lexer.scan.lexer = bytesOf "null" := reads.eq_null
    have read : Json.Value.ofDocument (bytesOf "null") = .ok .null := by decide +kernel
    show decodeOpaque (.leaf lexer.scan) before = _
    rw [decodeOpaque, skipTree_of_isScalar (by rw [null]; rfl), Outcome.follow_done]
    simp only [Tree.head, raw, read]
    rfl
  · rw [Scalar.decode_of_ne opaqueJson, if_pos isNull]
    cases kind <;> first | rfl | exact absurd rfl opaqueJson

/-- **A `null` keeps a plain scalar and an entity, and clears an optional value and a
sequence.** -/
theorem decodeText_null {text : Bytes} (null : (Lexeme.ofText text).token = .null)
    {shape : C.Shape} (before : C.Value shape) :
    decodeText C matching before text = .ok before.afterNull := by
  have alone : (Lexeme.ofText text).lexer.tree (Lexeme.ofText text).token =
      .leaf (Lexeme.ofText text) := by
    rw [Lexer.tree, null, if_neg (by decide), ← null]
  rw [decodeText, decodeInto, alone, decodeTree]
  cases shape with
  | scalar kind =>
      cases before with
      | scalar value =>
          rw [decodeLeaf, Lexeme.ofText, Scalar.decode_null null]
          rfl
  | option inner | list inner | entity inner =>
      rw [decodeLeaf, if_pos null]
      rfl

/-- A value that is no `null` replaces an optional one as a whole. -/
theorem decodeText_option {text : Bytes} (present : (Lexeme.ofText text).token ≠ .null)
    {inner : C.Shape} (before : C.Value (.option inner)) :
    decodeText C matching before text =
      (decodeText C matching (C.blank inner) text).map .some := by
  have head : ((Lexeme.ofText text).lexer.tree (Lexeme.ofText text).token).head.token ≠ .null := by
    rw [Lexer.head_tree]
    exact present
  rw [decodeText, decodeInto, decodeTree_option head, Outcome.reported_replace]
  rfl

/-- **An object is merged into an entity.** -/
theorem decodeText_entity {inner : C.Name} (before : C.Entity inner) (object : ObjectText) :
    decodeText C matching (.entity before : C.Value (.entity inner)) object.bytes =
      (writeAll C matching before object.texts).map .entity := by
  have first : decodeObject C matching before (Lexer.ofBytes object.bytes) =
      decodeFrom C matching before .key (Lexeme.ofText object.bytes).lexer :=
    if_pos object.token_ofText
  rw [decodeText, object.token_ofText, decodeInto_entity, Outcome.reported_map, ← first,
    (object.decodeObject_yields before (Lexer.approaches_ofBytes object.bytes)).reported_eq]

/-! ## Objects -/

/-- The bytes of a member without white space around its parts. -/
def MemberText.bytes (member : MemberText) : Bytes := member.key ++ Ascii.colon :: member.value

/-- An object with these members, without further white space or a trailing comma. -/
def ObjectText.ofMembers (members : List MemberText) : ObjectText where
  members := members.map fun member => { toMemberText := member }
  trailing := false
  settled := nofun

/-- The bytes of an object with these members. -/
def objectText (members : List MemberText) : Bytes :=
  Ascii.openBrace :: ([Ascii.comma].intercalate (members.map MemberText.bytes) ++
    [Ascii.closeBrace])

theorem ObjectText.bytes_ofMembers (members : List MemberText) :
    (ofMembers members).bytes = objectText members := by
  have plain : PlacedMember.bytes ∘ (fun member : MemberText => { toMemberText := member }) =
      MemberText.bytes := by
    funext member
    simp only [Function.comp, PlacedMember.bytes, MemberText.bytes, List.nil_append,
      List.append_nil]
  rw [bytes, ofMembers, closing, membersText, objectText, List.map_map, plain]
  rfl

theorem ObjectText.texts_ofMembers (members : List MemberText) :
    (ofMembers members).texts = members := by
  rw [texts, ofMembers, List.map_map]
  exact List.map_id members

/-- The member that has an object for its value. -/
def KeyText.holding (key : KeyText) (members : List MemberText) : MemberText where
  toKeyText := key
  value := objectText members
  isValue := by
    rw [← ObjectText.bytes_ofMembers]
    exact (ObjectText.ofMembers members).isValueText

/-- Decoding an object is what its members do. -/
theorem decodeOnto_objectText (record : C.Entity name) (members : List MemberText) :
    (decodeOnto C matching record (objectText members)).reported =
      writeAll C matching record members := by
  rw [← ObjectText.bytes_ofMembers, ObjectText.decodeOnto_reported, ObjectText.texts_ofMembers]

theorem writeAll_append (record : C.Entity name) (first second : List MemberText) :
    writeAll C matching record (first ++ second) =
      writeAll C matching record first >>= fun between => writeAll C matching between second :=
  List.foldlM_append

theorem writeAll_cons (record : C.Entity name) (member : MemberText) (members : List MemberText) :
    writeAll C matching record (member :: members) =
      member.write C matching record >>= fun between => writeAll C matching between members :=
  List.foldlM_cons

theorem writeAll_singleton (record : C.Entity name) (member : MemberText) :
    writeAll C matching record [member] = member.write C matching record := by
  rw [writeAll_cons]
  exact bind_pure _

/-! ## Fields that are written again -/

/-- An object whose members are those of two objects is merged as these are, one after the
other. -/
theorem decodeText_append {shape : C.Shape} {inner : C.Name} (isEntity : shape = .entity inner)
    (before : C.Value shape) (first second : List MemberText) :
    decodeText C matching before (objectText (first ++ second)) =
      decodeText C matching before (objectText first) >>= fun between =>
        decodeText C matching between (objectText second) := by
  subst isEntity
  cases before with
  | entity record =>
      have merged : ∀ (record : C.Entity inner) (members : List MemberText),
          decodeText C matching (.entity record : C.Value (.entity inner)) (objectText members) =
            (writeAll C matching record members).map .entity := by
        intro record members
        rw [← ObjectText.bytes_ofMembers, decodeText_entity, ObjectText.texts_ofMembers]
      rw [merged, merged, writeAll_append]
      cases writeAll C matching record first with
      | error report => rfl
      | ok between => exact (merged between second).symm

/-- Optional values and sequences are replaced as a whole. -/
def Shape.isReplaced {Name : Type} : Shape Name → Bool
  | .option _ | .list _ => true
  | .scalar _ | .entity _ => false

/-- What replaces a value does not depend on it. -/
theorem decodeText_of_isReplaced {shape : C.Shape} (replaced : shape.isReplaced = true)
    (before other : C.Value shape) (text : Bytes) :
    decodeText C matching before text = decodeText C matching other text := by
  cases shape with
  | option inner =>
      by_cases null : (Lexeme.ofText text).token = .null
      · rw [decodeText_null null, decodeText_null null]
        rfl
      · rw [decodeText_option null, decodeText_option null]
  | list inner =>
      rw [decodeText, decodeText, decodeInto, decodeInto]
      cases (Lexeme.ofText text).lexer.tree (Lexeme.ofText text).token with
      | leaf lexeme =>
          rw [decodeTree, decodeLeaf, decodeLeaf]
          split <;> rfl
      | group opening body =>
          rw [decodeTree, decodeGroup, decodeGroup]
          split <;> rfl
  | scalar kind | entity inner => cases replaced

/-- **Two members of one field** decode both values into it, one after the other. -/
theorem writeAll_pair {first second : MemberText} {index : Fin (C.fields name).length}
    (found : first.field? C name matching = some index.val)
    (found' : second.field? C name matching = some index.val) (record : C.Entity name) :
    writeAll C matching record [first, second] =
      (decodeText C matching (record.get index) first.value >>= fun between =>
        decodeText C matching between second.value).map (record.set index) := by
  rw [writeAll_cons, MemberText.write_of_found found]
  cases decodeText C matching (record.get index) first.value with
  | error report => rfl
  | ok between =>
      show writeAll C matching (record.set index between) [second] = _
      rw [writeAll_singleton, MemberText.write_of_found found', Record.get_set_same]
      show _ = (decodeText C matching between second.value).map (record.set index)
      cases decodeText C matching between second.value with
      | error report => rfl
      | ok value => exact congrArg Except.ok (record.set_set index between value)

end

/-- **Decoding an object is a left fold over its members.**

* Decoding an object into a record decodes the first of its members into the record, and, if that
  succeeds, the others into the result.
* A `null` keeps a plain scalar and an entity, and clears an optional value and a sequence.
* Of an entity that is named again the members are merged.
* An optional value or a sequence that is named again is replaced. -/
theorem decodeOnto_members (C : Catalog) (matching : KeyMatching) (name : C.Name) :
    (∀ (record : C.Entity name) (first second : List MemberText),
      (decodeOnto C matching record (objectText (first ++ second))).reported =
        (decodeOnto C matching record (objectText first)).reported >>= fun between =>
          (decodeOnto C matching between (objectText second)).reported) ∧
    (∀ (record : C.Entity name) (member : MemberText) (index : Fin (C.fields name).length),
      member.field? C name matching = some index.val → (Lexeme.ofText member.value).token = .null →
        (decodeOnto C matching record (objectText [member])).reported =
          .ok (record.set index (record.get index).afterNull)) ∧
    (∀ (record : C.Entity name) (key again : KeyText) (index : Fin (C.fields name).length)
      (inner : C.Name), key.field? C name matching = some index.val →
      again.field? C name matching = some index.val →
      ((C.fields name).get index).shape = .entity inner → ∀ first second : List MemberText,
        (decodeOnto C matching record
            (objectText [key.holding first, again.holding second])).reported =
          (decodeOnto C matching record (objectText [key.holding (first ++ second)])).reported) ∧
    (∀ (record written : C.Entity name) (member again : MemberText)
      (index : Fin (C.fields name).length), member.field? C name matching = some index.val →
      again.field? C name matching = some index.val →
      ((C.fields name).get index).shape.isReplaced = true →
      (decodeOnto C matching record (objectText [member])).reported = .ok written →
        (decodeOnto C matching record (objectText [member, again])).reported =
          (decodeOnto C matching record (objectText [again])).reported) := by
  simp only [decodeOnto_objectText, writeAll_singleton]
  refine ⟨writeAll_append, ?_, ?_, ?_⟩
  · intro record member index found null
    rw [MemberText.write_of_found found, decodeText_null null]
    rfl
  · intro record key again index inner found found' isEntity first second
    rw [writeAll_pair found found', MemberText.write_of_found found]
    exact congrArg _ (decodeText_append isEntity _ first second).symm
  · intro record written member again index found found' replaced succeeded
    rw [MemberText.write_of_found found] at succeeded
    obtain ⟨between, decoded, -⟩ := map_eq_ok_iff.mp succeeded
    rw [writeAll_pair found found', MemberText.write_of_found found', decoded]
    exact congrArg _ (decodeText_of_isReplaced replaced between _ _)

/-- The key of emojis in reactions. -/
def emojiKey : KeyText :=
  .ofRaw (show ∀ byte ∈ bytesOf "emoji", Ascii.IsRaw byte by decide)

/-- The key of users in emojis. -/
def userKey : KeyText :=
  .ofRaw (show ∀ byte ∈ bytesOf "user", Ascii.IsRaw byte by decide)

/-- An identifier as a member. -/
def idMember : MemberText where
  toKeyText := .ofRaw (show ∀ byte ∈ bytesOf "id", Ascii.IsRaw byte by decide)
  value := bytesOf "\"41\""
  isValue := by decide +kernel

/-- A name that is not given. -/
def nullMember : MemberText where
  toKeyText := .ofRaw (show ∀ byte ∈ bytesOf "name", Ascii.IsRaw byte by decide)
  value := bytesOf "null"
  isValue := by decide +kernel

/-- The emoji of a reaction is merged, the user of an emoji is replaced, and a `null` keeps the
name of an emoji. -/
theorem decodeOnto_members_emoji :
    (decodeOnto Chat .exact (Chat.blankEntity .reaction) (bytesOf
        "\x7b\"emoji\":\x7b\"id\":\"41\"\x7d,\"emoji\":\x7b\"name\":null\x7d\x7d")).reported =
      (decodeOnto Chat .exact (Chat.blankEntity .reaction) (bytesOf
        "\x7b\"emoji\":\x7b\"id\":\"41\",\"name\":null\x7d\x7d")).reported ∧
    (decodeOnto Chat .exact (Chat.blankEntity .emoji) (bytesOf
        "\x7b\"user\":\x7b\"id\":\"41\"\x7d,\"user\":\x7b\x7d\x7d")).reported =
      (decodeOnto Chat .exact (Chat.blankEntity .emoji) (bytesOf
        "\x7b\"user\":\x7b\x7d\x7d")).reported ∧
    (decodeOnto Chat .exact (Chat.blankEntity .emoji) (bytesOf
        "\x7b\"name\":null\x7d")).reported = .ok (Chat.blankEntity .emoji) := by
  obtain ⟨-, -, merges, -⟩ := decodeOnto_members Chat .exact .reaction
  obtain ⟨-, clears, -, replaces⟩ := decodeOnto_members Chat .exact .emoji
  have succeeded : (decodeOnto Chat .exact (Chat.blankEntity .emoji)
      (objectText [userKey.holding [idMember]])).error = none := by decide +kernel
  have merged := merges (Chat.blankEntity .reaction) emojiKey emojiKey ⟨2, by decide⟩ .emoji
    (by decide +kernel) (by decide +kernel) rfl [idMember] [nullMember]
  have replaced := replaces (Chat.blankEntity .emoji) _ (userKey.holding [idMember])
    (userKey.holding []) ⟨3, by decide⟩ (by decide +kernel) (by decide +kernel) rfl
    (by rw [Outcome.reported_eq, succeeded]; rfl)
  have kept := clears (Chat.blankEntity .emoji) nullMember ⟨1, by decide⟩ (by decide +kernel)
    (by decide +kernel)
  refine ⟨?_, ?_, ?_⟩
  · have twice : objectText [emojiKey.holding [idMember], emojiKey.holding [nullMember]] =
        bytesOf "\x7b\"emoji\":\x7b\"id\":\"41\"\x7d,\"emoji\":\x7b\"name\":null\x7d\x7d" := by
      decide +kernel
    have once : objectText [emojiKey.holding ([idMember] ++ [nullMember])] =
        bytesOf "\x7b\"emoji\":\x7b\"id\":\"41\",\"name\":null\x7d\x7d" := by decide +kernel
    rwa [twice, once] at merged
  · have twice : objectText [userKey.holding [idMember], userKey.holding []] =
        bytesOf "\x7b\"user\":\x7b\"id\":\"41\"\x7d,\"user\":\x7b\x7d\x7d" := by decide +kernel
    have once : objectText [userKey.holding []] = bytesOf "\x7b\"user\":\x7b\x7d\x7d" := by
      decide +kernel
    rwa [twice, once] at replaced
  · have once : objectText [nullMember] = bytesOf "\x7b\"name\":null\x7d" := by decide +kernel
    have keeps : ∀ value : Chat.Value (.scalar .text), value.afterNull = value := by
      rintro ⟨value⟩
      rfl
    rw [once] at kept
    exact kept.trans (congrArg Except.ok
      ((congrArg _ (keeps _)).trans (Record.set_get (Chat.blankEntity .emoji) ⟨1, by decide⟩)))

end ChatCodec
