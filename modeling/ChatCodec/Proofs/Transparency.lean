import ChatCodec.Entity.Catalog
import ChatCodec.Proofs.Records
import ChatCodec.Proofs.Streaming.Texts

/-!
# Members that no field has

A member whose key finds no field is skipped, and where it stands is of no consequence.  To say
so for every object of a document, `DocumentReaches` follows the decoder to each place at which
it wants a key: into optional values, sequences and entities, and on behind every member and
every item that it decodes.

Up to such a place the document and the document with one member more go alike, and behind it
they do again.  In between stands the member, which leaves the record as it is
(`MembersReach.agrees`).  So the outcome is the same (`DocumentReaches.insert_unknown`).
-/

namespace ChatCodec

set_option autoImplicit false

open Scanned (Ends)

section

variable (C : Catalog) (matching : KeyMatching) (target : C.Name) (here : Lexer)

/-! ## Places of keys -/

mutual

/-- Decoding the value that begins with a token comes to a key of an entity, or to where one
may stand: the lexer is then in the given state. -/
inductive ValueReaches : Lexeme → (shape : C.Shape) → C.Value shape → Prop where
  | option {lexeme : Lexeme} {inner : C.Shape} {before : C.Value (.option inner)}
      (present : lexeme.token ≠ .null) (within : ValueReaches lexeme inner (C.blank inner)) :
      ValueReaches lexeme (.option inner) before
  | list {lexeme : Lexeme} {inner : C.Shape} {before : C.Value (.list inner)}
      (array : lexeme.token = .arrayStart) (within : ItemsReach lexeme.lexer inner .item) :
      ValueReaches lexeme (.list inner) before
  | entity {lexeme : Lexeme} {name : C.Name} {before : C.Entity name}
      (object : lexeme.token = .objectStart)
      (within : MembersReach lexeme.lexer name .key none before) :
      ValueReaches lexeme (.entity name) (.entity before)

/-- Decoding the rest of an array comes to a key. -/
inductive ItemsReach : Lexer → C.Shape → ItemPlace → Prop where
  | inside {lexer : Lexer} {inner : C.Shape} (isValue : lexer.scan.token.isValue = true)
      (within : ValueReaches lexer.scan inner (C.blank inner)) : ItemsReach lexer inner .item
  | behind {lexer : Lexer} {inner : C.Shape} (isValue : lexer.scan.token.isValue = true)
      (decoded : (decodeInto C matching (C.blank inner) lexer.scan.lexer
        lexer.scan.token).error = none)
      (further : ItemsReach (decodeInto C matching (C.blank inner) lexer.scan.lexer
        lexer.scan.token).lexer inner .separator) : ItemsReach lexer inner .item
  | separator {lexer : Lexer} {inner : C.Shape} (isComma : lexer.scan.token = .comma)
      (further : ItemsReach lexer.scan.lexer inner .item) : ItemsReach lexer inner .separator

/-- Decoding the rest of an object comes to a key. -/
inductive MembersReach : Lexer → (name : C.Name) → MemberPlace → Option Nat → C.Entity name →
    Prop where
  | here {current : Option Nat} {record : C.Entity target} :
      MembersReach here target .key current record
  | key {lexer : Lexer} {name : C.Name} {current : Option Nat} {record : C.Entity name}
      (isKey : lexer.scan.token = .string)
      (further : MembersReach lexer.scan.lexer name .colon
        (Key.resolve (C.keys name) lexer.scan.lexer.output matching) record) :
      MembersReach lexer name .key current record
  | colon {lexer : Lexer} {name : C.Name} {current : Option Nat} {record : C.Entity name}
      (isColon : lexer.scan.token = .colon)
      (further : MembersReach lexer.scan.lexer name .value current record) :
      MembersReach lexer name .colon current record
  | inside {lexer : Lexer} {name : C.Name} {record : C.Entity name}
      (index : Fin (C.fields name).length) (isValue : lexer.scan.token.isValue = true)
      (within : ValueReaches lexer.scan ((C.fields name).get index).shape (record.get index)) :
      MembersReach lexer name .value (some index) record
  | behind {lexer : Lexer} {name : C.Name} {current : Option Nat} {record : C.Entity name}
      (isValue : lexer.scan.token.isValue = true)
      (decoded : (decodeMember C matching current record lexer.scan.lexer
        lexer.scan.token).error = none)
      (further : MembersReach (decodeMember C matching current record lexer.scan.lexer
        lexer.scan.token).lexer name .separator none (decodeMember C matching current record
          lexer.scan.lexer lexer.scan.token).value) :
      MembersReach lexer name .value current record
  | separator {lexer : Lexer} {name : C.Name} {current : Option Nat} {record : C.Entity name}
      (isComma : lexer.scan.token = .comma)
      (further : MembersReach lexer.scan.lexer name .key none record) :
      MembersReach lexer name .separator current record

end

/-- **Decoding a document comes to a key** of an entity, at some depth, or to where one may
stand. -/
def DocumentReaches (name : C.Name) (payload : Bytes) : Prop :=
  let first := (Lexer.ofBytes payload).scan
  first.token = .objectStart ∧
    MembersReach C matching target here first.lexer name .key none (C.blankEntity name)

end

section

variable {C : Catalog} {matching : KeyMatching} {target : C.Name} {here : Lexer}

mutual

theorem ValueReaches.leadsTo : ∀ {lexeme : Lexeme} {shape : C.Shape} {before : C.Value shape},
    ValueReaches C matching target here lexeme shape before → lexeme.lexer.LeadsTo here
  | _, .option _, _, .option _ within => within.leadsTo
  | _, .list _, _, .list _ within => within.leadsTo
  | _, .entity _, .entity _, .entity _ within => within.leadsTo

theorem ItemsReach.leadsTo : ∀ {lexer : Lexer} {inner : C.Shape} {place : ItemPlace},
    ItemsReach C matching target here lexer inner place → lexer.LeadsTo here
  | _, _, _, .inside isValue within =>
      (Lexer.leadsTo_scan (Token.isFinal_of_isValue isValue)).trans within.leadsTo
  | _, _, _, .behind isValue decoded further =>
      (Lexer.leadsTo_of_passesLike isValue (decodeInto_passesLike _ _ _ _ _) decoded).trans
        further.leadsTo
  | _, _, _, .separator isComma further =>
      (Lexer.leadsTo_scan (by rw [isComma]; rfl)).trans further.leadsTo

/-- The place of a key lies further on. -/
theorem MembersReach.leadsTo : ∀ {lexer : Lexer} {name : C.Name} {place : MemberPlace}
    {current : Option Nat} {record : C.Entity name},
    MembersReach C matching target here lexer name place current record → lexer.LeadsTo here
  | _, _, _, _, _, .here => .refl here
  | _, _, _, _, _, .key isKey further =>
      (Lexer.leadsTo_scan (by rw [isKey]; rfl)).trans further.leadsTo
  | _, _, _, _, _, .colon isColon further =>
      (Lexer.leadsTo_scan (by rw [isColon]; rfl)).trans further.leadsTo
  | _, _, _, _, _, .inside _ isValue within =>
      (Lexer.leadsTo_scan (Token.isFinal_of_isValue isValue)).trans within.leadsTo
  | _, _, _, _, _, .behind isValue decoded further =>
      (Lexer.leadsTo_of_passesLike isValue (decodeMember_passesLike _ _ _ _) decoded).trans
        further.leadsTo
  | _, _, _, _, _, .separator isComma further =>
      (Lexer.leadsTo_scan (by rw [isComma]; rfl)).trans further.leadsTo

end

/-! ## Payloads that part at a key -/

/-- The second payload of a parting goes on with something else at the place of the key, but
decoding the rest of the object from there agrees. -/
structure Parting.Agrees (p : Parting) (C : Catalog) (matching : KeyMatching) (target : C.Name)
    (here : Lexer) : Prop where
  rest_eq : p.rest = here.ahead
  ends : Ends p.rest'
  agrees : ∀ {lexer' : Lexer}, here.fault = none → lexer'.Faces p.rest' →
    ∀ (current : Option Nat) (record : C.Entity target),
      (decodeMembers C matching here.body target .key current record).Agrees Lexer.Alike
        (decodeMembers C matching lexer'.body target .key current record)

section

variable {p : Parting}

theorem Parting.Agrees.within (parts : p.Agrees C matching target here) {lexer : Lexer}
    (leads : lexer.LeadsTo here) : ∃ front, lexer.ahead = front ++ p.rest := by
  obtain ⟨front, ahead, -⟩ := leads
  exact ⟨front, by rw [parts.rest_eq, ahead]⟩

/-- A token before the place of the key is copied. -/
theorem Parting.Agrees.copies (parts : p.Agrees C matching target here) {lexer lexer' : Lexer}
    (faces : p.Faces lexer lexer') (going : lexer.scan.token.isFinal = false)
    (leads : lexer.scan.lexer.LeadsTo here) :
    p.Copies lexer.scan lexer'.scan :=
  faces.copies_scan parts.ends going (parts.within leads)

/-- So is a value. -/
theorem Parting.Agrees.related (parts : p.Agrees C matching target here) {lexer lexer' : Lexer}
    (faces : p.Faces lexer lexer') (isValue : lexer.scan.token.isValue = true) {Value : Type}
    {outcome : Outcome Value}
    (passes : outcome.PassesLike (lexer.scan.lexer.skipValue lexer.scan.token))
    (succeeded : outcome.error = none) (leads : outcome.lexer.LeadsTo here) :
    lexer'.scan.token.isValue = true ∧
      (lexer.scan.lexer.tree lexer.scan.token).Related p.Copies
        (lexer'.scan.lexer.tree lexer'.scan.token) := by
  have skipped := passes succeeded
  rw [Lexer.skipValue] at skipped
  obtain ⟨nested, lands⟩ :=
    skipTree_lands (lexer.scan.lexer.isOpened_tree lexer.scan.token) (by rw [skipped]; rfl)
  rw [skipped] at lands
  have last : outcome.lexer = (lexer.scan.lexer.tree lexer.scan.token).last.lexer := lands
  rw [last] at leads
  obtain ⟨copies, related, -⟩ := faces.exists_value parts.ends isValue nested (parts.within leads)
  exact ⟨by rw [copies.token_eq, isValue], related⟩

mutual

/-- **Decoding a value agrees** if the place of the key lies in it. -/
theorem ValueReaches.agrees (parts : p.Agrees C matching target here) :
    ∀ {lexeme : Lexeme} {shape : C.Shape} {before : C.Value shape},
      ValueReaches C matching target here lexeme shape before → ∀ {lexeme' : Lexeme},
        p.Copies lexeme lexeme' →
          (decodeInto C matching before lexeme.lexer lexeme.token).Agrees Lexer.Alike
            (decodeInto C matching before lexeme'.lexer lexeme'.token)
  | lexeme, .option _, before, .option present within, lexeme', copies => by
      have head : (lexeme.lexer.tree lexeme.token).head.token ≠ .null := by
        rw [Lexer.head_tree]
        exact present
      have head' : (lexeme'.lexer.tree lexeme'.token).head.token ≠ .null := by
        rw [Lexer.head_tree, copies.token_eq]
        exact present
      rw [decodeInto, decodeInto, decodeTree_option head, decodeTree_option head']
      exact (within.agrees parts copies).replace before .some
  | _, .list _, before, .list array within, _, copies => by
      have going := copies.faces (by rw [array]; decide)
      rw [copies.token_eq, array, decodeInto_list, decodeInto_list]
      exact (within.agrees parts going).map _
  | _, .entity _, .entity before, .entity object within, _, copies => by
      have going := copies.faces (by rw [object]; decide)
      rw [copies.token_eq, object, decodeInto_entity, decodeInto_entity]
      exact (within.agrees parts going).map _

theorem ItemsReach.agrees (parts : p.Agrees C matching target here) :
    ∀ {lexer : Lexer} {inner : C.Shape} {place : ItemPlace},
      ItemsReach C matching target here lexer inner place → ∀ {lexer' : Lexer},
        p.Faces lexer lexer' →
          (decodeItems C matching lexer.body inner place).Agrees Lexer.Alike
            (decodeItems C matching lexer'.body inner place)
  | lexer, inner, _, .inside isValue within, lexer', faces => by
      have copies := parts.copies faces (Token.isFinal_of_isValue isValue) within.leadsTo
      rw [decodeItems_item isValue, decodeItems_item (by rw [copies.token_eq, isValue])]
      refine (within.agrees parts copies).follow fun _ alike => ?_
      exact (alike.decodeItems_agrees inner .separator).map _
  | lexer, inner, _, .behind isValue decoded further, lexer', faces => by
      obtain ⟨isValue', related⟩ := parts.related faces isValue
        (decodeInto_passesLike _ _ _ _ _) decoded further.leadsTo
      rw [decodeItems_item isValue, decodeItems_item isValue']
      refine (decodeTree_agrees p.alikeness related (fun _ => p.sameRaw) (C.blank inner)).follow
        fun _ going => ?_
      exact (further.agrees parts going).map _
  | lexer, inner, _, .separator isComma further, lexer', faces => by
      have copies := parts.copies faces (by rw [isComma]; rfl) further.leadsTo
      rw [decodeItems_separator isComma, decodeItems_separator (by rw [copies.token_eq, isComma])]
      exact further.agrees parts (copies.faces (by rw [isComma]; decide))

theorem MembersReach.agrees (parts : p.Agrees C matching target here) :
    ∀ {lexer : Lexer} {name : C.Name} {place : MemberPlace} {current : Option Nat}
      {record : C.Entity name},
      MembersReach C matching target here lexer name place current record → ∀ {lexer' : Lexer},
        p.Faces lexer lexer' →
          (decodeMembers C matching lexer.body name place current record).Agrees Lexer.Alike
            (decodeMembers C matching lexer'.body name place current record)
  | _, _, _, current, record, .here, lexer', faces => by
      obtain ⟨front, ahead, ahead', -⟩ := faces.ahead
      rw [parts.rest_eq] at ahead
      obtain rfl := List.append_left_eq_self.mp ahead.symm
      exact parts.agrees faces.going ⟨faces.going', ahead'⟩ current record
  | lexer, name, _, _, record, .key isKey further, lexer', faces => by
      have copies := parts.copies faces (by rw [isKey]; rfl) further.leadsTo
      have agrees := further.agrees parts (copies.faces (by rw [isKey]; decide))
      rw [decodeMembers_key isKey, decodeMembers_key (by rw [copies.token_eq, isKey]),
        copies.output_eq]
      revert agrees
      cases Key.resolve (C.keys name) lexer.scan.lexer.output matching with
      | some index => exact fun agrees => agrees
      | none => exact fun agrees => agrees.note _ _
  | lexer, name, _, current, record, .colon isColon further, lexer', faces => by
      have copies := parts.copies faces (by rw [isColon]; rfl) further.leadsTo
      rw [decodeMembers_colon isColon, decodeMembers_colon (by rw [copies.token_eq, isColon])]
      exact further.agrees parts (copies.faces (by rw [isColon]; decide))
  | lexer, name, _, _, record, .inside index isValue within, lexer', faces => by
      have copies := parts.copies faces (Token.isFinal_of_isValue isValue) within.leadsTo
      rw [decodeMembers_value isValue, decodeMembers_value (by rw [copies.token_eq, isValue])]
      refine Outcome.Agrees.follow (?_ : Outcome.Agrees Lexer.Alike _ _) fun _ alike =>
        alike.decodeMembers_agrees name .separator none _
      rw [decodeMember, decodeMember]
      simp only [decodeField, Record.decodeAt_eq]
      exact (within.agrees parts copies).map _
  | lexer, name, _, current, record, .behind isValue decoded further, lexer', faces => by
      obtain ⟨isValue', related⟩ := parts.related faces isValue
        (decodeMember_passesLike _ _ _ _) decoded further.leadsTo
      rw [decodeMembers_value isValue, decodeMembers_value isValue']
      exact (decodeMember_agrees p.alikeness p.sameRaw related).follow fun _ going =>
        further.agrees parts going
  | lexer, name, _, current, record, .separator isComma further, lexer', faces => by
      have copies := parts.copies faces (by rw [isComma]; rfl) further.leadsTo
      rw [decodeMembers_separator isComma,
        decodeMembers_separator (by rw [copies.token_eq, isComma])]
      exact further.agrees parts (copies.faces (by rw [isComma]; decide))

end

end

/-! ## The member that is inserted -/

/-- A member that no field has, with the comma behind it. -/
def insertion (key value : Bytes) : Bytes :=
  Ascii.quote :: (key ++ Ascii.quote :: Ascii.colon :: (value ++ [Ascii.comma]))

/-- **Decoding goes on behind an unknown member** as if it did not stand there. -/
theorem Parting.Agrees.of_unknown {p : Parting} {key value : Bytes} (rest : p.rest = here.ahead)
    (rest' : p.rest' = insertion key value ++ here.ahead) (raw : ∀ byte ∈ key, Ascii.IsRaw byte)
    (unknown : Key.resolve (C.keys target) key matching = none) (isValue : IsValueText value) :
    p.Agrees C matching target here where
  rest_eq := rest
  ends := by
    rw [rest']
    exact ⟨Ascii.stops_cons.mpr (by decide), Ascii.stops_cons.mpr (by decide)⟩
  agrees := by
    intro lexer' going faces current record
    rw [rest'] at faces
    have comma : Scanned.punctuation? Ascii.comma = some .comma := by decide
    let member : PlacedMember := { KeyText.ofRaw raw with value, isValue }
    have approaches : lexer'.Approaches (member.bytes ++ Ascii.comma :: here.ahead) := by
      have whole : insertion key value ++ here.ahead = member.bytes ++ Ascii.comma :: here.ahead := by
        simp only [insertion, member, PlacedMember.bytes, KeyText.ofRaw, List.nil_append,
          List.append_nil, List.cons_append, List.append_assoc]
      rw [← whole]
      exact faces.approaches
    obtain ⟨written, yields, same⟩ := member.exists_written C matching current record approaches
      (Scanned.ends_of_punctuation? comma _)
    have unknownMember : member.field? C target matching = none := by
      rw [KeyText.field?, show member.captured = key from KeyText.captured_ofRaw raw]
      exact unknown
    rw [member.write_of_unknown unknownMember] at yields
    obtain ⟨succeeded, isRecord, nears⟩ := yields.succeeds
    obtain ⟨isComma, facesRest⟩ := nears.scan_mark comma
    have alike : here.Alike written.lexer.scan.lexer := ⟨_, ⟨going, rfl⟩, facesRest⟩
    have behind := Outcome.Agrees.of_follow succeeded id fun record behind =>
      decodeMembers C matching behind.body target .separator none record
    rw [isRecord, decodeMembers_separator isComma] at behind
    rw [decodeMembers_key_of_any]
    exact ((alike.decodeMembers_agrees target .key none record).trans behind).trans same

/-- **Unknown members are transparent.**  Wherever the decoder comes to a key of an entity, in
the document's own object or in a nested one, a member may be inserted there whose key finds no
field of the entity, whatever value it has: decoding ends with the same entity, or with an error
that has the same cause, the same token and the same captured bytes. -/
theorem DocumentReaches.insert_unknown {name : C.Name} {payload : Bytes}
    (reached : DocumentReaches C matching target here name payload) {key value : Bytes}
    (raw : ∀ byte ∈ key, Ascii.IsRaw byte)
    (unknown : Key.resolve (C.keys target) key matching = none) (isValue : IsValueText value) :
    (decodeDocument C matching name (payload.take here.position ++ (insertion key value ++
      payload.drop here.position))).reported = (decodeDocument C matching name payload).reported := by
  obtain ⟨isStart, within⟩ := reached
  have going : (Lexer.ofBytes payload).scan.token.isFinal = false := by
    rw [isStart]
    rfl
  obtain ⟨front, ahead, position⟩ := (Lexer.leadsTo_scan going).trans within.leadsTo
  have whole : payload = front ++ here.ahead := ahead
  have parted : payload.take here.position ++ (insertion key value ++ payload.drop here.position) =
      front ++ (insertion key value ++ here.ahead) := by
    rw [position, whole, Lexer.ofBytes, Nat.zero_add, List.take_left, List.drop_left]
  rw [parted]
  obtain ⟨p, rest, rest', faces⟩ : ∃ p : Parting, p.rest = here.ahead ∧
      p.rest' = insertion key value ++ here.ahead ∧
      p.Faces (Lexer.ofBytes payload) (Lexer.ofBytes (front ++ (insertion key value ++ here.ahead))) :=
    ⟨_, rfl, rfl, Parting.faces_between ⟨rfl, whole⟩ ⟨rfl, rfl⟩⟩
  have parts : p.Agrees C matching target here :=
    .of_unknown rest rest' raw unknown isValue
  have copies := parts.copies faces going within.leadsTo
  have agrees := within.agrees parts (copies.faces (by rw [isStart]; decide))
  rw [decodeDocument_reported, decodeDocument_reported, decodeOnto, decodeOnto, decodeObject,
    decodeObject]
  simp only [if_pos isStart, if_pos (copies.token_eq.trans isStart)]
  exact (agrees.follow fun _ alike => alike.finishWith_agrees _).reported_eq

end

/-- A reaction with an emoji in it, and a comma behind the last member of the emoji. -/
def trailingPayload : Bytes := bytesOf "\x7b\"emoji\":\x7b\"id\":\"41\",\x7d,\"count\":2\x7d"

/-- The lexer behind the comma. -/
def emojiAhead : Lexer where
  ahead := bytesOf "\x7d,\"count\":2\x7d"
  position := 20
  start := 19
  fromStart := bytesOf ",\x7d,\"count\":2\x7d"
  output := []
  fault := none

/-- Behind the comma a key of the emoji may stand. -/
theorem reaches_emoji :
    DocumentReaches Chat .lenient .emoji emojiAhead .reaction trailingPayload := by
  have here : ∀ (lexer : Lexer) (record : Chat.Entity .emoji), lexer = emojiAhead →
      MembersReach Chat .lenient .emoji emojiAhead lexer .emoji .key none record := by
    rintro lexer record rfl
    exact .here
  have emoji : Key.resolve (Chat.keys .reaction)
      (Lexer.ofBytes trailingPayload).scan.lexer.scan.lexer.output .lenient = some 2 := by
    decide +kernel
  refine ⟨by decide +kernel, .key (by decide +kernel) (.colon (by decide +kernel) ?_)⟩
  rw [emoji]
  refine .inside ⟨2, by decide⟩ (by decide +kernel) ?_
  rw [Catalog.get_blankEntity]
  refine .entity (by decide +kernel) (.key (by decide +kernel) (.colon (by decide +kernel) ?_))
  refine .behind (by decide +kernel) (by decide +kernel) (.separator (by decide +kernel) ?_)
  exact here _ _ (by decide +kernel)

/-- An emoji may have a member behind the comma that no emoji has. -/
theorem insert_unknown_shiny :
    (decodeDocument Chat .lenient .reaction (bytesOf
        "\x7b\"emoji\":\x7b\"id\":\"41\",\"shiny\":[1,\x7b\x7d,],\x7d,\"count\":2\x7d")).reported =
      (decodeDocument Chat .lenient .reaction trailingPayload).reported := by
  have inserted := reaches_emoji.insert_unknown
    (show ∀ byte ∈ bytesOf "shiny", Ascii.IsRaw byte by decide +kernel) (by decide +kernel)
    (show IsValueText (bytesOf "[1,\x7b\x7d,]") by decide +kernel)
  have same : trailingPayload.take emojiAhead.position ++
      (insertion (bytesOf "shiny") (bytesOf "[1,\x7b\x7d,]") ++
        trailingPayload.drop emojiAhead.position) =
      bytesOf "\x7b\"emoji\":\x7b\"id\":\"41\",\"shiny\":[1,\x7b\x7d,],\x7d,\"count\":2\x7d" := by
    decide +kernel
  rwa [same] at inserted

end ChatCodec
