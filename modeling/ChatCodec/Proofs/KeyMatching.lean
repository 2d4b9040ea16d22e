import ChatCodec.Proofs.Keys
import ChatCodec.Proofs.RoundTrip
import ChatCodec.Proofs.Transparency

/-!
# The matching of keys in documents

Decoding asks how keys are matched only where it comes to one, in the document's own object or in
a nested one.  So two matchings that find the same for every key it comes to give the same outcome
(`decodeDocument_eq_of_indifferent`), and a key may be exchanged for another that finds the same
field (`DocumentReaches.replace_key`).

For the entities of the chat service this says when the matching makes a difference, and what
lenient matching looks at (`Chat.decodeDocument_matching`): none where all keys are settled
(`Key.IsSettled`), and at the letters of a key.
-/

namespace ChatCodec

set_option autoImplicit false

/-! ## Keys that both matchings find alike -/

/-- Of every key that is reached, both matchings make the same. -/
def Indifferent (C : Catalog) (matching other : KeyMatching) (reaches : C.Name → Lexer → Prop) :
    Prop :=
  ∀ target here, reaches target here → here.scan.token = .string →
    Key.resolve (C.keys target) here.scan.lexer.output matching =
      Key.resolve (C.keys target) here.scan.lexer.output other

theorem Indifferent.mono {C : Catalog} {matching other : KeyMatching}
    {reaches fewer : C.Name → Lexer → Prop} (indifferent : Indifferent C matching other reaches)
    (less : ∀ target here, fewer target here → reaches target here) :
    Indifferent C matching other fewer :=
  fun target here isReached => indifferent target here (less target here isReached)

section

variable {C : Catalog} {matching other : KeyMatching}

/-- A value that is no group is decoded without regard to keys. -/
theorem decodeInto_of_not_opens {lexeme : Lexeme} (single : ¬ lexeme.token.isOpening = true)
    {shape : C.Shape} (before : C.Value shape) :
    decodeInto C matching before lexeme.lexer lexeme.token =
      decodeInto C other before lexeme.lexer lexeme.token := by
  rw [decodeInto, decodeInto, Lexer.tree, if_neg single, decodeTree, decodeTree]

/-- So is a sequence that does not begin with a bracket. -/
theorem decodeInto_list_of_ne {lexeme : Lexeme} (misfit : lexeme.token ≠ .arrayStart)
    {inner : C.Shape} (before : C.Value (.list inner)) :
    decodeInto C matching before lexeme.lexer lexeme.token =
      decodeInto C other before lexeme.lexer lexeme.token := by
  by_cases opens : lexeme.token.isOpening = true
  · rw [decodeInto, decodeInto, Lexer.tree, if_pos opens, decodeTree, decodeTree, decodeGroup,
      decodeGroup]
    exact (if_neg misfit).trans (if_neg misfit).symm
  · exact decodeInto_of_not_opens opens before

/-- And so is an entity that does not begin with a brace. -/
theorem decodeInto_entity_of_ne {lexeme : Lexeme} (misfit : lexeme.token ≠ .objectStart)
    {name : C.Name} (before : C.Entity name) :
    decodeInto C matching (.entity before) lexeme.lexer lexeme.token =
      decodeInto C other (.entity before) lexeme.lexer lexeme.token := by
  by_cases opens : lexeme.token.isOpening = true
  · rw [decodeInto, decodeInto, Lexer.tree, if_pos opens, decodeTree, decodeTree, decodeGroup,
      decodeGroup]
    exact (if_neg misfit).trans (if_neg misfit).symm
  · exact decodeInto_of_not_opens opens _

/-- A member is decoded alike if its value is decoded alike into its field. -/
theorem decodeMember_congr {name : C.Name} {current : Option Nat} {record : C.Entity name}
    {lexeme : Lexeme}
    (values : ∀ index : Fin (C.fields name).length, current = some index.val →
      decodeInto C matching (record.get index) lexeme.lexer lexeme.token =
        decodeInto C other (record.get index) lexeme.lexer lexeme.token) :
    decodeMember C matching current record lexeme.lexer lexeme.token =
      decodeMember C other current record lexeme.lexer lexeme.token := by
  cases current with
  | none => rfl
  | some number =>
      rw [decodeMember, decodeMember]
      simp only [decodeField]
      by_cases inside : number < (C.fields name).length
      · obtain ⟨index, rfl⟩ : ∃ index : Fin (C.fields name).length, index.val = number :=
          ⟨⟨number, inside⟩, rfl⟩
        rw [Record.decodeAt_eq, Record.decodeAt_eq]
        exact congrArg (Outcome.map _) (values index rfl)
      · rw [Record.decodeAt_beyond _ _ _ _ (Nat.le_of_not_lt inside),
          Record.decodeAt_beyond _ _ _ _ (Nat.le_of_not_lt inside)]

mutual

/-- **Where both matchings find every key alike**, a value is decoded alike. -/
theorem decodeInto_eq {lexeme : Lexeme} : ∀ {shape : C.Shape} {before : C.Value shape},
    Indifferent C matching other (ValueReaches C matching · · lexeme shape before) →
      decodeInto C matching before lexeme.lexer lexeme.token =
        decodeInto C other before lexeme.lexer lexeme.token
  | .scalar kind, .scalar before, _ => by
      rw [decodeInto, decodeInto, decodeTree_scalar, decodeTree_scalar]
  | .option inner, before, indifferent => by
      by_cases present : lexeme.token = .null
      · exact decodeInto_of_not_opens (by rw [present]; decide) before
      · have head : (lexeme.lexer.tree lexeme.token).head.token ≠ .null := by
          rw [Lexer.head_tree]
          exact present
        have same := decodeInto_eq (indifferent.mono fun _ _ within => .option present within)
        rw [decodeInto, decodeInto] at same ⊢
        rw [decodeTree_option head, decodeTree_option head, same]
  | .list inner, before, indifferent => by
      by_cases array : lexeme.token = .arrayStart
      · rw [array, decodeInto_list, decodeInto_list,
          decodeItems_eq (indifferent.mono fun _ _ within => .list array within)]
      · exact decodeInto_list_of_ne array before
  | .entity name, .entity before, indifferent => by
      by_cases object : lexeme.token = .objectStart
      · rw [object, decodeInto_entity, decodeInto_entity, decodeFrom, decodeFrom,
          decodeMembers_eq (indifferent.mono fun _ _ within => .entity object within)]
      · exact decodeInto_entity_of_ne object before
termination_by shape => (lexeme.lexer.ahead.length, 1, sizeOf shape)

theorem decodeItems_eq {lexer : Lexer} {inner : C.Shape} : ∀ {place : ItemPlace},
    Indifferent C matching other (ItemsReach C matching · · lexer inner place) →
      decodeItems C matching lexer.body inner place = decodeItems C other lexer.body inner place
  | place, indifferent => by
      by_cases admitted : place.admits lexer.scan.token = true
      · cases place with
        | item =>
            have isValue : lexer.scan.token.isValue = true := admitted
            have shorter := lexer.scan_ahead_lt (Token.isFinal_of_isValue isValue)
            have head := decodeInto_eq (indifferent.mono fun _ _ within => .inside isValue within)
            rw [decodeItems_item isValue, decodeItems_item isValue, ← head]
            refine Outcome.follow_congr fun succeeded => ?_
            have shorterBehind := Lexer.ahead_lt_of_passesLike isValue
              (decodeInto_passesLike C matching _ _ _) succeeded
            rw [decodeItems_eq (indifferent.mono fun _ _ further =>
              .behind isValue succeeded further)]
        | separator =>
            have isComma : lexer.scan.token = .comma := beq_iff_eq.mp admitted
            have shorter := lexer.scan_ahead_lt (by rw [isComma]; rfl)
            rw [decodeItems_separator isComma, decodeItems_separator isComma,
              decodeItems_eq (indifferent.mono fun _ _ further => .separator isComma further)]
      · rw [decodeItems_of_not_admits admitted, decodeItems_of_not_admits admitted]
termination_by (lexer.ahead.length, 0, 0)

theorem decodeMembers_eq {lexer : Lexer} {name : C.Name} : ∀ {place : MemberPlace}
    {current : Option Nat} {record : C.Entity name},
    Indifferent C matching other (MembersReach C matching · · lexer name place current record) →
      decodeMembers C matching lexer.body name place current record =
        decodeMembers C other lexer.body name place current record
  | place, current, record, indifferent => by
      by_cases admitted : place.admits lexer.scan.token = true
      · cases place with
        | key =>
            have isKey : lexer.scan.token = .string := beq_iff_eq.mp admitted
            have shorter := lexer.scan_ahead_lt (by rw [isKey]; rfl)
            have found := indifferent name lexer .here isKey
            have behind := decodeMembers_eq
              (indifferent.mono fun _ _ further => .key isKey further)
            rw [decodeMembers_key isKey, decodeMembers_key isKey, ← found]
            revert behind
            cases Key.resolve (C.keys name) lexer.scan.lexer.output matching with
            | some index => exact fun behind => behind
            | none => exact fun behind => congrArg (Outcome.note _) behind
        | colon =>
            have isColon : lexer.scan.token = .colon := beq_iff_eq.mp admitted
            have shorter := lexer.scan_ahead_lt (by rw [isColon]; rfl)
            rw [decodeMembers_colon isColon, decodeMembers_colon isColon,
              decodeMembers_eq (indifferent.mono fun _ _ further => .colon isColon further)]
        | value =>
            have isValue : lexer.scan.token.isValue = true := admitted
            have shorter := lexer.scan_ahead_lt (Token.isFinal_of_isValue isValue)
            have member : decodeMember C matching current record lexer.scan.lexer lexer.scan.token =
                decodeMember C other current record lexer.scan.lexer lexer.scan.token :=
              decodeMember_congr fun index found => decodeInto_eq
                (indifferent.mono fun _ _ within => found ▸ .inside index isValue within)
            rw [decodeMembers_value isValue, decodeMembers_value isValue, ← member]
            refine Outcome.follow_congr fun succeeded => ?_
            have shorterBehind := Lexer.ahead_lt_of_passesLike isValue
              (decodeMember_passesLike current record _ _) succeeded
            rw [decodeMembers_eq (indifferent.mono fun _ _ further =>
              .behind isValue succeeded further)]
        | separator =>
            have isComma : lexer.scan.token = .comma := beq_iff_eq.mp admitted
            have shorter := lexer.scan_ahead_lt (by rw [isComma]; rfl)
            rw [decodeMembers_separator isComma, decodeMembers_separator isComma,
              decodeMembers_eq (indifferent.mono fun _ _ further => .separator isComma further)]
      · rw [decodeMembers_of_not_admits admitted, decodeMembers_of_not_admits admitted]
termination_by (lexer.ahead.length, 0, 0)

end

/-- **Where both matchings find every key alike**, a document is decoded alike. -/
theorem decodeDocument_eq_of_indifferent {name : C.Name} {payload : Bytes}
    (indifferent : Indifferent C matching other (DocumentReaches C matching · · name payload)) :
    decodeDocument C matching name payload = decodeDocument C other name payload := by
  have object : decodeObject C matching (C.blankEntity name) (Lexer.ofBytes payload) =
      decodeObject C other (C.blankEntity name) (Lexer.ofBytes payload) := by
    rw [decodeObject, decodeObject]
    by_cases isStart : (Lexer.ofBytes payload).scan.token = .objectStart
    · simp only [if_pos isStart]
      exact decodeMembers_eq (indifferent.mono fun _ _ within => ⟨isStart, within⟩)
    · simp only [if_neg isStart]
  rw [decodeDocument, decodeDocument, object]

end

/-! ## What is reached from a place -/

section

variable {C : Catalog} {matching : KeyMatching} {target : C.Name} {here lexer : Lexer}
  {name : C.Name} {current : Option Nat} {record : C.Entity name}

/-- There are no keys in a scalar. -/
theorem ValueReaches.not_scalar {lexeme : Lexeme} {kind : Scalar}
    {before : C.Value (.scalar kind)} :
    ¬ ValueReaches C matching target here lexeme (.scalar kind) before := nofun

theorem MembersReach.of_key
    (reached : MembersReach C matching target here lexer name .key current record) :
    (target = name ∧ here = lexer) ∨
      MembersReach C matching target here lexer.scan.lexer name .colon
        (Key.resolve (C.keys name) lexer.scan.lexer.output matching) record := by
  cases reached with
  | here => exact .inl ⟨rfl, rfl⟩
  | key isKey further => exact .inr further

theorem MembersReach.of_colon
    (reached : MembersReach C matching target here lexer name .colon current record) :
    MembersReach C matching target here lexer.scan.lexer name .value current record := by
  cases reached with
  | colon isColon further => exact further

theorem MembersReach.of_value
    (reached : MembersReach C matching target here lexer name .value current record) :
    (∃ index : Fin (C.fields name).length, current = some index.val ∧
      ValueReaches C matching target here lexer.scan ((C.fields name).get index).shape
        (record.get index)) ∨
      MembersReach C matching target here (decodeMember C matching current record lexer.scan.lexer
        lexer.scan.token).lexer name .separator none (decodeMember C matching current record
          lexer.scan.lexer lexer.scan.token).value := by
  cases reached with
  | inside index isValue within => exact .inl ⟨index, rfl, within⟩
  | behind isValue decoded further => exact .inr further

theorem MembersReach.of_separator
    (reached : MembersReach C matching target here lexer name .separator current record) :
    lexer.scan.token = .comma ∧
      MembersReach C matching target here lexer.scan.lexer name .key none record := by
  cases reached with
  | separator isComma further => exact ⟨isComma, further⟩

end

/-! ## Another key -/

section

variable {C : Catalog} {matching : KeyMatching} {target : C.Name} {here : Lexer}

/-- The payload with another text in place of a token. -/
def replaceToken (payload : Bytes) (lexeme : Lexeme) (body : Bytes) : Bytes :=
  payload.take lexeme.lexer.start ++ (Ascii.quote :: body ++ payload.drop lexeme.lexer.position)

/-- **Decoding goes on behind another key** as behind the one that stands there, if it finds the
same field. -/
theorem Parting.Agrees.of_key {p : Parting} {spaces body rest : Bytes} {units : List TextUnit}
    (isKey : here.scan.token = .string) (blank : ∀ byte ∈ spaces, Ascii.isSpace byte = true)
    (rest_eq : p.rest = here.ahead) (rest_eq' : p.rest' = spaces ++ (Ascii.quote :: body ++ rest))
    (behind : here.scan.lexer.Faces rest) (isText : TextScan.IsText body units)
    (found : Key.resolve (C.keys target) (TextUnit.spell units) matching =
      Key.resolve (C.keys target) here.scan.lexer.output matching) :
    p.Agrees C matching target here where
  rest_eq := rest_eq
  ends := by
    rw [rest_eq']
    exact Scanned.ends_of_blank blank
      ⟨Ascii.stops_cons.mpr (by decide), Ascii.stops_cons.mpr (by decide)⟩
  agrees := by
    intro lexer' _ faces current record
    have reads : Scanned.Reads .string _ _ rest := .text isText rest
    have scan := Lexer.scan_of_reads faces.going (faces.ahead_eq.trans rest_eq') blank
      reads.stops_space reads
    have isKey' : lexer'.scan.token = .string := by rw [scan]
    have behind' : lexer'.scan.lexer.Faces rest := by rw [scan]; exact ⟨rfl, rfl⟩
    have alike : here.scan.lexer.Alike lexer'.scan.lexer := ⟨rest, behind, behind'⟩
    have found' : Key.resolve (C.keys target) lexer'.scan.lexer.output matching =
        Key.resolve (C.keys target) here.scan.lexer.output matching := by
      rw [scan]
      exact found
    rw [decodeMembers_key isKey, decodeMembers_key isKey', found']
    cases Key.resolve (C.keys target) here.scan.lexer.output matching with
    | some index => exact alike.decodeMembers_agrees target .colon (some index) record
    | none => exact (alike.decodeMembers_agrees target .colon none record).note _ _

/-- Documents that part at a place of a key are decoded alike, if the rest of the object is decoded
alike from there. -/
theorem DocumentReaches.reported_of_parts {name : C.Name} {payload front rest' : Bytes}
    (reached : DocumentReaches C matching target here name payload)
    (whole : payload = front ++ here.ahead)
    (parts : ∀ p : Parting, p.rest = here.ahead → p.rest' = rest' →
      p.Agrees C matching target here) :
    (decodeDocument C matching name (front ++ rest')).reported =
      (decodeDocument C matching name payload).reported := by
  obtain ⟨isStart, within⟩ := reached
  have going : (Lexer.ofBytes payload).scan.token.isFinal = false := by
    rw [isStart]
    rfl
  obtain ⟨p, parted, parted', faces⟩ : ∃ p : Parting, p.rest = here.ahead ∧ p.rest' = rest' ∧
      p.Faces (Lexer.ofBytes payload) (Lexer.ofBytes (front ++ rest')) :=
    ⟨_, rfl, rfl, Parting.faces_between ⟨rfl, whole⟩ ⟨rfl, rfl⟩⟩
  have agreeing := parts p parted parted'
  have copies := agreeing.copies faces going within.leadsTo
  have agrees := within.agrees agreeing (copies.faces (by rw [isStart]; decide))
  rw [decodeDocument_reported, decodeDocument_reported, decodeOnto, decodeOnto, decodeObject,
    decodeObject]
  simp only [if_pos isStart, if_pos (copies.token_eq.trans isStart)]
  exact (agrees.follow fun _ alike => alike.finishWith_agrees _).reported_eq

/-- A place of a key lies in the payload. -/
theorem DocumentReaches.exists_front {name : C.Name} {payload : Bytes}
    (reached : DocumentReaches C matching target here name payload) :
    ∃ front, payload = front ++ here.ahead ∧ here.position = front.length := by
  obtain ⟨isStart, within⟩ := reached
  obtain ⟨front, ahead, position⟩ :=
    (Lexer.leadsTo_scan (by rw [isStart]; rfl)).trans within.leadsTo
  exact ⟨front, ahead, position.trans (Nat.zero_add _)⟩

/-- **Where a key is reached, another may stand** that finds the same field: decoding ends with
the same entity, or with an error that says the same. -/
theorem DocumentReaches.replace_key {name : C.Name} {payload : Bytes}
    (reached : DocumentReaches C matching target here name payload)
    (isKey : here.scan.token = .string) {body : Bytes} {units : List TextUnit}
    (isText : TextScan.IsText body units)
    (found : Key.resolve (C.keys target) (TextUnit.spell units) matching =
      Key.resolve (C.keys target) here.scan.lexer.output matching) :
    (decodeDocument C matching name (replaceToken payload here.scan body)).reported =
      (decodeDocument C matching name payload).reported := by
  obtain ⟨front, whole, position⟩ := reached.exists_front
  obtain ⟨spaces, -, blank, atKey, -, settled, start, ends, -⟩ :=
    @Lexer.exists_spaces here (by rw [isKey]; decide)
  have before : payload.take here.scan.lexer.start = front ++ spaces := by
    rw [start, position, whole, atKey, ← List.append_assoc, ← List.length_append, List.take_left]
  have after : payload.drop here.scan.lexer.position = here.scan.lexer.ahead := by
    rw [ends, start, position, whole, atKey, ← List.append_assoc, ← List.append_assoc,
      ← List.length_append, ← List.length_append, List.drop_left]
  have parted : replaceToken payload here.scan body =
      front ++ (spaces ++ (Ascii.quote :: body ++ here.scan.lexer.ahead)) := by
    rw [replaceToken, before, after, List.append_assoc]
  rw [parted]
  exact reached.reported_of_parts whole fun p rest_eq rest_eq' =>
    .of_key isKey blank rest_eq rest_eq' ⟨settled, rfl⟩ isText found

end

/-! ## The chat service -/

/-- **What the matching of keys looks at.**  If every key that is reached is settled, exact and
lenient matching give the same outcome for every entity of the chat service.  And under lenient
matching, wherever a key is reached, any other with the same letters may stand: decoding ends with
the same entity, or with an error that has the same cause, the same token and the same captured
bytes. -/
theorem Chat.decodeDocument_matching (name : EntityName) (payload : Bytes) :
    (∀ matching, (∀ target here, DocumentReaches Chat matching target here name payload →
        here.scan.token = .string →
          Key.IsSettled (Chat.keys target) here.scan.lexer.output) →
      decodeDocument Chat .exact name payload = decodeDocument Chat .lenient name payload) ∧
    (∀ target here, DocumentReaches Chat .lenient target here name payload →
      here.scan.token = .string → ∀ body units, TextScan.IsText body units →
        Key.letters (TextUnit.spell units) = Key.letters here.scan.lexer.output →
          (decodeDocument Chat .lenient name (replaceToken payload here.scan body)).reported =
            (decodeDocument Chat .lenient name payload).reported) := by
  constructor
  · intro matching settled
    have alike : ∀ other, decodeDocument Chat matching name payload =
        decodeDocument Chat other name payload := fun other =>
      decodeDocument_eq_of_indifferent fun target here reached isKey =>
        (settled target here reached isKey).resolve_eq matching other
    rw [← alike .exact, ← alike .lenient]
  · intro target here reached isKey body units isText same
    refine reached.replace_key isKey isText ?_
    have byLetters := Key.resolve_lenient (hasLetters.distinct target) (hasLetters.lettered target)
    rw [byLetters, byLetters]
    simp only [Key.matchesFolded, same]

/-- An emoji that has only a name. -/
def namedPayload : Bytes := bytesOf "\x7b\"name\":\"A\"\x7d"

/-- The lexer behind the brace of the emoji. -/
def namedAhead : Lexer := (Lexer.ofBytes namedPayload).scan.lexer

/-- The only key that decoding the emoji comes to is the key of a field. -/
theorem settled_named : ∀ target here,
    DocumentReaches Chat .lenient target here .emoji namedPayload → here.scan.token = .string →
      Key.IsSettled (Chat.keys target) here.scan.lexer.output := by
  rintro target here ⟨-, within⟩ -
  rcases within.of_key with ⟨rfl, rfl⟩ | atColon
  · decide +kernel
  · have found : Key.resolve (Chat.keys .emoji)
        (Lexer.ofBytes namedPayload).scan.lexer.scan.lexer.output .lenient = some 1 := by
      decide +kernel
    rw [found] at atColon
    rcases atColon.of_colon.of_value with ⟨index, isIndex, inValue⟩ | atSeparator
    · -- The value is that of the name, which is a text and holds no keys.
      obtain rfl : index = ⟨1, by decide⟩ := Fin.ext (Option.some.inj isIndex.symm)
      exact absurd inValue ValueReaches.not_scalar
    · have last : (decodeMember Chat .lenient (some 1) (Chat.blankEntity .emoji)
          (Lexer.ofBytes namedPayload).scan.lexer.scan.lexer.scan.lexer.scan.lexer
          (Lexer.ofBytes namedPayload).scan.lexer.scan.lexer.scan.lexer.scan.token).lexer.scan.token
            ≠ .comma := by
        decide +kernel
      exact absurd atSeparator.of_separator.1 last

/-- Both matchings decode the emoji alike, and its key may be written in capitals. -/
theorem Chat.decodeDocument_matching_named :
    decodeDocument Chat .exact .emoji namedPayload =
        decodeDocument Chat .lenient .emoji namedPayload ∧
      (decodeDocument Chat .lenient .emoji (bytesOf "\x7b\"NA-ME\":\"A\"\x7d")).reported =
        (decodeDocument Chat .lenient .emoji namedPayload).reported := by
  have reached : DocumentReaches Chat .lenient .emoji namedAhead .emoji namedPayload :=
    ⟨by decide +kernel, .here⟩
  have isText : TextScan.IsText (bytesOf "NA-ME\"") ((bytesOf "NA-ME").map .byte) :=
    TextScan.isText_iff.mpr (by decide +kernel)
  have replaced : replaceToken namedPayload namedAhead.scan (bytesOf "NA-ME\"") =
      bytesOf "\x7b\"NA-ME\":\"A\"\x7d" := by
    decide +kernel
  obtain ⟨settles, replaces⟩ := decodeDocument_matching .emoji namedPayload
  refine ⟨settles .lenient settled_named, ?_⟩
  rw [← replaced]
  exact replaces .emoji namedAhead reached (by decide +kernel) _ _ isText (by decide +kernel)

end ChatCodec
