import ChatCodec.Proofs.Faithful
import ChatCodec.Proofs.Keys
import ChatCodec.Proofs.Records
import ChatCodec.Proofs.Streaming.Loop
import ChatCodec.Proofs.Streaming.Returns

/-!
# What the codec writes it reads back

A value decodes (`Val.Decodes`) if decoding returns it from whatever tokens spell its JSON
value out.  Every faithful value does (`Val.decodes`), by an induction over the value; what it
takes at each form of value is said apart.

* A scalar is taken from its atom, and opaque JSON is captured and read again.
* An optional value is present wherever its tokens are not `null`.
* A sequence is filled item by item, behind commas.
* An entity is filled field by field (`decodeMembers_of_spells`).  Members come in the order of
  the fields, so at any time the fields in front of a place are those of the record and all
  others are blank (`Record.IsFilledTo`); a field that has no member is blank in the record too.
-/

namespace ChatCodec

set_option autoImplicit false

open Json (Spells SpellsItems SpellsMembers Stage)

/-! ## Members of a record -/

namespace Record

variable {Name : Type} {fields : Name → List (Field Name)}

/-- The members of the fields from a place on. -/
def toJsonFrom : {list : List (Field Name)} → Record fields list → Nat → Json.Members
  | _, record, 0 => record.toJson
  | _, .nil, _ + 1 => .nil
  | _, .cons _ tail, place + 1 => tail.toJsonFrom place

theorem toJsonFrom_zero {list : List (Field Name)} (record : Record fields list) :
    record.toJsonFrom 0 = record.toJson := by
  cases record <;> rfl

/-- No member stands behind the last field. -/
theorem toJsonFrom_length : ∀ {list : List (Field Name)} (record : Record fields list),
    record.toJsonFrom list.length = .nil
  | _, .nil => rfl
  | _, .cons _ tail => tail.toJsonFrom_length

/-- **The members from a field on** are the one of this field, unless it is left out, and
those from the next field on. -/
theorem toJsonFrom_eq : ∀ {list : List (Field Name)} (record : Record fields list)
    (index : Fin list.length),
    record.toJsonFrom index =
      if (list.get index).omission.applies (record.get index) then
        record.toJsonFrom (index + 1)
      else
        .cons (list.get index).name (record.get index).toJson (record.toJsonFrom (index + 1))
  | field :: _, .cons head tail, ⟨0, _⟩ => by
      show (Record.cons head tail).toJson =
        if field.omission.applies head then tail.toJsonFrom 0
        else .cons field.name head.toJson (tail.toJsonFrom 0)
      rw [tail.toJsonFrom_zero, toJson]
  | _ :: _, .cons _ tail, ⟨index + 1, bound⟩ =>
      tail.toJsonFrom_eq ⟨index, Nat.lt_of_succ_lt_succ bound⟩

/-- The fields in front of a place are those of the record, and the others are blank. -/
structure IsFilledTo {C : Catalog} {name : C.Name} (record before : C.Entity name) (place : Nat) :
    Prop where
  front : ∀ index, index.val < place → before.get index = record.get index
  back : ∀ index, place ≤ index.val → before.get index = C.blank ((C.fields name).get index).shape

namespace IsFilledTo

variable {C : Catalog} {name : C.Name} {record before : C.Entity name}

/-- A blank record is filled to its beginning. -/
theorem blankEntity : IsFilledTo record (C.blankEntity name) 0 where
  front _ before := absurd before (Nat.not_lt_zero _)
  back index _ := C.get_blankEntity name index

theorem eq_of_length (filled : IsFilledTo record before (C.fields name).length) :
    before = record :=
  ext_get fun index => filled.front index index.isLt

/-- A field that is left out is filled as it is. -/
theorem leaveOut {index : Fin (C.fields name).length} (filled : IsFilledTo record before index)
    (leftOut : ((C.fields name).get index).omission.applies (record.get index) = true) :
    IsFilledTo record before (index + 1) where
  front other within := by
    by_cases same : other = index
    · subst same
      rw [filled.back other (Nat.le_refl _), Omission.eq_blank_of_applies leftOut]
    · exact filled.front other (by have differs := mt Fin.ext same; omega)
  back other behind := filled.back other (by omega)

/-- The next field is filled by setting it. -/
theorem set {index : Fin (C.fields name).length} (filled : IsFilledTo record before index) :
    IsFilledTo record (before.set index (record.get index)) (index + 1) where
  front other within := by
    by_cases same : other = index
    · subst same
      exact before.get_set_same other _
    · rw [before.get_set_ne index other _ same]
      exact filled.front other (by have differs := mt Fin.ext same; omega)
  back other behind := by
    have differs : other ≠ index := fun same => by rw [same] at behind; omega
    rw [before.get_set_ne index other _ differs]
    exact filled.back other (by omega)

end IsFilledTo

end Record

/-! ## Decoding from tokens that spell a value out -/

section

variable {C : Catalog} (matching : KeyMatching)

/-- Decoding returns the value from tokens that spell its JSON value out. -/
def Val.Decodes {shape : C.Shape} (value : C.Value shape) : Prop :=
  ∀ {tokens : Tree Lexeme} {lexer last : Lexer}, Spells tokens value.toJson →
    Lexer.Run lexer tokens.items last →
      (decodeTree C matching tokens shape (C.blank shape)).Returns value last

variable {matching}

theorem decodeTree_scalar (tokens : Tree Lexeme) {kind : Scalar} (before : kind.Carrier) :
    decodeTree C matching tokens (.scalar kind) (.scalar before) =
      (kind.decode tokens before).map .scalar := by
  cases tokens with
  | leaf lexeme => rw [decodeTree, decodeLeaf]
  | group opening body => rw [decodeTree, decodeGroup]

/-- **A faithful scalar decodes.** -/
theorem Val.decodes_scalar {kind : Scalar} {value : kind.Carrier}
    (faithful : kind.isFaithful value = true) :
    Val.Decodes matching (.scalar value : C.Value (.scalar kind)) := by
  intro tokens lexer last spells run
  rw [Val.toJson] at spells
  rw [Catalog.blank, decodeTree_scalar]
  apply Outcome.Returns.map
  by_cases opaqueJson : kind = .opaqueJson
  · subst opaqueJson
    rw [Scalar.isFaithful, Bool.and_eq_true, Bool.and_eq_true, decide_eq_true_eq] at faithful
    rw [Scalar.decode, decodeOpaque_of_spells spells run faithful.1.2 faithful.2]
    exact .done _ _
  · obtain ⟨atom, same, accepted⟩ := Scalar.exists_atom opaqueJson faithful
    rw [same] at spells
    obtain ⟨lexeme, rfl, shows⟩ := Spells.exists_leaf atom spells
    have ends : lexeme.lexer = last := run.lexer_eq_of_leaf
    rw [← ends]
    exact Scalar.decode_returns opaqueJson shows.shown accepted

theorem Val.decodes_none {inner : C.Shape} :
    Val.Decodes matching (.none : C.Value (.option inner)) := by
  intro tokens lexer last spells run
  obtain ⟨lexeme, rfl, shows⟩ := Spells.exists_leaf .null spells
  have null : lexeme.token = .null := spells.token_eq_null_iff.mpr rfl
  have ends : lexeme.lexer = last := run.lexer_eq_of_leaf
  rw [decodeTree, decodeLeaf, if_pos null, ends]
  exact .done _ _

theorem Val.decodes_some {inner : C.Shape} {value : C.Value inner} (decodes : value.Decodes matching)
    (noNull : inner.hasNull = false) :
    Val.Decodes matching (.some value : C.Value (.option inner)) := by
  intro tokens lexer last spells run
  rw [Val.toJson] at spells
  rw [decodeTree_option (mt spells.token_eq_null_iff.mp (value.toJson_ne_null noNull))]
  exact (decodes spells run).replace _ _

/-! ### Objects -/

/-- The key of a field is resolved to this field. -/
theorem Catalog.HasKeys.resolve_eq (keys : C.HasKeys) {name : C.Name}
    (index : Fin (C.fields name).length) :
    Key.resolve (C.keys name) (bytesOf ((C.fields name).get index).name) matching =
      some index.val := by
  have bound : index.val < (C.names name).length := by
    rw [Catalog.names, List.length_map]
    exact index.isLt
  have same : (C.names name).get ⟨index, bound⟩ = ((C.fields name).get index).name :=
    List.getElem_map _
  rw [keys.keys_eq, ← same]
  exact Key.resolve_get (keys.distinct name) (keys.named name) ⟨index, bound⟩ matching

/-- A member is decoded into the field that its key resolves to. -/
theorem decodeMembers_member {entity : C.Name} {index : Nat} {key : String} {name mark : Lexeme}
    {tree : Tree Lexeme} {rest : Body Lexeme}
    (found : Key.resolve (C.keys entity) (bytesOf key) matching = some index)
    (names : Json.Shows name (.text key)) (announces : mark.token = .colon)
    (isValue : tree.head.token.isValue = true) (before : C.Entity entity) :
    decodeMembers C matching (.more (.leaf name) (.more (.leaf mark) (.more tree rest))) entity .key
        none before =
      (before.decodeAt tree (fun shape before => decodeTree C matching tree shape before) index).follow
        id fun record _ => decodeMembers C matching rest entity .separator none record := by
  obtain ⟨string, captured, -⟩ := names.exists_text
  rw [decodeMembers, Tree.head, if_pos string]
  simp only [captured, found]
  rw [decodeMembers, Tree.head, if_pos announces, decodeMembers.eq_def]
  simp only [if_pos isValue]

/-- **The members of a record are decoded to the record**, from any place on, if its fields
decode. -/
theorem decodeMembers_of_spells (keys : C.HasKeys) {name : C.Name} {record : C.Entity name}
    (decodes : ∀ index, (record.get index).Decodes matching) :
    ∀ {count place : Nat}, place + count = (C.fields name).length →
      ∀ {stage : Stage} {body : Body Lexeme} {lexer last : Lexer} {before : C.Entity name},
        SpellsMembers stage body (record.toJsonFrom place) → Lexer.Run lexer body.items last →
          record.IsFilledTo before place →
            (decodeMembers C matching body name stage.memberPlace none before).Returns record
              last := by
  intro count
  induction count with
  | zero =>
      rintro place rfl stage body lexer last before spells run filled
      rw [record.toJsonFrom_length] at spells
      obtain ⟨ends, ending, closes, rfl⟩ := spells.exists_close
      have mayEnd : stage.memberPlace.mayEnd = true := by rcases ends with rfl | rfl <;> rfl
      have ended : ending.lexer = last := Lexer.Run.ending run
      rw [decodeMembers, if_pos ⟨closes, mayEnd⟩, ended, filled.eq_of_length]
      exact .done _ _
  | succ count ih =>
      intro place within stage body lexer last before spells run filled
      obtain ⟨index, rfl⟩ : ∃ index : Fin (C.fields name).length, index.val = place :=
        ⟨⟨place, by omega⟩, rfl⟩
      have members := record.toJsonFrom_eq index
      by_cases leftOut : ((C.fields name).get index).omission.applies (record.get index) = true
      · rw [if_pos leftOut] at members
        rw [members] at spells
        exact ih (by omega) spells run (filled.leaveOut leftOut)
      · rw [if_neg leftOut] at members
        rw [members] at spells
        obtain ⟨key, mark, tree, rest, names, announces, spellsValue, following, begins⟩ :=
          spells.exists_member
        -- The key, the colon and the value, behind the comma if there is one.
        have atKey : ∀ {lexer : Lexer}, Lexer.Run lexer
            (Body.more (.leaf key) (.more (.leaf mark) (.more tree rest))).items last →
              (decodeMembers C matching (.more (.leaf key) (.more (.leaf mark) (.more tree rest)))
                name .key none before).Returns record last := by
          intro lexer run
          obtain ⟨_, -, behindKey⟩ := Lexer.Run.exists_middle run
          obtain ⟨_, -, behindColon⟩ := Lexer.Run.exists_middle behindKey
          obtain ⟨middle, runValue, runRest⟩ := Lexer.Run.exists_middle behindColon
          rw [decodeMembers_member (keys.resolve_eq index) names announces
            spellsValue.isValue, before.decodeAt_eq _ _ index,
            filled.back index (Nat.le_refl _)]
          apply Outcome.Returns.follow ((decodes _ spellsValue runValue).map _)
          have returns := ih (by omega) following runRest filled.set
          exact returns
        rcases begins with ⟨first, rfl⟩ | ⟨rfl, comma, separates, rfl⟩
        · have atFirst : stage.memberPlace = .key := by rcases first with rfl | rfl <;> rfl
          rw [atFirst]
          exact atKey run
        · obtain ⟨_, -, behindComma⟩ := Lexer.Run.exists_middle run
          rw [Stage.memberPlace, decodeMembers, Tree.head, if_pos separates]
          exact atKey behindComma

/-! ### Values -/

/-- A sequence decodes if its items do. -/
theorem Val.decodes_list {inner : C.Shape} {items : C.Sequence inner}
    (returns : ∀ {body : Body Lexeme} {lexer last : Lexer}, SpellsItems .opened body items.toJson →
      Lexer.Run lexer body.items last →
        (decodeItems C matching body inner .item).Returns items last) :
    Val.Decodes matching (.list items : C.Value (.list inner)) := by
  intro tokens lexer last spells run
  rw [Val.toJson] at spells
  obtain ⟨opening, body, rfl, begins, inside⟩ := spells.exists_array
  rw [Tree.items] at run
  cases run with
  | cons going following =>
      rw [decodeTree, decodeGroup, if_pos begins]
      exact (returns inside following).map _

/-- **An entity decodes** if its fields do. -/
theorem Val.decodes_entity (keys : C.HasKeys) {name : C.Name} {record : C.Entity name}
    (decodes : ∀ index, (record.get index).Decodes matching) :
    Val.Decodes matching (.entity record : C.Value (.entity name)) := by
  intro tokens lexer last spells run
  rw [Val.toJson, ← record.toJsonFrom_zero] at spells
  obtain ⟨opening, body, rfl, begins, inside⟩ := spells.exists_object
  rw [Tree.items] at run
  cases run with
  | cons going following =>
      rw [Catalog.blank, decodeTree, decodeGroup, if_pos begins]
      exact (decodeMembers_of_spells keys decodes (Nat.zero_add _) inside following
        .blankEntity).map _

/-- The shapes of all fields are distinct. -/
def Catalog.IsDistinct (C : Catalog) : Prop :=
  ∀ name, ∀ field ∈ C.fields name, field.shape.isDistinct = true

mutual

/-- **A faithful value decodes.** -/
theorem Val.decodes (keys : C.HasKeys) (distinct : C.IsDistinct) :
    ∀ {shape : C.Shape} {value : C.Value shape}, shape.isDistinct = true →
      value.isFaithful = true → value.Decodes matching
  | _, @Val.scalar _ _ kind value, _, faithful => by
      rw [Val.isFaithful] at faithful
      exact Val.decodes_scalar faithful
  | _, .none, _, _ => Val.decodes_none
  | .option inner, .some value, isDistinct, faithful => by
      rw [Val.isFaithful] at faithful
      rw [Shape.isDistinct, Bool.and_eq_true, Bool.not_eq_true'] at isDistinct
      exact Val.decodes_some (Val.decodes keys distinct isDistinct.2 faithful) isDistinct.1
  | .list inner, .list items, isDistinct, faithful => by
      rw [Val.isFaithful] at faithful
      rw [Shape.isDistinct] at isDistinct
      exact Val.decodes_list fun inside run =>
        Sequence.decodeItems_returns keys distinct isDistinct faithful inside run
  | .entity name, .entity record, _, faithful => by
      rw [Val.isFaithful] at faithful
      exact Val.decodes_entity keys (Record.decodes_get keys distinct (distinct name) faithful)

/-- The items of a faithful sequence are decoded. -/
theorem Sequence.decodeItems_returns (keys : C.HasKeys) (distinct : C.IsDistinct) :
    ∀ {inner : C.Shape} {items : C.Sequence inner}, inner.isDistinct = true →
      items.isFaithful = true → ∀ {stage : Stage} {body : Body Lexeme} {lexer last : Lexer},
        SpellsItems stage body items.toJson → Lexer.Run lexer body.items last →
          (decodeItems C matching body inner stage.itemPlace).Returns items last
  | _, .nil, _, _, stage, _, _, last, spells, run => by
      rw [Sequence.toJson] at spells
      obtain ⟨-, ending, closes, rfl⟩ := spells.exists_close
      have ended : ending.lexer = last := Lexer.Run.ending run
      rw [decodeItems, if_pos closes, ended]
      exact .done _ _
  | inner, .cons head tail, isDistinct, faithful, stage, _, _, last, spells, run => by
      rw [Sequence.isFaithful, Bool.and_eq_true] at faithful
      rw [Sequence.toJson] at spells
      obtain ⟨tree, rest, spellsHead, following, begins⟩ := spells.exists_item
      have atItem : ∀ {lexer : Lexer}, Lexer.Run lexer (Body.more tree rest).items last →
          (decodeItems C matching (.more tree rest) inner .item).Returns (.cons head tail) last := by
        intro lexer run
        obtain ⟨middle, runHead, runTail⟩ := Lexer.Run.exists_middle run
        rw [decodeItems, if_pos spellsHead.isValue]
        refine Outcome.Returns.follow
          (Val.decodes keys distinct isDistinct faithful.1 spellsHead runHead) ?_
        exact (Sequence.decodeItems_returns keys distinct isDistinct faithful.2 following
          runTail).map _
      rcases begins with ⟨first, rfl⟩ | ⟨rfl, comma, separates, rfl⟩
      · rw [Stage.itemPlace_of_ne first]
        exact atItem run
      · obtain ⟨_, -, behindComma⟩ := Lexer.Run.exists_middle run
        rw [Stage.itemPlace, decodeItems, Tree.head, if_pos separates]
        exact atItem behindComma

/-- The fields of a faithful record decode. -/
theorem Record.decodes_get (keys : C.HasKeys) (distinct : C.IsDistinct) :
    ∀ {list : List (Field C.Name)} {record : C.Record list},
      (∀ field ∈ list, field.shape.isDistinct = true) → record.isFaithful = true →
        ∀ index, (record.get index).Decodes matching
  | _ :: _, .cons head tail, isDistinct, faithful, ⟨0, _⟩ => by
      rw [Record.isFaithful, Bool.and_eq_true] at faithful
      exact Val.decodes keys distinct (isDistinct _ List.mem_cons_self) faithful.1
  | field :: _, .cons head tail, isDistinct, faithful, ⟨index + 1, bound⟩ => by
      rw [Record.isFaithful, Bool.and_eq_true] at faithful
      exact Record.decodes_get keys distinct
        (fun other isIn => isDistinct other (List.mem_cons_of_mem field isIn)) faithful.2
        ⟨index, Nat.lt_of_succ_lt_succ bound⟩

end

/-! ## Payloads -/

/-- **The form of a faithful record is decoded to the record**, also with white space behind it,
for every catalog whose entities have keys, describe their fields consistently, and tell absent
values from present ones. -/
theorem decodeDocument_write_append (keys : C.HasKeys) (distinct : C.IsDistinct) {name : C.Name}
    {record : C.Entity name} (faithful : record.isFaithful = true) {blanks : Bytes}
    (blank : ∀ byte ∈ blanks, Ascii.isSpace byte = true) :
    (decodeDocument C matching name
      ((Val.entity record : C.Value (.entity name)).write ++ blanks)).result = .ok record := by
  have exact_ : (Json.Value.object record.toJson).isExact = true := by
    rw [Json.Value.isExact]
    exact record.isExact_toJson faithful
  have faces : (Lexer.ofBytes ((Json.Value.object record.toJson).print ++ blanks)).Faces
      ((Json.Value.object record.toJson).print ++ blanks) := ⟨rfl, rfl⟩
  have ends : Scanned.Ends blanks := by
    rw [← List.append_nil blanks]
    exact Scanned.ends_of_blank blank Scanned.ends_nil
  obtain ⟨tokens, last, spells, run, behind⟩ := Json.Value.isRead exact_ ends faces
  have ahead : last.ahead = blanks ++ ([] ++ []) := by
    rw [behind.ahead_eq, List.append_nil, List.append_nil]
  have ended : last.scan.token = .eof := by
    rw [Lexer.scan_of_reads behind.going ahead blank Ascii.stops_nil .eof]
  have object : tokens.head.token = .objectStart := by
    obtain ⟨opening, body, rfl, begins, -⟩ := spells.exists_object
    exact begins
  apply decodeDocument_of_returns object spells.isNested run ended
  exact Val.decodes_entity keys (Record.decodes_get keys distinct (distinct name) faithful) spells run

/-- The form of a faithful record is decoded to the record. -/
theorem decodeDocument_write (keys : C.HasKeys) (distinct : C.IsDistinct) {name : C.Name}
    {record : C.Entity name} (faithful : record.isFaithful = true) :
    (decodeDocument C matching name (Val.entity record : C.Value (.entity name)).write).result =
      .ok record := by
  rw [← List.append_nil (Val.write _)]
  exact decodeDocument_write_append keys distinct faithful fun _ isIn => by cases isIn

end

/-- The shapes of the fields of the chat service are distinct. -/
theorem Chat.isDistinct : Chat.IsDistinct := by
  intro name
  cases name <;> decide +kernel

/-- **What the codec writes it reads back.**  Every faithful record of every entity of the chat
service is decoded from the bytes that it is encoded to, whatever the matching of keys. -/
theorem Chat.decodeDocument_toBytes (name : EntityName) (record : Chat.Entity name)
    (matching : KeyMatching) (faithful : record.isFaithful = true) :
    (decodeDocument Chat matching name
      (Val.entity record : Chat.Value (.entity name)).toBytes).result = .ok record := by
  rw [Val.toBytes_eq isConsistent]
  exact decodeDocument_write hasKeys isDistinct faithful

/-- A reply to a blank message, with a time of its own and a button. -/
def replyWithButton : Chat.Entity .message :=
  (((Chat.blankEntity .message).set ⟨13, by decide⟩
    (.some (.scalar ⟨1700000000, 250000, by decide, by decide⟩))).set ⟨18, by decide⟩
    (.scalar (.array (.cons (.object (.cons "label" (.text "Yes") (.cons "type"
      (.number (.integer 2 (by decide))) .nil))) .nil)))).set ⟨25, by decide⟩
    (.some (.entity (Chat.blankEntity .message)))

/-- The reply is read back, also where keys match by their letters. -/
theorem Chat.decodeDocument_toBytes_reply :
    replyWithButton.isFaithful = true ∧
      (decodeDocument Chat .lenient .message
        (Val.entity replyWithButton : Chat.Value (.entity .message)).toBytes).result =
          .ok replyWithButton := by
  have faithful : replyWithButton.isFaithful = true := by decide +kernel
  exact ⟨faithful, decodeDocument_toBytes .message replyWithButton .lenient faithful⟩

end ChatCodec
