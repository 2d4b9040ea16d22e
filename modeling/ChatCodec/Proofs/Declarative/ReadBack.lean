import ChatCodec.Proofs.Declarative.Steps
import ChatCodec.Proofs.GuildUsers
import ChatCodec.Proofs.RoundTrip

/-!
# What the codec writes the declarative reader reads

The declarative reader knows other rules than the streaming decoder: it limits the nesting, it
counts the members of a field, and it takes `null` for fewer shapes.  None of this matters for
what the codec has written.  A value is read back (`Val.IsReadBack`) from whatever pieces match
tokens that spell its JSON value out, if as many brackets may be open as it has inside one
another, and every faithful value is (`Val.isReadBack`).

Members come in the order of the fields.  So the reader has always come to a place
(`Declarative.Progress.IsUpTo`): the fields in front of it are those of the record, none behind
it has been named, and nothing is wrong with the members that were set aside.  The members of an
entity that is extended are read twice, as opaque JSON first and as values of their fields when
the object has ended; the former succeeds for any tokens that spell a value out
(`Json.Spells.readValue_arranged`), whatever the field is.
-/

namespace ChatCodec

set_option autoImplicit false

open Json (Piece Shows Spells SpellsItems SpellsMembers Stage nestingLimit)
open Json.Piece (Matches)
open Declarative (Progress readGroup readItems readLeaf_option readLeaf_scalar readMembers readTree
  scalarOf)

variable {C : Catalog}

/-! ## Values of one piece -/

/-- Opaque JSON is read by the strict reader. -/
theorem readTree_opaqueJson (tree : Tree Piece) (allowed : Nat) :
    readTree C tree allowed (.scalar .opaqueJson) =
      (Json.readValue allowed tree).map (@Val.scalar _ _ .opaqueJson) := by
  cases tree with
  | leaf piece =>
      cases piece with
      | scalar source =>
          rw [readTree, readLeaf_scalar, Json.readValue]
          cases Json.Atom.read source <;> rfl
      | _ => rfl
  | group opening body => rw [readTree]; rfl

/-- A scalar is taken from the atom that its token shows. -/
theorem readTree_scalar {kind : Scalar} {lexeme : Lexeme} {atom : Json.Atom} {tree : Tree Piece}
    (shows : Shows lexeme atom) (alike : tree.Related Matches (.leaf lexeme)) (allowed : Nat) :
    readTree C tree allowed (.scalar kind) = (scalarOf kind atom).map .scalar := by
  cases alike with
  | leaf same =>
      obtain ⟨rest, rfl, reads⟩ := same.exists_rest shows.isScalar
      rw [readTree, readLeaf_scalar, Json.Atom.read_append reads shows.isScalar, shows.read]
      rfl

/-- The value of an optional shape is absent where the token is `null`. -/
theorem readTree_null {inner : C.Shape} {lexeme : Lexeme} {tree : Tree Piece}
    (shows : Shows lexeme .null) (null : lexeme.token = .null)
    (alike : tree.Related Matches (.leaf lexeme)) (allowed : Nat) :
    readTree C tree allowed (.option inner) = .ok .none := by
  cases alike with
  | leaf same =>
      obtain ⟨rest, rfl, reads⟩ := same.exists_rest shows.isScalar
      have begins := (Json.token_eq_null_iff reads shows.isScalar).mpr null
      rw [readTree, readLeaf_option, if_pos begins, Json.Atom.read_append reads shows.isScalar,
        shows.read]
      rfl

/-- The value of an optional shape is present where the tokens are not `null`. -/
theorem readTree_option {inner : C.Shape} {tokens : Tree Lexeme} {tree : Tree Piece}
    (notNull : tokens.head.token ≠ .null) (alike : tree.Related Matches tokens) (allowed : Nat) :
    readTree C tree allowed (.option inner) = (readTree C tree allowed inner).map .some := by
  cases alike with
  | @leaf piece lexeme same =>
      rw [readTree]
      cases piece with
      | scalar source =>
          obtain ⟨rest, word, reads⟩ := same.exists_rest same.isScalar
          have begins := mt (Json.token_eq_null_iff reads same.isScalar).mp notNull
          rw [← Piece.scalar.inj word] at begins
          rw [readLeaf_option, if_neg begins]
      | _ => cases inner <;> rfl
  | group same inside => rw [readTree, readGroup]

/-! ## Values that are read back -/

/-- The declarative reader reads the value from pieces that match tokens which spell its JSON
value out, if its brackets may be open inside one another. -/
def Val.IsReadBack {shape : C.Shape} (value : C.Value shape) : Prop :=
  ∀ {tokens : Tree Lexeme} {tree : Tree Piece} {allowed : Nat}, Spells tokens value.toJson →
    tree.Related Matches tokens → value.toJson.depth ≤ allowed →
      readTree C tree allowed shape = .ok value

/-- **A faithful scalar is read back.** -/
theorem Val.isReadBack_scalar {kind : Scalar} {value : kind.Carrier}
    (faithful : kind.isFaithful value = true) :
    Val.IsReadBack (.scalar value : C.Value (.scalar kind)) := by
  intro tokens tree allowed spells alike shallow
  rw [Val.toJson] at spells shallow
  by_cases opaqueJson : kind = .opaqueJson
  · subst opaqueJson
    rw [Scalar.isFaithful, Bool.and_eq_true, Bool.and_eq_true] at faithful
    have read : Json.readValue allowed tree = .ok value :=
      spells.readValue_eq alike shallow faithful.2
    rw [readTree_opaqueJson, read]
    rfl
  · obtain ⟨atom, same, accepted⟩ := Scalar.exists_atom opaqueJson faithful
    rw [same] at spells
    obtain ⟨lexeme, rfl, shows⟩ := Spells.exists_leaf atom spells
    rw [readTree_scalar shows alike, accepted]
    rfl

theorem Val.isReadBack_none {inner : C.Shape} :
    Val.IsReadBack (.none : C.Value (.option inner)) := by
  intro tokens tree allowed spells alike shallow
  obtain ⟨lexeme, rfl, shows⟩ := Spells.exists_leaf .null spells
  exact readTree_null shows (spells.token_eq_null_iff.mpr rfl) alike allowed

theorem Val.isReadBack_some {inner : C.Shape} {value : C.Value inner} (readBack : value.IsReadBack)
    (noNull : inner.hasNull = false) :
    Val.IsReadBack (.some value : C.Value (.option inner)) := by
  intro tokens tree allowed spells alike shallow
  rw [Val.toJson] at spells shallow
  have notNull : tokens.head.token ≠ .null :=
    mt spells.token_eq_null_iff.mp (value.toJson_ne_null noNull)
  rw [readTree_option notNull alike, readBack spells alike shallow]
  rfl

/-- A sequence is read back if its items are. -/
theorem Val.isReadBack_list {inner : C.Shape} {items : C.Sequence inner}
    (reads : ∀ {body : Body Lexeme} {pieces : Body Piece} {allowed : Nat},
      SpellsItems .opened body items.toJson → pieces.Related Matches body →
        items.toJson.depth ≤ allowed → readItems C pieces allowed inner .opened = .ok items) :
    Val.IsReadBack (.list items : C.Value (.list inner)) := by
  intro tokens tree allowed spells alike shallow
  rw [Val.toJson] at spells shallow
  rw [Json.Value.depth] at shallow
  obtain ⟨opening, body, rfl, begins, inside⟩ := spells.exists_array
  cases alike with
  | group same related =>
      rw [readTree]
      refine Declarative.readGroup_list.mpr
        ⟨same.eq_mark_of_token begins rfl rfl, by omega, items, ?_, rfl⟩
      exact reads inside related (by omega)

/-! ## Objects -/

namespace Declarative.Progress

/-- The progress through the members of a record when those of the fields in front of a place
have been read. -/
structure IsUpTo {name : C.Name} (record : C.Entity name) (progress : Progress (C.Entity name))
    (place : Nat) : Prop where
  filled : record.IsFilledTo progress.fields place
  named : ∀ index ∈ progress.named, index < place
  clean : progress.late = none

variable {name : C.Name} {record : C.Entity name} {progress : Progress (C.Entity name)}

theorem IsUpTo.blank : IsUpTo record ⟨C.blankEntity name, [], none⟩ 0 where
  filled := .blankEntity
  named := List.forall_mem_nil _
  clean := rfl

/-- The field at the place has not been named. -/
theorem IsUpTo.first {place : Nat} (upTo : progress.IsUpTo record place) :
    place ∉ progress.named :=
  fun isIn => Nat.lt_irrefl place (upTo.named place isIn)

/-- A field that is left out is as it is in the record. -/
theorem IsUpTo.leaveOut {index : Fin (C.fields name).length}
    (upTo : progress.IsUpTo record index)
    (leftOut : ((C.fields name).get index).omission.applies (record.get index) = true) :
    progress.IsUpTo record (index + 1) where
  filled := upTo.filled.leaveOut leftOut
  named other isIn := Nat.lt_succ_of_lt (upTo.named other isIn)
  clean := upTo.clean

/-- The next field is read into its place. -/
theorem IsUpTo.set {index : Fin (C.fields name).length} (upTo : progress.IsUpTo record index) :
    IsUpTo record ⟨progress.fields.set index (record.get index), index :: progress.named, none⟩
      (index + 1) where
  filled := upTo.filled.set
  named other isIn := by
    rcases List.mem_cons.mp isIn with rfl | before
    · exact Nat.lt_succ_self _
    · exact Nat.lt_succ_of_lt (upTo.named other before)
  clean := rfl

end Declarative.Progress

/-- The name of a field is found where the field is. -/
theorem Catalog.HasKeys.findIdx?_name (keys : C.HasKeys) {name : C.Name}
    (index : Fin (C.fields name).length) :
    (C.names name).findIdx? (· == ((C.fields name).get index).name) = some index.val := by
  rw [← Key.resolve_exact (keys.named name), ← keys.keys_eq]
  exact keys.resolve_eq index

/-- **A member of the record is read into its field**, whether it is set aside or not. -/
theorem readMembers_member (keys : C.HasKeys) {name : C.Name} {record : C.Entity name}
    {progress : Progress (C.Entity name)} {index : Fin (C.fields name).length}
    (upTo : progress.IsUpTo record index) (readBack : (record.get index).IsReadBack)
    {key mark : Lexeme} {tree : Tree Lexeme} {rest : Body Lexeme}
    (names : Shows key (.text ((C.fields name).get index).name)) (announces : mark.token = .colon)
    (spells : Spells tree (record.get index).toJson) {allowed : Nat}
    (shallow : (record.get index).toJson.depth ≤ allowed) {pieces : Body Piece}
    (related : pieces.Related Matches (.more (.leaf key) (.more (.leaf mark) (.more tree rest))))
    (following : ∀ {pieces : Body Piece}, pieces.Related Matches rest →
      ∀ {progress : Progress (C.Entity name)} {key : String}, progress.IsUpTo record (index + 1) →
        readMembers C pieces allowed name .filled key progress = .ok record)
    {stage : Stage} (begins : stage = .opened ∨ stage = .separated) (before : String) :
    readMembers C pieces allowed name stage before progress = .ok record := by
  obtain ⟨_, _, rfl, sameName, related⟩ := related.exists_leaf
  obtain ⟨_, _, rfl, sameMark, related⟩ := related.exists_leaf
  obtain ⟨_, _, rfl, alike, related⟩ := related.exists_more
  obtain ⟨bytes, named, text⟩ := names.exists_text.2.2 sameName
  have found := keys.findIdx?_name index
  refine (Declarative.readMembers_key begins).mpr ⟨bytes, named, _, text, ?_, ?_⟩
  · intro other same twice
    rw [found, Option.some.injEq] at same
    exact upTo.first (same ▸ twice.2)
  refine Declarative.readMembers_colon.mpr ⟨sameMark.eq_mark_of_token announces rfl rfl, ?_⟩
  refine (Declarative.readMembers_known found).mpr ⟨_, ?_, following related upTo.set⟩
  rw [Declarative.readAt_eq _ _ index, readBack spells alike shallow]
  exact Progress.record_eq upTo.clean upTo.first (spells.readValue_arranged alike shallow)

/-- **The members of a record are read to the record**, from any place on, if its fields are read
back. -/
theorem readMembers_of_spells (keys : C.HasKeys) {name : C.Name} {record : C.Entity name}
    (readBack : ∀ index, (record.get index).IsReadBack) :
    ∀ {count place : Nat}, place + count = (C.fields name).length →
      ∀ {stage : Stage} {body : Body Lexeme} {pieces : Body Piece} {allowed : Nat} {key : String}
        {progress : Progress (C.Entity name)}, SpellsMembers stage body (record.toJsonFrom place) →
          pieces.Related Matches body → (record.toJsonFrom place).depth ≤ allowed →
            progress.IsUpTo record place →
              readMembers C pieces allowed name stage key progress = .ok record := by
  -- The induction is on the number of fields from the place on.
  intro count
  induction count with
  | zero =>
      rintro place rfl stage body pieces allowed key progress spells related - upTo
      rw [record.toJsonFrom_length] at spells
      obtain ⟨ends, ending, closes, rfl⟩ := spells.exists_close
      cases related with
      | close same =>
          refine Declarative.readMembers_close.mpr
            ⟨⟨same.eq_mark_of_token closes rfl rfl, ends⟩, ?_⟩
          exact Progress.finish_eq_ok_iff.mpr ⟨upTo.clean, upTo.filled.eq_of_length⟩
  | succ count ih =>
      intro place within stage body pieces allowed key progress spells related shallow upTo
      obtain ⟨index, rfl⟩ : ∃ index : Fin (C.fields name).length, index.val = place :=
        ⟨⟨place, by omega⟩, rfl⟩
      have members := record.toJsonFrom_eq index
      by_cases leftOut : ((C.fields name).get index).omission.applies (record.get index) = true
      · rw [if_pos leftOut] at members
        rw [members] at spells shallow
        exact ih (by omega) spells related shallow (upTo.leaveOut leftOut)
      · rw [if_neg leftOut] at members
        rw [members] at spells shallow
        rw [Json.Members.depth] at shallow
        obtain ⟨called, mark, tree, rest, names, announces, spellsValue, following, begins⟩ :=
          spells.exists_member
        -- The member, behind the comma if there is one.
        have atKey {stage : Stage} (begins : stage = .opened ∨ stage = .separated)
            {pieces : Body Piece} (related : pieces.Related Matches
              (.more (.leaf called) (.more (.leaf mark) (.more tree rest)))) :
            readMembers C pieces allowed name stage key progress = .ok record :=
          readMembers_member keys upTo (readBack index) names announces spellsValue (by omega)
            related (fun related _ _ upTo => ih (by omega) following related (by omega) upTo)
            begins key
        rcases begins with ⟨first, rfl⟩ | ⟨rfl, comma, separates, rfl⟩
        · exact atKey first related
        · obtain ⟨_, _, rfl, sameComma, related⟩ := related.exists_leaf
          exact Declarative.readMembers_comma.mpr
            ⟨sameComma.eq_mark_of_token separates rfl rfl, atKey (.inr rfl) related⟩

/-- **An entity is read back** if its fields are. -/
theorem Val.isReadBack_entity (keys : C.HasKeys) {name : C.Name} {record : C.Entity name}
    (readBack : ∀ index, (record.get index).IsReadBack) :
    Val.IsReadBack (.entity record : C.Value (.entity name)) := by
  intro tokens tree allowed spells alike shallow
  rw [Val.toJson, ← record.toJsonFrom_zero] at spells shallow
  rw [Json.Value.depth] at shallow
  obtain ⟨opening, body, rfl, begins, inside⟩ := spells.exists_object
  cases alike with
  | group same related =>
      obtain rfl := same.eq_mark_of_token begins rfl rfl
      rw [readTree]
      refine (Declarative.readGroup_entity (by decide)).mpr ⟨by omega, record, ?_, rfl⟩
      exact readMembers_of_spells keys readBack (Nat.zero_add _) inside related (by omega) .blank

/-! ## Values of any nesting -/

mutual

/-- **A faithful value is read back.** -/
theorem Val.isReadBack (keys : C.HasKeys) (distinct : C.IsDistinct) :
    ∀ {shape : C.Shape} {value : C.Value shape}, shape.isDistinct = true →
      value.isFaithful = true → value.IsReadBack
  | _, @Val.scalar _ _ kind value, _, faithful => by
      rw [Val.isFaithful] at faithful
      exact Val.isReadBack_scalar faithful
  | _, .none, _, _ => Val.isReadBack_none
  | .option inner, .some value, isDistinct, faithful => by
      rw [Val.isFaithful] at faithful
      rw [Shape.isDistinct, Bool.and_eq_true, Bool.not_eq_true'] at isDistinct
      exact Val.isReadBack_some (Val.isReadBack keys distinct isDistinct.2 faithful) isDistinct.1
  | .list inner, .list items, isDistinct, faithful => by
      rw [Val.isFaithful] at faithful
      rw [Shape.isDistinct] at isDistinct
      exact Val.isReadBack_list fun inside related shallow =>
        Sequence.readItems_eq keys distinct isDistinct faithful inside related shallow
  | .entity name, .entity record, _, faithful => by
      rw [Val.isFaithful] at faithful
      exact Val.isReadBack_entity keys
        (Record.isReadBack_get keys distinct (distinct name) faithful)

/-- The items of a faithful sequence are read. -/
theorem Sequence.readItems_eq (keys : C.HasKeys) (distinct : C.IsDistinct) :
    ∀ {inner : C.Shape} {items : C.Sequence inner}, inner.isDistinct = true →
      items.isFaithful = true → ∀ {stage : Stage} {body : Body Lexeme} {pieces : Body Piece}
        {allowed : Nat}, SpellsItems stage body items.toJson → pieces.Related Matches body →
          items.toJson.depth ≤ allowed → readItems C pieces allowed inner stage = .ok items
  | inner, .nil, _, _, stage, _, _, allowed, spells, related, _ => by
      rw [Sequence.toJson] at spells
      obtain ⟨ends, ending, closes, rfl⟩ := spells.exists_close
      cases related with
      | close same =>
          exact Declarative.readItems_close.mpr
            ⟨⟨same.eq_mark_of_token closes rfl rfl, ends⟩, rfl⟩
  | inner, .cons head tail, isDistinct, faithful, stage, _, _, allowed, spells, related,
      shallow => by
      rw [Sequence.isFaithful, Bool.and_eq_true] at faithful
      rw [Sequence.toJson] at spells shallow
      rw [Json.Items.depth, Nat.max_le] at shallow
      obtain ⟨tree, rest, spellsHead, following, begins⟩ := spells.exists_item
      have atItem {stage : Stage} (begins : stage ≠ .filled) {pieces : Body Piece}
          (related : pieces.Related Matches (.more tree rest)) :
          readItems C pieces allowed inner stage = .ok (.cons head tail) := by
        obtain ⟨_, _, rfl, alike, related⟩ := related.exists_more
        have readHead :=
          Val.isReadBack keys distinct isDistinct faithful.1 spellsHead alike shallow.1
        have readTail := Sequence.readItems_eq keys distinct isDistinct faithful.2 following
          related shallow.2
        exact (Declarative.readItems_item begins).mpr ⟨head, readHead, tail, readTail, rfl⟩
      rcases begins with ⟨first, rfl⟩ | ⟨rfl, comma, separates, rfl⟩
      · exact atItem first related
      · obtain ⟨_, _, rfl, sameComma, related⟩ := related.exists_leaf
        exact Declarative.readItems_comma.mpr
          ⟨sameComma.eq_mark_of_token separates rfl rfl, atItem (by decide) related⟩

/-- The fields of a faithful record are read back. -/
theorem Record.isReadBack_get (keys : C.HasKeys) (distinct : C.IsDistinct) :
    ∀ {list : List (Field C.Name)} {record : C.Record list},
      (∀ field ∈ list, field.shape.isDistinct = true) → record.isFaithful = true →
        ∀ index, (record.get index).IsReadBack
  | _ :: _, .cons head tail, isDistinct, faithful, ⟨0, _⟩ => by
      rw [Record.isFaithful, Bool.and_eq_true] at faithful
      exact Val.isReadBack keys distinct (isDistinct _ List.mem_cons_self) faithful.1
  | field :: _, .cons head tail, isDistinct, faithful, ⟨index + 1, bound⟩ => by
      rw [Record.isFaithful, Bool.and_eq_true] at faithful
      exact Record.isReadBack_get keys distinct
        (fun other isIn => isDistinct other (List.mem_cons_of_mem field isIn)) faithful.2
        ⟨index, Nat.lt_of_succ_lt_succ bound⟩

end

/-! ## Payloads -/

/-- **The form of a faithful value is read to the value**, for every catalog whose entities have
keys and tell absent values from present ones, if the form is nested within the limit. -/
theorem Declarative.read_write (keys : C.HasKeys) (distinct : C.IsDistinct) {shape : C.Shape}
    {value : C.Value shape} (isDistinct : shape.isDistinct = true)
    (faithful : value.isFaithful = true) (shallow : value.toJson.depth ≤ nestingLimit) :
    Declarative.read C shape value.write = .ok value := by
  have exact_ : value.toJson.isExact = true := value.isExact_toJson faithful
  have faces : (Lexer.ofBytes value.write).Faces (value.toJson.print ++ []) :=
    Lexer.faces_ofBytes value.write
  obtain ⟨tokens, last, spells, run, behind⟩ :=
    Json.Value.isRead exact_ Scanned.ends_nil faces
  obtain ⟨tree, alike, grouped⟩ := Json.Piece.body_of_run spells.isNested run
    (List.forall_mem_nil _) (show _ = [] ++ value.write ++ [] from faces.ahead_eq)
    (List.forall_mem_nil _) behind.ahead_eq
  exact Json.readDocument_eq_ok_iff.mpr
    ⟨tree, grouped, Val.isReadBack keys distinct isDistinct faithful spells alike shallow⟩

/-- **What the codec writes the declarative reader reads.**  Every faithful record of every entity
of the chat service, whose form is nested within the limit of the strict grammar, is read by the
declarative rules from the bytes that it is encoded to. -/
theorem Chat.read_toBytes (name : EntityName) (record : Chat.Entity name)
    (faithful : record.isFaithful = true)
    (shallow : (Val.entity record : Chat.Value (.entity name)).toJson.depth ≤ nestingLimit) :
    Declarative.read Chat (.entity name) (Val.entity record : Chat.Value (.entity name)).toBytes =
      .ok (.entity record) := by
  have value : (Val.entity record : Chat.Value (.entity name)).isFaithful = true := by
    rw [Val.isFaithful]
    exact faithful
  rw [Val.toBytes_eq isConsistent]
  exact Declarative.read_write hasKeys isDistinct rfl value shallow

/-- A blank user who is a member of a guild. -/
def blankGuildUser : GuildUser :=
  GuildUser.make (Chat.blankEntity .user) (some (Chat.blankEntity .member))

/-- The guild user is read back, although the members of the user are set aside. -/
theorem Chat.read_toBytes_guildUser :
    blankGuildUser.isFaithful = true ∧
      (Val.entity blankGuildUser : Chat.Value (.entity .guildUser)).toJson.depth ≤ nestingLimit ∧
        Declarative.read Chat (.entity .guildUser)
          (Val.entity blankGuildUser : Chat.Value (.entity .guildUser)).toBytes =
            .ok (.entity blankGuildUser) := by
  have faithful : blankGuildUser.isFaithful = true := by decide +kernel
  have shallow :
      (Val.entity blankGuildUser : Chat.Value (.entity .guildUser)).toJson.depth ≤ nestingLimit := by
    decide +kernel
  exact ⟨faithful, shallow, read_toBytes .guildUser blankGuildUser faithful shallow⟩

end ChatCodec
