import ChatCodec.Proofs.Declarative.Objects
import ChatCodec.Proofs.Declarative.Scalars
import ChatCodec.Proofs.Json.Opaque
import ChatCodec.Proofs.Keys

/-!
# The two decoders agree

The declarative reader works on pieces of a document, and the streaming decoder on tokens.
Whatever the former accepts, the latter decodes to the same value, if no array stands where
an entity is expected and keys are matched exactly.

The two walk through an object side by side.  The declarative reader counts the fields that
a member has named and refuses a second one; so all other fields are still blank
(`Progress.HoldsBlanks`), and the decoder, which writes into what is there, writes into a
blank field.  One induction over the nesting settles values, members and items
(`decodeTree_returns`).
-/

namespace ChatCodec

set_option autoImplicit false

open Json (Piece Stage InOrder HasMembers HasItems nestingLimit)
open Json.Piece (Matches)
open Declarative (Progress inherited readLeaf readGroup readTree readMembers readItems readAt
  objectsIn objectsInGroup objectsInMembers objectsInItems)

/-! ## Values of one token -/

section

variable {C : Catalog} {lexer last : Lexer}

/-- Opaque JSON of one token is decoded to its value. -/
theorem decodeOpaque_leaf_returns {source : Bytes} {lexeme : Lexeme} {atom : Json.Atom}
    (matching : Matches (.scalar source) lexeme)
    (run : Lexer.Run lexer (Tree.leaf lexeme).items last) (read : Json.Atom.read source = .ok atom)
    (before : Json.Value) : (decodeOpaque (.leaf lexeme) before).Returns atom.value last := by
  have readValue : Json.readValue 0 (.leaf (.scalar source)) = .ok atom.value := by
    rw [Json.readValue, read]
    rfl
  rw [decodeOpaque_of_readValue run (.leaf matching) (.scalar source) (Nat.zero_le _) readValue]
  exact .done _ _

/-- **A value of one token is decoded as it is read.** -/
theorem decodeLeaf_returns {piece : Piece} {lexeme : Lexeme} (matching : Matches piece lexeme)
    (run : Lexer.Run lexer (Tree.leaf lexeme).items last) :
    ∀ {shape : C.Shape} {value : C.Value shape}, readLeaf C piece shape = .ok value →
      (decodeLeaf C lexeme shape (C.blank shape)).Returns value last := by
  intro shape value read
  obtain ⟨source, rfl⟩ := Declarative.exists_source_of_readLeaf read
  have ends : lexeme.lexer = last := run.lexer_eq_of_leaf
  obtain ⟨rest, same, reads⟩ := matching.exists_rest matching.isScalar
  induction shape with
  | scalar kind =>
      obtain ⟨atom, atomRead, taken⟩ := bind_eq_ok_iff.mp read
      obtain ⟨carried, accepted, rfl⟩ := map_eq_ok_iff.mp taken
      rw [Catalog.blank, decodeLeaf]
      apply Outcome.Returns.map
      by_cases opaqueJson : kind = .opaqueJson
      · subst opaqueJson
        cases accepted
        exact decodeOpaque_leaf_returns matching run atomRead _
      · rw [← ends]
        have word : Json.Atom.read lexeme.source = .ok atom := by
          rw [← Json.Atom.read_append reads matching.isScalar, ← Piece.scalar.inj same, atomRead]
        exact Scalar.decode_returns opaqueJson
          (Json.Atom.shown_of_read reads matching.isScalar word) accepted
  | option inner ih =>
      have null := Json.token_eq_null_iff reads matching.isScalar
      rw [← Piece.scalar.inj same] at null
      rw [Declarative.readLeaf_option] at read
      rw [decodeLeaf]
      by_cases begins : source.head? = some 0x6E
      · rw [if_pos begins] at read
        obtain ⟨atom, -, rfl⟩ := map_eq_ok_iff.mp read
        rw [if_pos (null.mp begins), ← ends]
        exact .done _ _
      · rw [if_neg begins] at read
        obtain ⟨value, readInner, rfl⟩ := map_eq_ok_iff.mp read
        rw [if_neg (mt null.mpr begins)]
        exact (ih readInner).replace _ _
  | list inner =>
      obtain ⟨atom, -, refused⟩ := bind_eq_ok_iff.mp read
      cases refused
  | entity name =>
      obtain ⟨atom, -, refused⟩ := bind_eq_ok_iff.mp read
      cases refused

/-! ## Values with a body -/

/-- **A value with a body is decoded as it is read**, if its members or its items are. -/
theorem decodeGroup_returns {opening : Piece} {body : Body Piece} {first : Lexeme}
    {tokens : Body Lexeme} (alike : (Tree.group opening body).Related Matches (.group first tokens))
    (inOrder : InOrder (.group opening body))
    (run : Lexer.Run lexer (Tree.group first tokens).items last) {allowed : Nat}
    (within : allowed ≤ nestingLimit)
    {members positional : (name : C.Name) → Except Json.Fault (C.Entity name)}
    {items : (inner : C.Shape) → Except Json.Fault (C.Sequence inner)}
    {objectMembers : C.Name → Bool} {objectItems : C.Shape → Bool}
    {decodesMembers : (name : C.Name) → C.Entity name → Outcome (C.Entity name)}
    {decodesItems : (inner : C.Shape) → Outcome (C.Sequence inner)}
    (membersReturn : ∀ name record, opening = .mark .objectStart → members name = .ok record →
      objectMembers name = true → (decodesMembers name (C.blankEntity name)).Returns record last)
    (itemsReturn : ∀ inner sequence, opening = .mark .arrayStart → items inner = .ok sequence →
      objectItems inner = true → (decodesItems inner).Returns sequence last) :
    ∀ {shape : C.Shape} {value : C.Value shape},
      readGroup C opening body allowed members positional items shape = .ok value →
        objectsInGroup C opening objectMembers objectItems shape = true →
          (decodeGroup C first tokens decodesMembers decodesItems shape (C.blank shape)).Returns
            value last := by
  intro shape value read objects
  have begins : Matches opening first := alike.head
  induction shape with
  | scalar kind =>
      obtain ⟨carried, readScalar, rfl⟩ := map_eq_ok_iff.mp read
      obtain rfl := Declarative.eq_opaqueJson_of_scalarOfGroup readScalar
      rw [Catalog.blank, decodeGroup]
      apply Outcome.Returns.map
      rw [Scalar.decode, decodeOpaque_of_readValue run alike inOrder within readScalar]
      exact .done _ _
  | option inner ih =>
      obtain ⟨value, readInner, rfl⟩ := map_eq_ok_iff.mp read
      rw [decodeGroup]
      exact (ih readInner objects).replace _ _
  | list inner =>
      obtain ⟨rfl, -, sequence, readItems, rfl⟩ := Declarative.readGroup_list.mp read
      rw [decodeGroup, if_pos begins.token_eq]
      exact (itemsReturn inner sequence rfl readItems objects).map _
  | entity name =>
      rw [objectsInGroup, Bool.and_eq_true, Bool.not_eq_true', ← Bool.not_eq_true,
        Piece.isMark_iff] at objects
      obtain ⟨-, record, readRecord, rfl⟩ := (Declarative.readGroup_entity objects.1).mp read
      cases inOrder with
      | object _ =>
          rw [Catalog.blank, decodeGroup, if_pos begins.token_eq]
          exact (membersReturn name record rfl readRecord objects.2).map _
      | array _ => exact absurd rfl objects.1

/-! ## Progress through an object -/

/-- The fields that no member has named are blank. -/
def Declarative.Progress.HoldsBlanks {name : C.Name} (progress : Progress (C.Entity name)) : Prop :=
  ∀ index : Fin (C.fields name).length, index.val ∉ progress.named →
    progress.fields.get index = C.blank ((C.fields name).get index).shape

/-- The number of the field that the key read last has found, at a stage behind the key. -/
def currentField (C : Catalog) (name : C.Name) (stage : Stage) (key : String) : Option Nat :=
  match stage with
  | .named | .announced => (C.names name).findIdx? (· == key)
  | _ => none

/-- Behind its key, a field that is not taken over from another entity is not named yet. -/
def IsFree (C : Catalog) (name : C.Name) (stage : Stage) (key : String) (named : List Nat) : Prop :=
  ∀ index, currentField C name stage key = some index → inherited (C.layout name) ≤ index →
    index ∉ named

/-- **Writing a member into its field** is reading it, if the field is blank.  The fields that
are not named then are still blank. -/
theorem decodeAt_returns {name : C.Name} {progress : Progress (C.Entity name)} {index : Nat}
    {fields : C.Entity name} (tokens : Tree Lexeme) (blank : progress.HoldsBlanks)
    (bound : index < (C.fields name).length) (free : index ∉ progress.named)
    {read : (shape : C.Shape) → Except Json.Fault (C.Value shape)}
    {decode : (shape : C.Shape) → C.Value shape → Outcome (C.Value shape)}
    (readField : readAt read index progress.fields = .ok fields)
    (returns : ∀ value, read ((C.fields name).get ⟨index, bound⟩).shape = .ok value →
      (decode _ (C.blank _)).Returns value last) :
    (progress.fields.decodeAt tokens decode index).Returns fields last ∧
      Progress.HoldsBlanks ⟨fields, index :: progress.named, none⟩ := by
  rw [Declarative.readAt_eq _ _ ⟨index, bound⟩] at readField
  obtain ⟨value, read, rfl⟩ := map_eq_ok_iff.mp readField
  rw [progress.fields.decodeAt_eq _ _ ⟨index, bound⟩, blank ⟨index, bound⟩ free]
  refine ⟨(returns value read).map _, fun other notNamed => ?_⟩
  rw [List.mem_cons, not_or] at notNamed
  rw [Record.get_set_ne _ _ _ _ fun same => notNamed.1 (congrArg Fin.val same)]
  exact blank other notNamed.2

/-! ## Values of any nesting -/

mutual

/-- **What is read is decoded**, into a blank value. -/
theorem decodeTree_returns (keys : C.HasKeys) : ∀ {tree : Tree Piece} {tokens : Tree Lexeme},
    tree.Related Matches tokens → InOrder tree → ∀ {lexer last : Lexer},
      Lexer.Run lexer tokens.items last → ∀ {allowed : Nat}, allowed ≤ nestingLimit →
        ∀ {shape : C.Shape} {value : C.Value shape}, readTree C tree allowed shape = .ok value →
          objectsIn C tree shape = true →
            (decodeTree C .exact tokens shape (C.blank shape)).Returns value last
  | .leaf piece, _, .leaf matching, _, _, _, run, _, _, _, _, read, _ => by
      rw [readTree] at read
      rw [decodeTree]
      exact decodeLeaf_returns matching run read
  | .group opening body, _, .group begins inside, inOrder, lexer, last, run, allowed, within, _, _,
      read, objects => by
      rw [readTree] at read
      rw [objectsIn] at objects
      rw [decodeTree]
      have behind := run
      rw [Tree.items] at behind
      cases behind with
      | cons going following =>
          refine decodeGroup_returns (.group begins inside) inOrder run within ?_ ?_ read objects
          · rintro name record rfl readRecord objectsRecord
            cases inOrder with
            | object members =>
                refine decodeMembers_returns keys inside members following (by omega) readRecord
                  objectsRecord (fun index _ => C.get_blankEntity name index) ?_
                intro index found
                cases found
          · rintro inner sequence rfl readSequence objectsSequence
            cases inOrder with
            | array items =>
                exact decodeItems_returns keys inside items following (by omega) readSequence
                  objectsSequence

/-- The members that are read are decoded. -/
theorem decodeMembers_returns (keys : C.HasKeys) : ∀ {body : Body Piece} {tokens : Body Lexeme},
    body.Related Matches tokens → ∀ {stage : Stage}, HasMembers stage body →
      ∀ {lexer last : Lexer}, Lexer.Run lexer tokens.items last →
        ∀ {allowed : Nat}, allowed ≤ nestingLimit →
          ∀ {name : C.Name} {key : String} {progress : Progress (C.Entity name)}
            {record : C.Entity name},
            readMembers C body allowed name stage key progress = .ok record →
              objectsInMembers C body name stage key = true → progress.HoldsBlanks →
                IsFree C name stage key progress.named →
                  (decodeMembers C .exact tokens name stage.memberPlace
                    (currentField C name stage key) progress.fields).Returns record last
  | .close ending, _, .close matching, stage, _, lexer, last, run, _, _, name, _, _, _, read, _, _,
      _ => by
      obtain ⟨⟨rfl, ends⟩, finished⟩ := Declarative.readMembers_close.mp read
      obtain ⟨-, rfl⟩ := Progress.finish_eq_ok_iff.mp finished
      have mayEnd : stage.memberPlace.mayEnd = true := by rcases ends with rfl | rfl <;> rfl
      rw [decodeMembers, if_pos ⟨matching.token_eq, mayEnd⟩, ← run.ending, Body.ending]
      exact .done _ _
  | .more tree rest, _, @Body.Related.more _ _ _ _ tokens _ _ alike following, stage, members, lexer,
      last, run, allowed, within, name, key, progress, record, read, objects, blank, free => by
      rw [Body.items] at run
      obtain ⟨middle, runHead, runRest⟩ := run.exists_middle
      cases members with
      | @key _ bytes _ begins membersRest =>
          have place : stage.memberPlace = .key := by rcases begins with rfl | rfl <;> rfl
          obtain ⟨_, same, next, text, first, readRest⟩ :=
            (Declarative.readMembers_key begins).mp read
          cases same
          rw [Declarative.objectsInMembers_key begins rfl text] at objects
          obtain ⟨string, captured⟩ := alike.head.output_eq text
          have returns := decodeMembers_returns keys following membersRest runRest within readRest objects
            blank fun index found own isIn => first index found ⟨own, isIn⟩
          rw [place, decodeMembers, if_pos string]
          simp only [captured, keys.keys_eq, Key.resolve_exact (keys.named name)]
          rw [Stage.memberPlace, currentField] at returns
          cases found : (C.names name).findIdx? (· == next) with
          | none =>
              rw [found] at returns
              exact returns.note _
          | some index =>
              rw [found] at returns
              exact returns
      | colon membersRest =>
          obtain ⟨-, readRest⟩ := Declarative.readMembers_colon.mp read
          rw [Stage.memberPlace, decodeMembers, if_pos alike.head.token_eq]
          exact decodeMembers_returns keys following membersRest runRest within readRest objects blank free
      | value inOrder membersRest =>
          obtain ⟨objectsHere, objectsRest⟩ := Declarative.objectsInMembers_value objects
          rw [Stage.memberPlace, decodeMembers.eq_def]
          simp only [if_pos (inOrder.isValue alike)]
          rw [IsFree, currentField] at free
          rw [currentField]
          cases found : (C.names name).findIdx? (· == key) with
          | none =>
              obtain ⟨-, readRest⟩ := (Declarative.readMembers_unknown found).mp read
              have skipped : ((skipTree tokens).map fun _ => progress.fields).Returns progress.fields
                  middle := by
                rw [inOrder.skipTree_eq alike, runHead.last_eq]
                exact (Outcome.Returns.done () middle).map _
              apply skipped.follow
              exact decodeMembers_returns keys following membersRest runRest within readRest objectsRest
                blank fun index found => by cases found
          | some index =>
              obtain ⟨behind, recorded, readRest⟩ := (Declarative.readMembers_known found).mp read
              obtain ⟨-, late, fields, readField, rfl⟩ :=
                Progress.exists_of_record recorded (Declarative.late_of_readMembers readRest)
              obtain ⟨bound, field⟩ := Declarative.exists_get_of_findIdx? found
              have notNamed : index ∉ progress.named := by
                by_cases isLate : index < inherited (C.layout name)
                · exact late (decide_eq_true isLate)
                · exact free index found (Nat.le_of_not_lt isLate)
              obtain ⟨returns, stillBlank⟩ := decodeAt_returns tokens blank
                bound notNamed readField fun value readValue =>
                  decodeTree_returns keys alike inOrder runHead within readValue (objectsHere _ field)
              apply Outcome.Returns.follow returns
              exact decodeMembers_returns keys following membersRest runRest within readRest objectsRest
                stillBlank fun index found => by cases found
      | comma membersRest =>
          obtain ⟨-, readRest⟩ := Declarative.readMembers_comma.mp read
          rw [Stage.memberPlace, decodeMembers, if_pos alike.head.token_eq]
          exact decodeMembers_returns keys following membersRest runRest within readRest objects blank
            fun index found => by cases found

/-- The items that are read are decoded. -/
theorem decodeItems_returns (keys : C.HasKeys) : ∀ {body : Body Piece} {tokens : Body Lexeme},
    body.Related Matches tokens → ∀ {stage : Stage}, HasItems stage body →
      ∀ {lexer last : Lexer}, Lexer.Run lexer tokens.items last →
        ∀ {allowed : Nat}, allowed ≤ nestingLimit →
          ∀ {inner : C.Shape} {items : C.Sequence inner},
            readItems C body allowed inner stage = .ok items →
              objectsInItems C body inner = true →
                (decodeItems C .exact tokens inner stage.itemPlace).Returns items last
  | .close ending, _, .close matching, _, _, _, _, run, _, _, _, _, read, _ => by
      obtain ⟨⟨rfl, -⟩, rfl⟩ := Declarative.readItems_close.mp read
      rw [decodeItems, if_pos matching.token_eq, ← run.ending, Body.ending]
      exact .done _ _
  | .more tree rest, _, .more alike following, stage, hasItems, lexer, last, run, allowed, within,
      inner, items, read, objects => by
      rw [Body.items] at run
      obtain ⟨middle, runHead, runRest⟩ := run.exists_middle
      rw [objectsInItems, Bool.and_eq_true] at objects
      cases hasItems with
      | item begins inOrder itemsRest =>
          obtain ⟨head, readHead, tail, readTail, rfl⟩ := (Declarative.readItems_item begins).mp read
          rw [Stage.itemPlace_of_ne begins, decodeItems, if_pos (inOrder.isValue alike)]
          refine Outcome.Returns.follow
            (decodeTree_returns keys alike inOrder runHead within readHead objects.1) ?_
          exact (decodeItems_returns keys following itemsRest runRest within readTail objects.2).map _
      | comma itemsRest =>
          obtain ⟨-, readRest⟩ := Declarative.readItems_comma.mp read
          rw [Stage.itemPlace, decodeItems, if_pos alike.head.token_eq]
          exact decodeItems_returns keys following itemsRest runRest within readRest objects.2

end

end

/-! ## Documents -/

/-- **What the declarative reader accepts is decoded to the same record**, for every catalog
whose entities have keys. -/
theorem decodeDocument_of_read {C : Catalog} (keys : C.HasKeys) {name : C.Name} {payload : Bytes}
    {record : C.Entity name}
    (accepted : Declarative.read C (.entity name) payload = .ok (.entity record))
    (objects : Declarative.objectsInDocument C (.entity name) payload = true) :
    (decodeDocument C .exact name payload).result = .ok record := by
  obtain ⟨tree, grouped, read⟩ := Json.readDocument_eq_ok_iff.mp accepted
  rw [Declarative.objectsInDocument, grouped] at objects
  have inOrder := Declarative.inOrder_of_readTree (Piece.isOpened_body grouped) read objects
  obtain ⟨tokens, last, alike, nested, run, ended⟩ :=
    Json.exists_run_of_body (show (Lexer.ofBytes payload).fault = none from rfl) rfl grouped inOrder
  have returns := decodeTree_returns keys alike inOrder run (Nat.le_refl _) read objects
  cases alike with
  | leaf matching =>
      obtain ⟨source, rfl⟩ := Declarative.exists_source_of_readLeaf read
      obtain ⟨atom, -, refused⟩ := bind_eq_ok_iff.mp read
      cases refused
  | @group opening first body body' begins inside =>
      by_cases object : first.token = .objectStart
      · exact decodeDocument_of_returns (show (Tree.group first body').head.token = _ from object)
          nested run ended returns
      · rw [decodeTree, Catalog.blank, decodeGroup, if_neg object] at returns
        cases returns.error_eq

/-- **The two decoders agree wherever the declarative one accepts.**  Whatever the payload, if
the declarative reader takes it for an entity of the chat service, and no array stands in it
where an entity is expected, then the streaming decoder with exact keys decodes it to the
same record. -/
theorem Chat.decodeDocument_eq_read (name : EntityName) (payload : Bytes)
    (record : Chat.Entity name)
    (accepted : Declarative.read Chat (.entity name) payload = .ok (.entity record))
    (objects : Declarative.objectsInDocument Chat (.entity name) payload = true) :
    (decodeDocument Chat .exact name payload).result = .ok record :=
  decodeDocument_of_read hasKeys accepted objects

/-- A reaction with its members in another order, an identifier as a number, and a member of
the emoji that no field has. -/
def reactionPayload : Bytes :=
  bytesOf "\x7b\"me\":true, \"emoji\":\x7b\"name\":\"\\u00e9\", \"guild\":[\x7b\x7d], \"id\":81\x7d,\"count\":3\x7d"

/-- The reaction of that payload. -/
def reactionRead : Chat.Entity .reaction :=
  .cons (.scalar ⟨3, by decide⟩) (.cons (.scalar true) (.cons (.entity
    (.cons (.scalar ⟨81⟩) (.cons (.scalar "é") (.cons (.list .nil) (.cons .none
      (.cons (.scalar false) (.cons (.scalar false) (.cons (.scalar false)
        (.cons (.scalar false) .nil))))))))) .nil))

/-- Both decoders take the payload for that reaction. -/
theorem Chat.decodeDocument_eq_read_reaction :
    Declarative.read Chat (.entity .reaction) reactionPayload = .ok (.entity reactionRead) ∧
      Declarative.objectsInDocument Chat (.entity .reaction) reactionPayload = true ∧
      (decodeDocument Chat .exact .reaction reactionPayload).result = .ok reactionRead := by
  have accepted : Declarative.read Chat (.entity .reaction) reactionPayload =
      .ok (.entity reactionRead) := by decide +kernel
  have objects : Declarative.objectsInDocument Chat (.entity .reaction) reactionPayload = true := by
    decide +kernel
  exact ⟨accepted, objects,
    decodeDocument_eq_read .reaction reactionPayload reactionRead accepted objects⟩

end ChatCodec
