import ChatCodec.Proofs.Declarative.Steps
import ChatCodec.Proofs.Records

/-!
# Documents that write entities as objects

The declarative reader takes an array for an entity, with the values of its fields in order;
the streaming decoder does not.  This module says of a document that it has no array where
an entity is expected (`Declarative.objectsInDocument`).  Where that is depends on the
shapes: on the keys of objects, and on the shapes of the fields that have these keys.

Such a value, if it is read, keeps to the strict grammar as a whole
(`Declarative.inOrder_of_readTree`), members that no field has included.
-/

namespace ChatCodec

set_option autoImplicit false

open Json (Piece Stage InOrder HasMembers HasItems)

namespace Declarative

section

variable (C : Catalog)

/-! ## Places of entities -/

/-- Whether a value with a body is no array where its shape expects an entity.  `members` and
`items` say the same of what is inside. -/
def objectsInGroup (opening : Piece) (members : C.Name → Bool) (items : C.Shape → Bool) :
    C.Shape → Bool
  | .scalar _ => true
  | .option inner => objectsInGroup opening members items inner
  | .list inner => items inner
  | .entity name => !opening.isMark .arrayStart && members name

mutual

/-- Whether a value of a shape has no array where an entity is expected. -/
def objectsIn : Tree Piece → C.Shape → Bool
  | .leaf _, _ => true
  | .group opening body, shape =>
      objectsInGroup C opening (fun name => objectsInMembers body name .opened "")
        (fun inner => objectsInItems body inner) shape

/-- Whether the rest of an object has no array where a field expects an entity.  `key` is the
key read last. -/
def objectsInMembers : Body Piece → C.Name → Stage → String → Bool
  | .close _, _, _, _ => true
  | .more tree rest, name, stage, key =>
      match stage with
      | .opened | .separated =>
          match tree.head.key?.map Json.readText with
          | some (.ok key) => objectsInMembers rest name .named key
          | _ => true
      | .named => objectsInMembers rest name .announced key
      | .announced =>
          (((C.fields name).find? (·.name == key)).all fun field => objectsIn tree field.shape) &&
            objectsInMembers rest name .filled key
      | .filled => objectsInMembers rest name .separated key

/-- Whether the items of an array have no array where an entity is expected. -/
def objectsInItems : Body Piece → C.Shape → Bool
  | .close _, _ => true
  | .more tree rest, inner => objectsIn tree inner && objectsInItems rest inner

end

/-- Whether a document of a shape has no array where an entity is expected. -/
def objectsInDocument (shape : C.Shape) (document : Bytes) : Bool :=
  match Piece.body document with
  | .close _ => true
  | .more tree _ => objectsIn C tree shape

end

/-! ## Steps -/

section

variable {C : Catalog} {tree : Tree Piece} {rest : Body Piece} {name : C.Name} {stage : Stage}
  {key : String}

theorem objectsInMembers_key {bytes : Bytes} (begins : stage = .opened ∨ stage = .separated)
    (head : tree.head = .scalar (Ascii.quote :: bytes)) {next : String}
    (text : Json.readText bytes = .ok next) :
    objectsInMembers C (.more tree rest) name stage key =
      objectsInMembers C rest name .named next := by
  have found : tree.head.key?.map Json.readText = some (.ok next) := by
    rw [Piece.key?_eq_some_iff.mpr head, Option.map_some, text]
  rcases begins with rfl | rfl <;> rw [objectsInMembers, found]

/-- The field of a key, by the key's number. -/
theorem exists_get_of_findIdx? {index : Nat}
    (known : (C.names name).findIdx? (· == key) = some index) :
    ∃ bound : index < (C.fields name).length,
      (C.fields name).find? (·.name == key) = some ((C.fields name).get ⟨index, bound⟩) := by
  rw [Catalog.names, List.findIdx?_map] at known
  obtain ⟨bound, -⟩ := List.findIdx?_eq_some_iff_getElem.mp known
  refine ⟨bound, ?_⟩
  rw [List.find?_eq_bind_findIdx?_getElem?]
  exact (congrArg (Option.bind · _) known).trans (List.getElem?_eq_getElem bound)

theorem objectsInMembers_value
    (objects : objectsInMembers C (.more tree rest) name .announced key = true) :
    (∀ field, (C.fields name).find? (·.name == key) = some field →
        objectsIn C tree field.shape = true) ∧
      objectsInMembers C rest name .filled key = true := by
  rw [objectsInMembers, Bool.and_eq_true] at objects
  refine ⟨fun field found => ?_, objects.2⟩
  have inField := objects.1
  rw [found] at inField
  exact inField

end

/-! ## What is read is in order -/

section

variable {C : Catalog}

/-- A value with a body is in order, if its members or its items are. -/
theorem inOrder_of_readGroup {opening : Piece} {body : Body Piece} {allowed : Nat}
    (opened : (Tree.group opening body).IsOpened Piece.role)
    {members positional : (name : C.Name) → Except Json.Fault (C.Entity name)}
    {items : (inner : C.Shape) → Except Json.Fault (C.Sequence inner)}
    {objectMembers : C.Name → Bool} {objectItems : C.Shape → Bool}
    (membersInOrder : ∀ name record, members name = .ok record → objectMembers name = true →
      HasMembers .opened body)
    (itemsInOrder : ∀ inner sequence, items inner = .ok sequence → objectItems inner = true →
      HasItems .opened body) :
    ∀ {shape : C.Shape} {value : C.Value shape},
      readGroup C opening body allowed members positional items shape = .ok value →
        objectsInGroup C opening objectMembers objectItems shape = true →
          InOrder (.group opening body)
  | .scalar kind, value, read, _ => by
      obtain ⟨carried, read, -⟩ := map_eq_ok_iff.mp read
      obtain rfl := eq_opaqueJson_of_scalarOfGroup read
      exact Json.inOrder_of_readValue opened read
  | .option inner, value, read, objects => by
      obtain ⟨value, read, -⟩ := map_eq_ok_iff.mp read
      exact inOrder_of_readGroup opened membersInOrder itemsInOrder read objects
  | .list inner, value, read, objects => by
      obtain ⟨rfl, -, sequence, read, -⟩ := readGroup_list.mp read
      exact .array (itemsInOrder inner sequence read objects)
  | .entity name, value, read, objects => by
      rw [Tree.IsOpened] at opened
      rw [objectsInGroup, Bool.and_eq_true, Bool.not_eq_true', ← Bool.not_eq_true,
        Piece.isMark_iff] at objects
      obtain ⟨noArray, objects⟩ := objects
      obtain ⟨-, record, readRecord, -⟩ := (readGroup_entity noArray).mp read
      rcases Piece.role_mark_eq_opens opened.1 with rfl | rfl
      · exact .object (membersInOrder name record readRecord objects)
      · exact absurd rfl noArray

mutual

/-- **What is read is in order**, if its groups are opened and its entities are objects. -/
theorem inOrder_of_readTree : ∀ {tree : Tree Piece}, tree.IsOpened Piece.role →
    ∀ {allowed : Nat} {shape : C.Shape} {value : C.Value shape},
      readTree C tree allowed shape = .ok value → objectsIn C tree shape = true → InOrder tree
  | .leaf piece, _, _, _, _, read, _ => by
      rw [readTree] at read
      obtain ⟨source, rfl⟩ := exists_source_of_readLeaf read
      exact .scalar source
  | .group opening body, opened, _, _, _, read, objects => by
      rw [readTree] at read
      rw [objectsIn] at objects
      have inside := opened
      rw [Tree.IsOpened] at inside
      exact inOrder_of_readGroup opened
        (fun _ _ read objects => hasMembers_of_readMembers inside.2 read objects)
        (fun _ _ read objects => hasItems_of_readItems inside.2 read objects) read objects

theorem hasMembers_of_readMembers : ∀ {body : Body Piece}, body.IsOpened Piece.role →
    ∀ {allowed : Nat} {name : C.Name} {stage : Stage} {key : String}
      {progress : Progress (C.Entity name)} {record : C.Entity name},
      readMembers C body allowed name stage key progress = .ok record →
        objectsInMembers C body name stage key = true → HasMembers stage body
  | .close ending, _, _, _, _, _, _, _, read, _ => by
      obtain ⟨⟨rfl, ends⟩, -⟩ := readMembers_close.mp read
      exact .close ends
  | .more tree rest, opened, allowed, name, stage, key, progress, record, read, objects => by
      rw [Body.IsOpened] at opened
      have atKey (begins : stage = .opened ∨ stage = .separated) :
          HasMembers stage (.more tree rest) := by
        obtain ⟨bytes, head, key, text, -, behind⟩ := (readMembers_key begins).mp read
        rw [objectsInMembers_key begins head text] at objects
        rw [Json.eq_leaf_of_isOpened opened.1 head rfl]
        exact .key begins (hasMembers_of_readMembers opened.2 behind objects)
      cases stage with
      | opened => exact atKey (.inl rfl)
      | separated => exact atKey (.inr rfl)
      | named =>
          obtain ⟨head, behind⟩ := readMembers_colon.mp read
          rw [Json.eq_leaf_of_isOpened opened.1 head rfl]
          exact .colon (hasMembers_of_readMembers opened.2 behind objects)
      | filled =>
          obtain ⟨head, behind⟩ := readMembers_comma.mp read
          rw [Json.eq_leaf_of_isOpened opened.1 head rfl]
          exact .comma (hasMembers_of_readMembers opened.2 behind objects)
      | announced =>
          obtain ⟨objectsHere, objectsBehind⟩ := objectsInMembers_value objects
          cases found : (C.names name).findIdx? (· == key) with
          | none =>
              obtain ⟨passed, behind⟩ := (readMembers_unknown found).mp read
              refine .value ?_ (hasMembers_of_readMembers opened.2 behind objectsBehind)
              rcases passed with ⟨passed, -⟩ | ⟨⟨value, passed⟩, -⟩
              · exact Json.inOrder_of_passValue opened.1 passed
              · exact Json.inOrder_of_readValue opened.1 passed
          | some index =>
              obtain ⟨following, recorded, behind⟩ := (readMembers_known found).mp read
              obtain ⟨-, -, fields, readField, -⟩ :=
                Progress.exists_of_record recorded (late_of_readMembers behind)
              obtain ⟨bound, field⟩ := exists_get_of_findIdx? found
              rw [readAt_eq _ _ ⟨index, bound⟩] at readField
              obtain ⟨value, readValue, -⟩ := map_eq_ok_iff.mp readField
              exact .value (inOrder_of_readTree opened.1 readValue (objectsHere _ field))
                (hasMembers_of_readMembers opened.2 behind objectsBehind)

theorem hasItems_of_readItems : ∀ {body : Body Piece}, body.IsOpened Piece.role →
    ∀ {allowed : Nat} {inner : C.Shape} {stage : Stage} {items : C.Sequence inner},
      readItems C body allowed inner stage = .ok items → objectsInItems C body inner = true →
        HasItems stage body
  | .close ending, _, _, _, _, _, read, _ => by
      obtain ⟨⟨rfl, ends⟩, -⟩ := readItems_close.mp read
      exact .close ends
  | .more tree rest, opened, _, inner, stage, _, read, objects => by
      rw [Body.IsOpened] at opened
      rw [objectsInItems, Bool.and_eq_true] at objects
      by_cases filled : stage = .filled
      · subst filled
        obtain ⟨head, behind⟩ := readItems_comma.mp read
        rw [Json.eq_leaf_of_isOpened opened.1 head rfl]
        exact .comma (hasItems_of_readItems opened.2 behind objects.2)
      · obtain ⟨value, readHead, tail, behind, -⟩ := (readItems_item filled).mp read
        exact .item filled (inOrder_of_readTree opened.1 readHead objects.1)
          (hasItems_of_readItems opened.2 behind objects.2)

end

end

end Declarative

end ChatCodec
