import ChatCodec.Declarative.Read
import ChatCodec.Streaming.Decode

/-!
# Fields of records

A record is what its fields are (`Record.ext_get`), and writing one field leaves the others
(`Record.get_set_ne`).  Both decoders reach a field by its number; what they do is to set
it (`Record.decodeAt_eq`, `Declarative.readAt_eq`).

The fields of the blank record of an entity are the blank values of their shapes
(`Catalog.get_blankEntity`), although the blank record is found by going down a bounded
number of entities.
-/

namespace ChatCodec

set_option autoImplicit false

namespace Record

variable {Name : Type} {fields : Name → List (Field Name)}

/-! ## Getting and setting -/

theorem get_set_same : ∀ {list : List (Field Name)} (record : Record fields list)
    (index : Fin list.length) (value : Val fields (list.get index).shape),
    (record.set index value).get index = value
  | _ :: _, .cons _ _, ⟨0, _⟩, _ => rfl
  | _ :: _, .cons _ tail, ⟨index + 1, bound⟩, value =>
      tail.get_set_same ⟨index, Nat.lt_of_succ_lt_succ bound⟩ value

/-- Setting a field leaves the others. -/
theorem get_set_ne : ∀ {list : List (Field Name)} (record : Record fields list)
    (index other : Fin list.length) (value : Val fields (list.get index).shape), other ≠ index →
    (record.set index value).get other = record.get other
  | _ :: _, .cons _ _, ⟨0, _⟩, ⟨0, _⟩, _, differs => absurd rfl differs
  | _ :: _, .cons _ _, ⟨0, _⟩, ⟨_ + 1, _⟩, _, _ => rfl
  | _ :: _, .cons _ _, ⟨_ + 1, _⟩, ⟨0, _⟩, _, _ => rfl
  | _ :: _, .cons _ tail, ⟨index + 1, bound⟩, ⟨other + 1, within⟩, value, differs =>
      tail.get_set_ne ⟨index, Nat.lt_of_succ_lt_succ bound⟩
        ⟨other, Nat.lt_of_succ_lt_succ within⟩ value
        fun same => differs (Fin.ext (congrArg (·.val + 1) same))

/-- Setting a field again takes the place of what was set. -/
theorem set_set : ∀ {list : List (Field Name)} (record : Record fields list)
    (index : Fin list.length) (first second : Val fields (list.get index).shape),
    (record.set index first).set index second = record.set index second
  | _ :: _, .cons _ _, ⟨0, _⟩, _, _ => rfl
  | _ :: _, .cons head tail, ⟨index + 1, bound⟩, first, second =>
      congrArg (Record.cons head)
        (tail.set_set ⟨index, Nat.lt_of_succ_lt_succ bound⟩ first second)

/-- Setting a field to what it is changes nothing. -/
theorem set_get : ∀ {list : List (Field Name)} (record : Record fields list)
    (index : Fin list.length), record.set index (record.get index) = record
  | _ :: _, .cons _ _, ⟨0, _⟩ => rfl
  | _ :: _, .cons head tail, ⟨index + 1, bound⟩ =>
      congrArg (Record.cons head) (tail.set_get ⟨index, Nat.lt_of_succ_lt_succ bound⟩)

/-- **Records with the same fields are the same.** -/
theorem ext_get : ∀ {list : List (Field Name)} {first second : Record fields list},
    (∀ index, first.get index = second.get index) → first = second
  | [], .nil, .nil, _ => rfl
  | _ :: _, .cons head tail, .cons head' tail', same => by
      have heads : head = head' := same ⟨0, Nat.zero_lt_succ _⟩
      have tails : tail = tail' := ext_get fun index => same index.succ
      rw [heads, tails]

/-! ## Decoding into a field -/

/-- **Decoding by the number of a field sets that field.** -/
theorem decodeAt_eq (tree : Tree Lexeme)
    (decode : (shape : Shape Name) → Val fields shape → Outcome (Val fields shape)) :
    ∀ {list : List (Field Name)} (record : Record fields list) (index : Fin list.length),
      record.decodeAt tree decode index =
        (decode (list.get index).shape (record.get index)).map (record.set index)
  | _ :: _, .cons _ _, ⟨0, _⟩ => rfl
  | _ :: _, .cons _ tail, ⟨index + 1, bound⟩ => by
      show (tail.decodeAt tree decode index).map _ = _
      rw [tail.decodeAt_eq tree decode ⟨index, Nat.lt_of_succ_lt_succ bound⟩]
      rfl

/-- A number that no field has skips the value. -/
theorem decodeAt_beyond (tree : Tree Lexeme)
    (decode : (shape : Shape Name) → Val fields shape → Outcome (Val fields shape)) :
    ∀ {list : List (Field Name)} (record : Record fields list) (index : Nat),
      list.length ≤ index →
        record.decodeAt tree decode index = (skipTree tree).map fun _ => record
  | [], .nil, _, _ => by rw [decodeAt]
  | _ :: _, .cons _ tail, index + 1, beyond => by
      rw [decodeAt, tail.decodeAt_beyond tree decode index (Nat.le_of_succ_le_succ beyond)]
      rfl

end Record

/-- **Reading by the number of a field sets that field.** -/
theorem Declarative.readAt_eq {Name : Type} {fields : Name → List (Field Name)}
    (read : (shape : Shape Name) → Except Json.Fault (Val fields shape)) :
    ∀ {list : List (Field Name)} (record : Record fields list) (index : Fin list.length),
      readAt read index record = (read (list.get index).shape).map (record.set index)
  | _ :: _, .cons _ _, ⟨0, _⟩ => rfl
  | field :: list, .cons head tail, ⟨index + 1, bound⟩ => by
      show (readAt read index tail).map _ = _
      rw [readAt_eq read tail ⟨index, Nat.lt_of_succ_lt_succ bound⟩]
      show ((read (list.get ⟨index, _⟩).shape).map _).map _ = (read (list.get ⟨index, _⟩).shape).map _
      cases read (list.get ⟨index, Nat.lt_of_succ_lt_succ bound⟩).shape <;> rfl

/-! ## Blank records -/

section

variable {Name : Type} {fields : Name → List (Field Name)}

/-- The fields of a blank record are blank. -/
theorem get_blankRecord? {records : (name : Name) → Option (Record fields (fields name))} :
    ∀ {list : List (Field Name)} {record : Record fields list},
      blankRecord? fields records list = some record → ∀ (index : Fin list.length),
        blankValue? fields records (list.get index).shape = some (record.get index)
  | field :: list, record, found, index => by
      obtain ⟨head, tail, foundHead, foundTail, rfl⟩ :=
        (blankRecord?_cons_eq_some_iff fields).mp found
      cases index using Fin.cases with
      | zero => exact foundHead
      | succ index => exact get_blankRecord? foundTail index

section

variable {records more : (name : Name) → Option (Record fields (fields name))}
  (grows : ∀ name record, records name = some record → more name = some record)

include grows

theorem blankValue?_mono : ∀ {shape : Shape Name} {value : Val fields shape},
    blankValue? fields records shape = some value → blankValue? fields more shape = some value
  | .scalar _, _, found => found
  | .option _, _, found => found
  | .list _, _, found => found
  | .entity name, _, found => by
      obtain ⟨record, foundRecord, rfl⟩ := Option.map_eq_some_iff.mp found
      rw [blankValue?, grows name record foundRecord]
      rfl

/-- A blank record stays the same if more entities have one. -/
theorem blankRecord?_mono : ∀ {list : List (Field Name)} {record : Record fields list},
    blankRecord? fields records list = some record → blankRecord? fields more list = some record
  | [], _, found => found
  | field :: list, record, found => by
      rw [blankRecord?_cons_eq_some_iff] at found ⊢
      obtain ⟨head, tail, foundHead, foundTail, same⟩ := found
      exact ⟨head, tail, blankValue?_mono grows foundHead, blankRecord?_mono foundTail, same⟩

end

/-- The blank record of an entity does not depend on how deep one may go to find it. -/
theorem blankEntity?_succ : ∀ {depth : Nat} {name : Name} {record : Record fields (fields name)},
    blankEntity? fields depth name = some record →
      blankEntity? fields (depth + 1) name = some record
  | _ + 1, _, _, found => blankRecord?_mono (fun _ _ => blankEntity?_succ) found

end

/-- **The fields of the blank record of an entity are blank.** -/
theorem Catalog.get_blankEntity (C : Catalog) (name : C.Name)
    (index : Fin (C.fields name).length) :
    (C.blankEntity name).get index = C.blank ((C.fields name).get index).shape := by
  have found : ∀ name, blankEntity? C.fields C.depth name = some (C.blankEntity name) :=
    fun name => (Option.some_get (C.grounded name)).symm
  have here := found name
  obtain ⟨depth, deep⟩ : ∃ depth, C.depth = depth + 1 := by
    cases deep : C.depth with
    | zero => rw [deep] at here; cases here
    | succ depth => exact ⟨depth, rfl⟩
  rw [deep] at here
  have blankField := get_blankRecord? here index
  revert blankField
  generalize (C.blankEntity name).get index = value
  revert value
  generalize ((C.fields name).get index).shape = shape
  intro value blankField
  cases shape with
  | entity inner =>
      obtain ⟨record, foundInner, rfl⟩ := Option.map_eq_some_iff.mp blankField
      have same := (blankEntity?_succ foundInner).symm.trans (deep ▸ found inner)
      rw [Option.some.inj same]
      rfl
  | _ => exact (Option.some.inj blankField).symm

end ChatCodec
