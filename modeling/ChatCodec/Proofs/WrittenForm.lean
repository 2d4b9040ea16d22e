import ChatCodec.Proofs.Json.Compact
import ChatCodec.Proofs.Keys
import ChatCodec.Proofs.Writers

/-!
# The written form of a value

Encoding appends to whatever a buffer holds.  What it appends is put together from the forms of
the parts: a sequence from those of its items (`Val.toBytes_list`), and an entity from its members
(`Val.toBytes_entity`), which are the fields that are not left out, in order (`Record.members`).

Although a comma is written behind every member and taken back behind the last, the form is strict
JSON without white space, and it is UTF-8 (`Chat.encode_canonical`).
-/

namespace ChatCodec

set_option autoImplicit false

section

variable {Name : Type} {fields : Name → List (Field Name)}

/-! ## Members -/

/-- The members that are written for a record: the key and the form of each field that is not
left out. -/
def Record.members : {list : List (Field Name)} → Record fields list → List (String × Bytes)
  | _, .nil => []
  | field :: _, .cons head tail =>
      if field.policy.omits head.isEmpty then tail.members
      else (field.key, head.toBytes) :: tail.members

/-- The form of an object of members, whose keys are given as texts. -/
def membersForm (members : List (String × Bytes)) : Bytes :=
  Json.objectForm (members.map fun member => (quoted member.1, member.2))

/-- The keys of the members stand in the order of the fields. -/
theorem Record.keys_members_sublist : ∀ {list : List (Field Name)} (record : Record fields list),
    (record.members.map Prod.fst).Sublist (list.map (·.key))
  | _, .nil => .refl _
  | field :: _, .cons head tail => by
      rw [members, List.map_cons]
      split
      · exact tail.keys_members_sublist.cons _
      · exact tail.keys_members_sublist.cons_cons _

/-- **A field is written exactly if it is not left out.** -/
theorem Record.mem_members_iff {member : String × Bytes} :
    ∀ {list : List (Field Name)} (record : Record fields list),
      member ∈ record.members ↔ ∃ index : Fin list.length,
        (list.get index).policy.omits (record.get index).isEmpty = false ∧
          member = ((list.get index).key, (record.get index).toBytes)
  | _, .nil => by
      refine ⟨fun isIn => (by cases isIn), ?_⟩
      rintro ⟨index, -⟩
      exact index.elim0
  | field :: list, .cons head tail => by
      have others := @mem_members_iff member _ tail
      rw [members]
      constructor
      · intro isIn
        split at isIn
        · obtain ⟨index, written⟩ := others.mp isIn
          exact ⟨index.succ, written⟩
        · next present =>
            rcases List.mem_cons.mp isIn with same | further
            · exact ⟨⟨0, Nat.zero_lt_succ _⟩, Bool.eq_false_iff.mpr present, same⟩
            · obtain ⟨index, written⟩ := others.mp further
              exact ⟨index.succ, written⟩
      · rintro ⟨index, present, same⟩
        cases index using Fin.cases with
        | zero =>
            have written : field.policy.omits head.isEmpty = false := present
            rw [if_neg (by rw [written]; decide)]
            exact List.mem_cons.mpr (.inl same)
        | succ index =>
            have further := others.mpr ⟨index, present, same⟩
            split
            · exact further
            · exact List.mem_cons_of_mem _ further

/-! ## Forms of parts -/

section

variable (consistent : ∀ (name : Name), ∀ field ∈ fields name, field.IsConsistent)

include consistent

/-- **Encoding appends** the form of a value to what is there. -/
theorem Val.bytes_encode_eq {shape : Shape Name} (value : Val fields shape) (buffer : Buffer) :
    (value.encode buffer).bytes = buffer.bytes ++ value.toBytes := by
  rw [value.bytes_encode consistent, Val.toBytes_eq consistent]
  rfl

theorem Sequence.forms_toJson : ∀ {inner : Shape Name} (items : Sequence fields inner),
    items.toJson.forms = items.toList.map Val.toBytes
  | _, .nil => rfl
  | _, .cons head tail => by
      rw [Sequence.toJson, Json.Items.forms, Sequence.toList, List.map_cons, tail.forms_toJson,
        Val.toBytes_eq consistent]
      rfl

theorem Record.forms_toJson : ∀ {list : List (Field Name)} (record : Record fields list),
    (∀ field ∈ list, field.IsConsistent) →
      record.toJson.forms = record.members.map fun member => (quoted member.1, member.2)
  | _, .nil, _ => rfl
  | field :: _, .cons head tail, all => by
      obtain ⟨described, following⟩ := List.forall_mem_cons.mp all
      rw [Record.toJson, members, Omission.applies_of_suits described.omitted]
      split
      · exact tail.forms_toJson following
      · rw [Json.Members.forms, List.map_cons, tail.forms_toJson following,
          Val.toBytes_eq consistent, described.named]
        rfl

/-- The form of a sequence. -/
theorem Val.toBytes_list {inner : Shape Name} (items : Sequence fields inner) :
    (Val.list items).toBytes = Json.arrayForm (items.toList.map Val.toBytes) := by
  rw [Val.toBytes_eq consistent, Val.write, Val.toJson, Json.Value.print_array_eq,
    items.forms_toJson consistent]

/-- **The form of an entity** is the object of its members. -/
theorem Val.toBytes_entity {name : Name} (record : Record fields (fields name)) :
    (Val.entity record).toBytes = membersForm record.members := by
  rw [Val.toBytes_eq consistent, Val.write, Val.toJson, Json.Value.print_object_eq,
    record.forms_toJson consistent (consistent name), membersForm]

end

end

/-! ## The entities of the chat service -/

/-- The keys that are written are those that are looked up, in the same order. -/
theorem Chat.keys_eq (name : EntityName) : Chat.keys name = (Chat.fields name).map (·.key) := by
  rw [hasKeys.keys_eq, Catalog.names]
  exact List.map_congr_left fun field isIn => (isConsistent name field isIn).named.symm

/-- **Encoding is append-only and canonical**, for the values of every shape over the entities of
the chat service.  The form of a value is appended to whatever the buffer holds; it is UTF-8, and
strict JSON without white space between its tokens.  An optional value has the form of what it
holds, a sequence is the array of the forms of its items, and an entity is the object of its
members: the fields that are always written and those that are not empty, each under its key, once,
and in the order of the keys. -/
theorem Chat.encode_canonical :
    (∀ (shape : Chat.Shape) (value : Chat.Value shape),
      (∀ buffer : Buffer, (value.encode buffer).bytes = buffer.bytes ++ value.toBytes) ∧
        (∃ text, Utf8.decode value.toBytes = some text) ∧ Json.IsCompact value.toBytes) ∧
    (∀ (inner : Chat.Shape) (value : Chat.Value inner),
      (Val.some value : Chat.Value (.option inner)).toBytes = value.toBytes) ∧
    (∀ (inner : Chat.Shape) (items : Chat.Sequence inner),
      (Val.list items : Chat.Value (.list inner)).toBytes =
        Json.arrayForm (items.toList.map Val.toBytes)) ∧
    ∀ (name : EntityName) (record : Chat.Entity name),
      (Val.entity record : Chat.Value (.entity name)).toBytes = membersForm record.members ∧
        (record.members.map Prod.fst).Sublist (Chat.keys name) ∧
        (record.members.map Prod.fst).Nodup ∧
        ∀ (index : Fin (Chat.fields name).length) (form : Bytes),
          (((Chat.fields name).get index).key, form) ∈ record.members ↔
            (((Chat.fields name).get index).policy = .always ∨
              (record.get index).isEmpty = false) ∧ form = (record.get index).toBytes := by
  refine ⟨fun shape value => ⟨?_, ?_, ?_⟩, fun inner value => rfl, fun inner items => ?_,
    fun name record => ?_⟩
  · exact value.bytes_encode_eq isConsistent
  · rw [Val.toBytes_eq isConsistent]
    exact value.toJson.isText_print.exists_decode
  · rw [Val.toBytes_eq isConsistent]
    exact value.toJson.isCompact_print
  · exact Val.toBytes_list isConsistent items
  · have ordered := record.keys_members_sublist
    have distinct : ((Chat.fields name).map (·.key)).Nodup := by
      rw [← keys_eq, hasKeys.keys_eq]
      exact hasKeys.distinct name
    refine ⟨Val.toBytes_entity isConsistent record, keys_eq name ▸ ordered,
      distinct.sublist ordered, fun index form => ?_⟩
    have written : ∀ other : Fin (Chat.fields name).length,
        ((Chat.fields name).get other).policy.omits (record.get other).isEmpty = false ↔
          ((Chat.fields name).get other).policy = .always ∨
            (record.get other).isEmpty = false := by
      intro other
      cases ((Chat.fields name).get other).policy with
      | always => exact ⟨fun _ => .inl rfl, fun _ => rfl⟩
      | omitEmpty => exact ⟨.inr, fun present => present.resolve_left fun same => by cases same⟩
    rw [record.mem_members_iff]
    constructor
    · rintro ⟨other, present, same⟩
      obtain ⟨sameKey, rfl⟩ := Prod.mk.inj same
      have sameField := List.inj_on_of_nodup_map distinct (List.get_mem _ index)
        (List.get_mem _ other) sameKey
      have here : index = other := (List.Nodup.get_inj_iff distinct.of_map).mp sameField
      subst here
      exact ⟨(written index).mp present, rfl⟩
    · rintro ⟨present, rfl⟩
      exact ⟨index, (written index).mpr present, rfl⟩

end ChatCodec
