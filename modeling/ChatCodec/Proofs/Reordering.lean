import ChatCodec.Proofs.Members
import ChatCodec.Proofs.Successes

/-!
# The order of members

The members of an object that find different fields do not meet: each field has its value from
the members that find it, in their order, and from nothing else (`writeAll_eq_ok_iff`).  So the
members of an object may be put into another order, as long as those of one field follow one
another as before (`decodeDocument_reorder`).  Members that no field has may stand anywhere.
-/

namespace ChatCodec

set_option autoImplicit false

section

variable {C : Catalog} {matching : KeyMatching} {name : C.Name}

variable (C matching name) in
/-- The members whose keys find the field of a given number, in order. -/
def membersOf (index : Nat) (members : List MemberText) : List MemberText :=
  members.filter fun member => member.field? C name matching = some index

variable (C matching) in
/-- Decodes the values of members into one value, one after another. -/
def decodeAll {shape : C.Shape} (before : C.Value shape) (members : List MemberText) :
    Except Report (C.Value shape) :=
  members.foldlM (fun value member => decodeText C matching value member.value) before

/-- A member does nothing if its key finds no field. -/
theorem MemberText.write_of_not_found {member : MemberText}
    (nowhere : ∀ index : Fin (C.fields name).length,
      member.field? C name matching ≠ some index.val) (record : C.Entity name) :
    member.write C matching record = .ok record := by
  cases found : member.field? C name matching with
  | none => exact member.write_of_unknown found
  | some number =>
      have beyond : (C.fields name).length ≤ number := by
        by_contra within
        exact nowhere ⟨number, Nat.lt_of_not_le within⟩ found
      have skipped : (skipText member.value).error = none := member.isValue.1
      rw [write, found, decodeMemberText, decodeMember, decodeField,
        record.decodeAt_beyond _ _ number beyond, Outcome.reported_map, Outcome.reported_eq]
      rw [skipText, Lexer.skipValue] at skipped
      simp only [skipped]
      rfl

/-- **Each field has its value from the members that find it**, and from nothing else. -/
theorem writeAll_eq_ok_iff (members : List MemberText) : ∀ {record result : C.Entity name},
    writeAll C matching record members = .ok result ↔
      ∀ index : Fin (C.fields name).length,
        decodeAll C matching (record.get index) (membersOf C matching name index members) =
          .ok (result.get index) := by
  induction members with
  | nil =>
      intro record result
      constructor
      · intro written index
        cases written
        rfl
      · intro same
        exact congrArg Except.ok (Record.ext_get fun index => Except.ok.inj (same index))
  | cons member members ih =>
      intro record result
      rw [writeAll_cons]
      by_cases nowhere : ∀ index : Fin (C.fields name).length,
          member.field? C name matching ≠ some index.val
      · -- The member belongs to no field.
        have others : ∀ index : Fin (C.fields name).length,
            membersOf C matching name index (member :: members) =
              membersOf C matching name index members := fun index =>
          List.filter_cons_of_neg (by simpa using nowhere index)
        simp only [member.write_of_not_found nowhere record, others]
        exact ih
      · simp only [ne_eq, not_forall, not_not] at nowhere
        obtain ⟨index, found⟩ := nowhere
        have here : membersOf C matching name index (member :: members) =
            member :: membersOf C matching name index members :=
          List.filter_cons_of_pos (by simpa using found)
        have others : ∀ other : Fin (C.fields name).length, other ≠ index →
            membersOf C matching name other (member :: members) =
              membersOf C matching name other members := by
          intro other differs
          refine List.filter_cons_of_neg ?_
          rw [found]
          simpa [Fin.val_inj] using differs.symm
        rw [MemberText.write_of_found found]
        cases decoded : decodeText C matching (record.get index) member.value with
        | error report =>
            constructor
            · intro written
              cases written
            · intro same
              have fails := same index
              rw [here, decodeAll, List.foldlM_cons, decoded] at fails
              cases fails
        | ok value =>
            show writeAll C matching (record.set index value) members = .ok result ↔ _
            rw [ih]
            refine forall_congr' fun other => ?_
            by_cases same : other = index
            · subst same
              rw [here, record.get_set_same, decodeAll, decodeAll, List.foldlM_cons, decoded]
              rfl
            · rw [others other same, record.get_set_ne index other value same]

variable (C matching name) in
/-- The same members in another order, in which those of one field follow one another as
before.  White space and a trailing comma are no part of the members. -/
structure Reorders (object object' : ObjectText) : Prop where
  perm : object.texts.Perm object'.texts
  order : ∀ index : Fin (C.fields name).length,
    membersOf C matching name index object.texts = membersOf C matching name index object'.texts

/-- **The order of members does not matter**, as long as the members of one field follow one
another as before: an object is accepted if and only if the reordered one is, and the entities are
equal.  Every payload that the grammar knows as an object is the text of one
(`exists_objectText`). -/
theorem decodeDocument_reorder {object object' : ObjectText}
    (reorders : Reorders C matching name object object') (entity : C.Entity name) :
    (decodeDocument C matching name object.bytes).result = .ok entity ↔
      (decodeDocument C matching name object'.bytes).result = .ok entity := by
  have accepted : ∀ object : ObjectText,
      (decodeDocument C matching name object.bytes).result = .ok entity ↔
        writeAll C matching (C.blankEntity name) object.texts = .ok entity := by
    intro object
    rw [← object.decodeOnto_reported, ← decodeDocument_reported, Outcome.reported,
      mapError_eq_ok_iff]
  rw [accepted, accepted, writeAll_eq_ok_iff, writeAll_eq_ok_iff]
  refine forall_congr' fun index => ?_
  rw [reorders.order]

end

/-- The identifier and the name of an emoji may change places. -/
theorem reorders_emoji : Reorders Chat .lenient .emoji (.ofMembers [idMember, nullMember])
    (.ofMembers [nullMember, idMember]) where
  perm := by
    rw [ObjectText.texts_ofMembers, ObjectText.texts_ofMembers]
    exact .swap _ _ _
  order := by
    have idField : idMember.field? Chat .emoji .lenient = some 0 := by decide +kernel
    have nameField : nullMember.field? Chat .emoji .lenient = some 1 := by decide +kernel
    intro index
    rw [ObjectText.texts_ofMembers, ObjectText.texts_ofMembers, membersOf, membersOf]
    simp only [List.filter_cons, List.filter_nil, idField, nameField]
    by_cases first : index.val = 0
    · rw [first]
      rfl
    · have notFirst : ¬ decide (some 0 = some index.val) = true := by simpa using Ne.symm first
      simp only [if_neg notFirst]

/-- An emoji is decoded alike with its name first. -/
theorem decodeDocument_reorder_emoji :
    (decodeDocument Chat .lenient .emoji (bytesOf
        "\x7b\"name\":null,\"id\":\"41\"\x7d")).result =
      .ok (decodeDocument Chat .lenient .emoji (bytesOf
        "\x7b\"id\":\"41\",\"name\":null\x7d")).value := by
  have before : (ObjectText.ofMembers [idMember, nullMember]).bytes =
      bytesOf "\x7b\"id\":\"41\",\"name\":null\x7d" := by decide +kernel
  have behind : (ObjectText.ofMembers [nullMember, idMember]).bytes =
      bytesOf "\x7b\"name\":null,\"id\":\"41\"\x7d" := by decide +kernel
  have succeeded : (decodeDocument Chat .lenient .emoji (bytesOf
      "\x7b\"id\":\"41\",\"name\":null\x7d")).error = none := by decide +kernel
  have same := decodeDocument_reorder reorders_emoji (decodeDocument Chat .lenient .emoji (bytesOf
    "\x7b\"id\":\"41\",\"name\":null\x7d")).value
  rw [before, behind] at same
  exact same.mp (by rw [Outcome.result, succeeded])

end ChatCodec
