import ChatCodec.Declarative.Read
import ChatCodec.Proofs.Json.Grammar

/-!
# Steps of declarative reading

What the declarative reader requires of the piece in front of it, said once for every stage
of its walk through an object or an array.

The progress through an object gets late trouble from members that were set aside, and
keeps it to the end.  So an object that is read has none at any time
(`Declarative.late_of_readMembers`), and each of its members was read without trouble
(`Declarative.Progress.exists_of_record`).
-/

namespace ChatCodec

set_option autoImplicit false

open Json (Piece Stage)

namespace Declarative

section

variable {C : Catalog} {tree : Tree Piece} {rest : Body Piece} {allowed : Nat} {name : C.Name}
  {stage : Stage} {key : String} {progress : Progress (C.Entity name)} {record : C.Entity name}

/-! ## Members -/

theorem readMembers_close {ending : Piece} :
    readMembers C (.close ending) allowed name stage key progress = .ok record ↔
      (ending = .mark .objectEnd ∧ (stage = .opened ∨ stage = .filled)) ∧
        progress.finish = .ok record := by
  rw [readMembers, ite_error_eq_ok_iff, Piece.isMark_iff]

/-- A key is a text, and no field of the entity's own is named twice. -/
theorem readMembers_key (begins : stage = .opened ∨ stage = .separated) :
    readMembers C (.more tree rest) allowed name stage key progress = .ok record ↔
      ∃ bytes, tree.head = .scalar (Ascii.quote :: bytes) ∧ ∃ key, Json.readText bytes = .ok key ∧
        (∀ index, (C.names name).findIdx? (· == key) = some index →
          ¬ (inherited (C.layout name) ≤ index ∧ index ∈ progress.named)) ∧
        readMembers C rest allowed name .named key progress = .ok record := by
  rw [readMembers_awaited begins]
  simp only [← Piece.key?_eq_some_iff]
  cases tree.head.key? with
  | none => simp only [reduceCtorEq, false_and, exists_false]
  | some bytes =>
      simp only [bind_eq_ok_iff, Option.some.injEq, exists_eq_left']
      refine exists_congr fun key => and_congr_right fun _ => ?_
      cases (C.names name).findIdx? (· == key) with
      | none => simp only [reduceCtorEq, false_implies, implies_true, true_and]
      | some index =>
          simp only [Option.some.injEq, forall_eq']
          exact error_ite_eq_ok_iff

theorem readMembers_colon :
    readMembers C (.more tree rest) allowed name .named key progress = .ok record ↔
      tree.head = .mark .colon ∧
        readMembers C rest allowed name .announced key progress = .ok record := by
  rw [readMembers, ite_error_eq_ok_iff, Piece.isMark_iff]

theorem readMembers_known {index : Nat}
    (known : (C.names name).findIdx? (· == key) = some index) :
    readMembers C (.more tree rest) allowed name .announced key progress = .ok record ↔
      ∃ following,
        progress.record (index < inherited (C.layout name)) index key allowed tree
          (readAt (fun shape => readTree C tree allowed shape) index progress.fields) =
            .ok following ∧
        readMembers C rest allowed name .filled key following = .ok record := by
  rw [readMembers, known]
  exact bind_eq_ok_iff

/-- A member that no field has is passed over, or read and left alone. -/
theorem readMembers_unknown (unknown : (C.names name).findIdx? (· == key) = none) :
    readMembers C (.more tree rest) allowed name .announced key progress = .ok record ↔
      (Json.passValue tree = .ok () ∧ C.layout name = .plain ∨
        (∃ value, Json.readValue allowed tree = .ok value) ∧ C.layout name ≠ .plain) ∧
        readMembers C rest allowed name .filled key progress = .ok record := by
  rw [readMembers, unknown]
  cases C.layout name with
  | plain =>
      simp only [andThen_eq_ok_iff, and_true, ne_eq, not_true_eq_false, and_false, or_false]
  | extending count =>
      simp only [bind_eq_ok_iff, reduceCtorEq, and_false, ne_eq, not_false_eq_true, and_true,
        false_or, exists_and_right]

theorem readMembers_comma :
    readMembers C (.more tree rest) allowed name .filled key progress = .ok record ↔
      tree.head = .mark .comma ∧
        readMembers C rest allowed name .separated key progress = .ok record := by
  rw [readMembers, ite_error_eq_ok_iff, Piece.isMark_iff]

/-! ## Items -/

variable {inner : C.Shape} {items : C.Sequence inner}

theorem readItems_close {ending : Piece} :
    readItems C (.close ending) allowed inner stage = .ok items ↔
      (ending = .mark .arrayEnd ∧ (stage = .opened ∨ stage = .filled)) ∧ .nil = items := by
  rw [readItems, ite_error_eq_ok_iff, Piece.isMark_iff, Except.ok.injEq]

theorem readItems_item (begins : stage ≠ .filled) :
    readItems C (.more tree rest) allowed inner stage = .ok items ↔
      ∃ head, readTree C tree allowed inner = .ok head ∧
        ∃ tail, readItems C rest allowed inner .filled = .ok tail ∧ .cons head tail = items := by
  simp only [readItems_awaited begins, bind_eq_ok_iff, pure, Except.pure, Except.ok.injEq]

theorem readItems_comma :
    readItems C (.more tree rest) allowed inner .filled = .ok items ↔
      tree.head = .mark .comma ∧ readItems C rest allowed inner .separated = .ok items := by
  rw [readItems, ite_error_eq_ok_iff, Piece.isMark_iff]

end

/-! ## Values with a body -/

section

variable {C : Catalog} {opening : Piece} {body : Body Piece} {allowed : Nat}
  {members positional : (name : C.Name) → Except Json.Fault (C.Entity name)}
  {items : (inner : C.Shape) → Except Json.Fault (C.Sequence inner)}

theorem readGroup_list {inner : C.Shape} {value : C.Value (.list inner)} :
    readGroup C opening body allowed members positional items (.list inner) = .ok value ↔
      opening = .mark .arrayStart ∧ allowed ≠ 0 ∧
        ∃ sequence, items inner = .ok sequence ∧ .list sequence = value := by
  rw [readGroup]
  by_cases array : opening.isMark .arrayStart = true
  · rw [if_pos array, error_ite_eq_ok_iff, map_eq_ok_iff, Piece.isMark_iff.mp array]
    simp only [true_and, ne_eq]
  · rw [if_neg array, invalidType]
    rw [Piece.isMark_iff] at array
    simp only [reduceCtorEq, array, false_and]

/-- An entity that is no array is an object. -/
theorem readGroup_entity (noArray : opening ≠ .mark .arrayStart) {name : C.Name}
    {value : C.Value (.entity name)} :
    readGroup C opening body allowed members positional items (.entity name) = .ok value ↔
      allowed ≠ 0 ∧ ∃ record, members name = .ok record ∧ .entity record = value := by
  have differs : ¬ opening.isMark .arrayStart = true := mt Piece.isMark_iff.mp noArray
  rw [readGroup, if_neg (fun both => differs both.1), error_ite_eq_ok_iff, if_neg differs,
    map_eq_ok_iff]

/-- Of the scalars only opaque JSON is read from a value with a body. -/
theorem eq_opaqueJson_of_scalarOfGroup {kind : Scalar} {value : kind.Carrier}
    (read : scalarOfGroup kind opening body allowed = .ok value) : kind = .opaqueJson := by
  cases kind with
  | opaqueJson => rfl
  | id resource =>
      rw [scalarOfGroup, error_ite_eq_ok_iff] at read
      cases read.2
  | timestamp =>
      rw [scalarOfGroup, error_ite_eq_ok_iff] at read
      cases read.2
  | _ => cases read

/-- A value of one piece is a scalar. -/
theorem exists_source_of_readLeaf {piece : Piece} {shape : C.Shape} {value : C.Value shape}
    (read : readLeaf C piece shape = .ok value) : ∃ source, piece = .scalar source := by
  cases piece with
  | scalar source => exact ⟨source, rfl⟩
  | _ => cases shape <;> cases read

end

/-! ## Progress -/

namespace Progress

variable {Fields : Type} {progress following : Progress Fields}

/-- An object that ends without late trouble has the fields that were read. -/
theorem finish_eq_ok_iff {fields : Fields} :
    progress.finish = .ok fields ↔ progress.late = none ∧ progress.fields = fields := by
  rw [finish]
  cases progress.late with
  | none => simp only [Except.ok.injEq, true_and]
  | some fault => simp only [reduceCtorEq, false_and]

/-- **A member that leaves no trouble was read**, and if it was set aside, it is in order and
the first for its field. -/
theorem exists_of_record {isLate : Bool} {index : Nat} {key : String} {allowed : Nat}
    {tree : Tree Piece} {result : Except Json.Fault Fields}
    (recorded : progress.record isLate index key allowed tree result = .ok following)
    (clean : following.late = none) :
    progress.late = none ∧ (isLate = true → index ∉ progress.named) ∧
      ∃ fields, result = .ok fields ∧ following = ⟨fields, index :: progress.named, none⟩ := by
  rw [record.eq_def] at recorded
  cases isLate with
  | false =>
      rw [if_neg (by decide)] at recorded
      obtain ⟨fields, read, rfl⟩ := map_eq_ok_iff.mp recorded
      have before : progress.late = none := clean
      refine ⟨before, fun late => ?_, fields, read, ?_⟩
      · cases late
      · rw [before]
  | true =>
      rw [if_pos rfl] at recorded
      cases value : Json.readValue allowed tree with
      | error fault => rw [value] at recorded; cases recorded
      | ok value =>
          rw [value] at recorded
          cases recorded
          simp only [Option.or_eq_none_iff] at clean
          obtain ⟨before, trouble⟩ := clean
          by_cases twice : index ∈ progress.named
          · rw [if_pos twice] at trouble
            cases trouble
          · rw [if_neg twice] at trouble
            cases read : result with
            | error fault => rw [read] at trouble; cases trouble
            | ok fields =>
                refine ⟨before, fun _ => twice, fields, rfl, ?_⟩
                rw [before, if_neg twice]
                rfl

/-- A member that is read, the first for its field, leaves no trouble.  If it is set aside it
must be in order as JSON too. -/
theorem record_eq {isLate : Bool} {index : Nat} {key : String} {allowed : Nat} {tree : Tree Piece}
    {fields : Fields} {value : Json.Value} (clean : progress.late = none)
    (first : index ∉ progress.named) (inOrder : Json.readValue allowed tree = .ok value) :
    progress.record isLate index key allowed tree (.ok fields) =
      .ok ⟨fields, index :: progress.named, none⟩ := by
  cases isLate with
  | false =>
      rw [record, if_neg (by decide), ← clean]
      rfl
  | true =>
      rw [record, if_pos rfl, inOrder]
      simp only [if_neg first, clean]
      rfl

end Progress

/-- **An object that is read has no late trouble at any time.** -/
theorem late_of_readMembers {C : Catalog} {allowed : Nat} {name : C.Name} {record : C.Entity name} :
    ∀ {body : Body Piece} {stage : Stage} {key : String} {progress : Progress (C.Entity name)},
      readMembers C body allowed name stage key progress = .ok record → progress.late = none
  | .close ending, _, _, _, read =>
      (Progress.finish_eq_ok_iff.mp (readMembers_close.mp read).2).1
  | .more tree rest, stage, key, progress, read => by
      have atKey (begins : stage = .opened ∨ stage = .separated) : progress.late = none := by
        obtain ⟨_, -, _, -, -, behind⟩ := (readMembers_key begins).mp read
        exact late_of_readMembers behind
      cases stage with
      | opened => exact atKey (.inl rfl)
      | separated => exact atKey (.inr rfl)
      | named => exact late_of_readMembers (readMembers_colon.mp read).2
      | filled => exact late_of_readMembers (readMembers_comma.mp read).2
      | announced =>
          cases found : (C.names name).findIdx? (· == key) with
          | none => exact late_of_readMembers ((readMembers_unknown found).mp read).2
          | some index =>
              obtain ⟨following, recorded, behind⟩ := (readMembers_known found).mp read
              exact (Progress.exists_of_record recorded (late_of_readMembers behind)).1

end Declarative

end ChatCodec
