import ChatCodec.Proofs.Codes
import ChatCodec.Proofs.Declarative.Scalars
import ChatCodec.Proofs.Json.ReadBack
import ChatCodec.Proofs.Writers

/-!
# Values whose JSON form says what they are

Not every value is told by its JSON form.  A value is faithful (`Val.isFaithful`) if no scalar
in it is one of these exceptions: a leap second, which prints as another second; an
enumeration that holds the code of a name without the name; and opaque JSON with a double in
it, nested too deeply for the strict reader, or with keys out of order.  The last is no
restriction of what can be carried, since maps keep their keys in order.

Two further conditions are on shapes and fields, and not on values.  A value of an optional
shape must differ from an absent one, so its shape may not be one that is written as `null`
(`Shape.isDistinct`).  And a field that is left out is read as blank, so it may be left out
only where it is blank (`Omission.eq_blank_of_applies`).
-/

namespace ChatCodec

set_option autoImplicit false

/-! ## Scalars -/

/-- Whether the JSON value of a scalar tells which scalar it is. -/
def Scalar.isFaithful : (kind : Scalar) → kind.Carrier → Bool
  | opaqueJson, value =>
      value.isExact && decide (value.depth ≤ Json.nestingLimit) && value.isSorted
  | timestamp, value => decide (value.micros < 1000000)
  | code kind, value => decide (kind.IsProper value)
  | _, _ => true

/-- An identifier is taken from its own text. -/
theorem Id.ofVisit_ownText {resource : Resource} (id : Id resource) :
    ofVisit (.text id.text) = .ok id := by
  have digits : Decimal.readNatural? (bytesOf id.text) = some id.value.toNat := by
    rw [Id.text, bytesOf_ofList_map id.isPlain_of_mem_digits]
    exact Decimal.readNatural?_ofNat id.value.toNat_lt
  rw [ofVisit_text, digits]
  simp only [UInt64.ofNat_toNat]

open Declarative (scalarOf)

/-- A word is not negative and keeps its value. -/
theorem Declarative.scalarOf_word {word : UInt64} (fits : Json.IsWord word.toNat) :
    scalarOf .flags (.number (.integer word.toNat fits)) = .ok ⟨word⟩ := by
  rw [scalarOf, if_pos (Int.natCast_nonneg _), Int.toNat_natCast, UInt64.ofNat_toNat]

/-- A proper value of an enumeration is taken from its code. -/
theorem Declarative.scalarOf_code {kind : CodeKind} {value : kind.Carrier}
    (proper : kind.IsProper value) {word : Int} (fits : Json.IsWord word)
    (same : word = (kind.code value).toNat) :
    scalarOf (.code kind) (.number (.integer word fits)) = .ok value := by
  have small := (kind.code value).toNat_lt
  subst same
  rw [scalarOf, if_pos (by omega), Int.toNat_natCast, UInt8.ofNat_toNat,
    CodeKind.ofCode?_code_iff.mpr proper]

/-- The text of a timestamp is taken for what it is read as. -/
theorem Timestamp.scalarOf_print (timestamp : Timestamp) :
    scalarOf .timestamp (.text (asciiText timestamp.print)) =
      .ok timestamp.reread := by
  rw [Declarative.scalarOf_timestamp, Declarative.visitOf, Declarative.timestampOf, asciiText,
    bytesOf_ofList_map timestamp.isPlain_of_mem_print, parse_print]
  rfl

/-- **The JSON value of a faithful scalar is taken for this scalar.** -/
theorem Scalar.exists_atom : ∀ {kind : Scalar}, kind ≠ .opaqueJson → ∀ {value : kind.Carrier},
    kind.isFaithful value = true →
      ∃ atom : Json.Atom, kind.toJson value = atom.value ∧ scalarOf kind atom = .ok value
  | .bool, _, value, _ => ⟨.bool value, rfl, rfl⟩
  | .integer width, _, value, _ => by
      refine ⟨.number (.integer value.value value.isWord), rfl, ?_⟩
      rw [scalarOf, Sized.ofInt?, dif_pos value.isIn]
  | .text, _, value, _ => ⟨.text value, rfl, rfl⟩
  | .opaqueJson, notOpaque, _, _ => absurd rfl notOpaque
  | .id resource, _, value, _ => by
      rw [toJson]
      by_cases isSet : value.isSet = true
      · rw [if_pos isSet]
        refine ⟨.text value.text, rfl, ?_⟩
        rw [Declarative.scalarOf_id, Declarative.visitOf, value.ofVisit_ownText]
        rfl
      · rw [if_neg isSet]
        refine ⟨.null, rfl, ?_⟩
        have unset : value = Id.unset := by
          rw [Id.isSet, bne_iff_ne, ne_eq, Decidable.not_not] at isSet
          cases value
          rw [Id.unset, Id.mk.injEq]
          exact isSet
        rw [unset]
        rfl
  | .timestamp, _, value, faithful => by
      rw [isFaithful, decide_eq_true_eq] at faithful
      refine ⟨.text (asciiText value.print), rfl, ?_⟩
      rw [value.scalarOf_print, Timestamp.reread_of_whole faithful]
  | .flags, _, value, _ => ⟨.number (.ofWord value.bits), rfl, Declarative.scalarOf_word _⟩
  | .code kind, _, value, faithful => by
      rw [isFaithful, decide_eq_true_eq] at faithful
      refine ⟨.number (.ofWord (kind.code value).toUInt64), rfl, ?_⟩
      exact Declarative.scalarOf_code faithful _ (by rw [UInt8.toNat_toUInt64])

/-- The JSON value of a faithful scalar holds no double. -/
theorem Scalar.isExact_toJson {kind : Scalar} {value : kind.Carrier}
    (faithful : kind.isFaithful value = true) : (kind.toJson value).isExact = true := by
  cases kind with
  | opaqueJson =>
      rw [isFaithful, Bool.and_eq_true, Bool.and_eq_true] at faithful
      exact faithful.1.1
  | id resource =>
      rw [toJson]
      split <;> rfl
  | _ => rfl

/-! ## Values -/

section

variable {Name : Type} {fields : Name → List (Field Name)}

mutual

/-- Whether every scalar of a value is faithful. -/
def Val.isFaithful : {shape : Shape Name} → Val fields shape → Bool
  | _, @Val.scalar _ _ kind value => kind.isFaithful value
  | _, .none => true
  | _, .some value => value.isFaithful
  | _, .list items => items.isFaithful
  | _, .entity record => record.isFaithful

/-- Whether every scalar of the items is faithful. -/
def Sequence.isFaithful : {inner : Shape Name} → Sequence fields inner → Bool
  | _, .nil => true
  | _, .cons head tail => head.isFaithful && tail.isFaithful

/-- Whether every scalar of the fields is faithful. -/
def Record.isFaithful : {list : List (Field Name)} → Record fields list → Bool
  | _, .nil => true
  | _, .cons head tail => head.isFaithful && tail.isFaithful

end

mutual

/-- **The JSON value of a faithful value holds no double.** -/
theorem Val.isExact_toJson : ∀ {shape : Shape Name} {value : Val fields shape},
    value.isFaithful = true → value.toJson.isExact = true
  | _, @Val.scalar _ _ kind value, faithful => by
      rw [Val.isFaithful] at faithful
      rw [Val.toJson]
      exact Scalar.isExact_toJson faithful
  | _, .none, _ => rfl
  | _, .some value, faithful => by
      rw [Val.isFaithful] at faithful
      rw [Val.toJson]
      exact value.isExact_toJson faithful
  | _, .list items, faithful => by
      rw [Val.isFaithful] at faithful
      rw [Val.toJson, Json.Value.isExact]
      exact items.isExact_toJson faithful
  | _, .entity record, faithful => by
      rw [Val.isFaithful] at faithful
      rw [Val.toJson, Json.Value.isExact]
      exact record.isExact_toJson faithful

theorem Sequence.isExact_toJson : ∀ {inner : Shape Name} {items : Sequence fields inner},
    items.isFaithful = true → items.toJson.isExact = true
  | _, .nil, _ => rfl
  | _, .cons head tail, faithful => by
      rw [Sequence.isFaithful, Bool.and_eq_true] at faithful
      rw [Sequence.toJson, Json.Items.isExact, head.isExact_toJson faithful.1,
        tail.isExact_toJson faithful.2]
      rfl

theorem Record.isExact_toJson : ∀ {list : List (Field Name)} {record : Record fields list},
    record.isFaithful = true → record.toJson.isExact = true
  | _, .nil, _ => rfl
  | field :: _, .cons head tail, faithful => by
      rw [Record.isFaithful, Bool.and_eq_true] at faithful
      rw [Record.toJson]
      split
      · exact tail.isExact_toJson faithful.2
      · rw [Json.Members.isExact, head.isExact_toJson faithful.1, tail.isExact_toJson faithful.2]
        rfl

end

/-! ## Absent values -/

/-- Whether a shape has a value that is written as `null`. -/
def Shape.hasNull : Shape Name → Bool
  | .scalar (.id _) | .scalar .opaqueJson | .option _ => true
  | _ => false

/-- Whether optional values of a shape are never written like absent ones. -/
def Shape.isDistinct : Shape Name → Bool
  | .scalar _ | .entity _ => true
  | .option inner => !inner.hasNull && inner.isDistinct
  | .list inner => inner.isDistinct

theorem Val.toJson_ne_null {shape : Shape Name} (noNull : shape.hasNull = false)
    (value : Val fields shape) : value.toJson ≠ .null := by
  cases value with
  | @scalar kind value =>
      rw [Val.toJson]
      cases kind with
      | opaqueJson => cases noNull
      | id resource => cases noNull
      | _ =>
          intro same
          cases same
  | none => cases noNull
  | some value => cases noNull
  | list items =>
      intro same
      cases same
  | entity record =>
      intro same
      cases same

end

/-- **Only blank values are left out.** -/
theorem Omission.eq_blank_of_applies {C : Catalog} {omission : Omission} {shape : C.Shape}
    {value : C.Value shape} (leftOut : omission.applies value = true) : value = C.blank shape := by
  unfold applies at leftOut
  split at leftOut
  · rfl
  · next truth =>
      rw [Bool.not_eq_true'] at leftOut
      rw [leftOut]
      rfl
  · next sized =>
      rw [beq_iff_eq] at leftOut
      cases sized
      cases leftOut
      rfl
  · next text =>
      rw [beq_iff_eq] at leftOut
      rw [leftOut]
      rfl
  · rfl
  · next id =>
      rw [beq_iff_eq] at leftOut
      cases id
      cases leftOut
      rfl
  · next json =>
      cases json <;> first | rfl | cases leftOut
  · cases leftOut

end ChatCodec
