import ChatCodec.Schema.Shape

/-!
# Values of a shape

The values of a shape are a family over shapes, together with the sequences of
values of one shape and the records of a list of fields.  A record holds one value
for each field, in order; there is no way to leave one out or to add one.

`Record.get` and `Record.set` reach one field by its number.
-/

namespace ChatCodec

set_option autoImplicit false

mutual

/-- A value of a shape, where `fields` lists the fields of each entity. -/
inductive Val {Name : Type} (fields : Name → List (Field Name)) : Shape Name → Type where
  | scalar {kind : Scalar} (value : kind.Carrier) : Val fields (.scalar kind)
  | none {inner : Shape Name} : Val fields (.option inner)
  | some {inner : Shape Name} (value : Val fields inner) : Val fields (.option inner)
  | list {inner : Shape Name} (items : Sequence fields inner) : Val fields (.list inner)
  | entity {name : Name} (record : Record fields (fields name)) : Val fields (.entity name)

/-- A sequence of values of one shape. -/
inductive Sequence {Name : Type} (fields : Name → List (Field Name)) : Shape Name → Type where
  | nil {inner : Shape Name} : Sequence fields inner
  | cons {inner : Shape Name} (head : Val fields inner) (tail : Sequence fields inner) :
      Sequence fields inner

/-- One value for each field of a list. -/
inductive Record {Name : Type} (fields : Name → List (Field Name)) :
    List (Field Name) → Type where
  | nil : Record fields []
  | cons {field : Field Name} {rest : List (Field Name)} (head : Val fields field.shape)
      (tail : Record fields rest) : Record fields (field :: rest)

end

variable {Name : Type} {fields : Name → List (Field Name)}

/-! ## Equality -/

mutual

/-- Whether two values are the same. -/
def Val.decEq : {shape : Shape Name} → (first second : Val fields shape) →
    Decidable (first = second)
  | _, @Val.scalar _ _ kind a, .scalar b =>
      match Scalar.instDecidableEqCarrier kind a b with
      | isTrue same => isTrue (by rw [same])
      | isFalse differs => isFalse (fun same => by cases same; exact differs rfl)
  | _, .none, .none => isTrue rfl
  | _, .none, .some _ => isFalse (fun same => by cases same)
  | _, .some _, .none => isFalse (fun same => by cases same)
  | _, .some a, .some b =>
      match Val.decEq a b with
      | isTrue same => isTrue (by rw [same])
      | isFalse differs => isFalse (fun same => by cases same; exact differs rfl)
  | _, .list a, .list b =>
      match Sequence.decEq a b with
      | isTrue same => isTrue (by rw [same])
      | isFalse differs => isFalse (fun same => by cases same; exact differs rfl)
  | _, .entity a, .entity b =>
      match Record.decEq a b with
      | isTrue same => isTrue (by rw [same])
      | isFalse differs => isFalse (fun same => by cases same; exact differs rfl)

/-- Whether two sequences are the same. -/
def Sequence.decEq : {shape : Shape Name} → (first second : Sequence fields shape) →
    Decidable (first = second)
  | _, .nil, .nil => isTrue rfl
  | _, .nil, .cons _ _ => isFalse (fun same => by cases same)
  | _, .cons _ _, .nil => isFalse (fun same => by cases same)
  | _, .cons a as, .cons b bs =>
      match Val.decEq a b, Sequence.decEq as bs with
      | isTrue same, isTrue alike => isTrue (by rw [same, alike])
      | isFalse differs, _ => isFalse (fun same => by cases same; exact differs rfl)
      | _, isFalse differs => isFalse (fun same => by cases same; exact differs rfl)

/-- Whether two records are the same. -/
def Record.decEq : {list : List (Field Name)} → (first second : Record fields list) →
    Decidable (first = second)
  | _, .nil, .nil => isTrue rfl
  | _, .cons a as, .cons b bs =>
      match Val.decEq a b, Record.decEq as bs with
      | isTrue same, isTrue alike => isTrue (by rw [same, alike])
      | isFalse differs, _ => isFalse (fun same => by cases same; exact differs rfl)
      | _, isFalse differs => isFalse (fun same => by cases same; exact differs rfl)

end

instance {shape : Shape Name} : DecidableEq (Val fields shape) := Val.decEq

/-! ## Looking into values -/

namespace Val

/-- The value of a scalar. -/
def get {kind : Scalar} : Val fields (.scalar kind) → kind.Carrier
  | .scalar value => value

/-- The value inside an optional value. -/
def get? {inner : Shape Name} : Val fields (.option inner) → Option (Val fields inner)
  | .none => Option.none
  | .some value => Option.some value

/-- The items of a sequence. -/
def items {inner : Shape Name} : Val fields (.list inner) → Sequence fields inner
  | .list items => items

/-- The record of an entity. -/
def record {name : Name} : Val fields (.entity name) → Record fields (fields name)
  | .entity record => record

end Val

namespace Sequence

/-- The items of a sequence as a list. -/
def toList {inner : Shape Name} : Sequence fields inner → List (Val fields inner)
  | .nil => []
  | .cons head tail => head :: tail.toList

/-- Whether a sequence has no items. -/
def isEmpty {inner : Shape Name} : Sequence fields inner → Bool
  | .nil => true
  | .cons _ _ => false

end Sequence

namespace Record

/-- The value of a field, by the field's number. -/
def get : {list : List (Field Name)} → Record fields list → (index : Fin list.length) →
    Val fields (list.get index).shape
  | _ :: _, .cons head _, ⟨0, _⟩ => head
  | _ :: _, .cons _ tail, ⟨index + 1, bound⟩ => tail.get ⟨index, Nat.lt_of_succ_lt_succ bound⟩

/-- The record with another value for one field. -/
def set : {list : List (Field Name)} → Record fields list → (index : Fin list.length) →
    Val fields (list.get index).shape → Record fields list
  | _ :: _, .cons _ tail, ⟨0, _⟩, value => .cons value tail
  | _ :: _, .cons head tail, ⟨index + 1, bound⟩, value =>
      .cons head (tail.set ⟨index, Nat.lt_of_succ_lt_succ bound⟩ value)

/-- The values of the first fields, where the list of fields goes on. -/
def front : (first : List (Field Name)) → {rest : List (Field Name)} →
    Record fields (first ++ rest) → Record fields first
  | [], _, _ => .nil
  | _ :: first, _, .cons head tail => .cons head (front first tail)

/-- The values of the fields behind the first ones. -/
def back : (first : List (Field Name)) → {rest : List (Field Name)} →
    Record fields (first ++ rest) → Record fields rest
  | [], _, record => record
  | _ :: first, _, .cons _ tail => back first tail

end Record

end ChatCodec
