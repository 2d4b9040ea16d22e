import ChatCodec.Schema.Value

/-!
# Catalogs

A catalog holds the entities that shapes may name: the fields of each, its name in
messages, and how its declaration is laid out.

Every entity has a blank record, in which scalars are blank, optional values are
absent, sequences are empty, and entities are blank in turn.  A catalog therefore
has no entity that is a field of its own fields without an optional value or a
sequence in between; `Catalog.grounded` says so by giving a depth that suffices.
-/

namespace ChatCodec

set_option autoImplicit false

section

variable {Name : Type} (fields : Name → List (Field Name))

/-- The blank value of a shape, given the blank records of the entities. -/
def blankValue? (records : (name : Name) → Option (Record fields (fields name))) :
    (shape : Shape Name) → Option (Val fields shape)
  | .scalar kind => some (.scalar kind.blank)
  | .option _ => some .none
  | .list _ => some (.list .nil)
  | .entity name => (records name).map .entity

/-- The blank record of a list of fields, given the blank records of the entities. -/
def blankRecord? (records : (name : Name) → Option (Record fields (fields name))) :
    (list : List (Field Name)) → Option (Record fields list)
  | [] => some .nil
  | field :: rest =>
      match blankValue? fields records field.shape, blankRecord? records rest with
      | some head, some tail => some (.cons head tail)
      | _, _ => none

/-- A record is blank field by field. -/
theorem blankRecord?_cons_eq_some_iff
    {records : (name : Name) → Option (Record fields (fields name))} {field : Field Name}
    {rest : List (Field Name)} {record : Record fields (field :: rest)} :
    blankRecord? fields records (field :: rest) = some record ↔
      ∃ head tail, blankValue? fields records field.shape = some head ∧
        blankRecord? fields records rest = some tail ∧ .cons head tail = record := by
  rw [blankRecord?]
  cases blankValue? fields records field.shape with
  | none => simp only [reduceCtorEq, false_and, exists_false]
  | some head =>
      cases blankRecord? fields records rest with
      | none => simp only [reduceCtorEq, false_and, and_false, exists_false]
      | some tail => simp only [Option.some.injEq, exists_and_left, exists_eq_left']

/-- The blank record of an entity whose fields hold entities at most so deep. -/
def blankEntity? : Nat → (name : Name) → Option (Record fields (fields name))
  | 0, _ => none
  | depth + 1, name => blankRecord? fields (blankEntity? depth) (fields name)

end

/-- How the declaration of an entity is laid out. -/
inductive Layout where
  /-- As a plain list of fields. -/
  | plain
  /-- As another entity, whose fields come first, and further fields beside them. -/
  | extending (count : Nat)
  deriving DecidableEq, Repr

/-- A set of entities. -/
structure Catalog where
  Name : Type
  fields : Name → List (Field Name)
  /-- The keys that the streaming decoder looks up, in the order of the fields. -/
  keys : Name → List String := fun name => (fields name).map (·.key)
  /-- The name of an entity in messages. -/
  title : Name → String
  layout : Name → Layout
  /-- How deep entities hold entities directly, counted in entities. -/
  depth : Nat
  grounded : ∀ name, (blankEntity? fields depth name).isSome = true

namespace Catalog

variable (C : Catalog)

/-- The shapes over the entities of a catalog. -/
abbrev Shape : Type := ChatCodec.Shape C.Name

/-- The values of a shape. -/
abbrev Value (shape : C.Shape) : Type := Val C.fields shape

/-- The sequences of values of a shape. -/
abbrev Sequence (shape : C.Shape) : Type := ChatCodec.Sequence C.fields shape

/-- The records of a list of fields. -/
abbrev Record (list : List (Field C.Name)) : Type := ChatCodec.Record C.fields list

/-- The records of an entity. -/
abbrev Entity (name : C.Name) : Type := C.Record (C.fields name)

/-- The names of an entity's fields by their declaration, in order. -/
def names (name : C.Name) : List String := (C.fields name).map (·.name)

/-- The blank record of an entity. -/
def blankEntity (name : C.Name) : C.Entity name :=
  (blankEntity? C.fields C.depth name).get (C.grounded name)

/-- The blank value of a shape. -/
def blank : (shape : C.Shape) → C.Value shape
  | .scalar kind => .scalar kind.blank
  | .option _ => .none
  | .list _ => .list .nil
  | .entity name => .entity (C.blankEntity name)

end Catalog

end ChatCodec
