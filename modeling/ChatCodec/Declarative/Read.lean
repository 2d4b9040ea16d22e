import ChatCodec.Json.Reader
import ChatCodec.Schema.Catalog

/-!
# Declarative reading

The second decoder reads a document by the rules that follow from the declaration of
an entity alone, over the strict grammar and with its limit on nesting.

* A key names a field only byte for byte; a member with another key is passed over,
  and a second member for one field is an error.
* A field that no member names has its blank value.
* `null` is a value of an optional shape, of an identifier and of opaque JSON, and
  of nothing else.
* An array is accepted for an entity too, with the values of the fields in order; it
  may break off early.

An entity that extends another one is read from an object only.  The members of the
fields of the other are set aside, as JSON that must be in order, and are read when
the object has ended; so whatever is wrong with one of them counts only then.
-/

namespace ChatCodec

set_option autoImplicit false

open Json (Piece Stage nestingLimit)

namespace Declarative

/-! ## Scalars -/

/-- What a deserializer hands over for a scalar. -/
def visitOf : Json.Atom → Id.Visit
  | .null => .null
  | .bool value => .boolean value
  | .number (.integer value _) =>
      if 0 ≤ value then .natural (UInt64.ofNat value.toNat) else .signed value
  | .number (.double bits) => .double bits
  | .text value => .text value

/-- The complaint about a value of another type. -/
def invalidType {Value : Type} (visit : Id.Visit) (wanted : String) : Except Json.Fault Value :=
  .error (.unsuited (.invalidType visit.found wanted))

/-- What a timestamp wants to be handed. -/
def timestampWanted : String := "an ISO 8601 datetime string"

/-- The timestamp of the value handed over. -/
def timestampOf (visit : Id.Visit) : Except Json.Complaint Timestamp :=
  match visit with
  | .text value =>
      match Timestamp.parse (bytesOf value) with
      | .ok timestamp => .ok timestamp
      | .error error => .error (.custom error.message)
  | _ => .error (.invalidType visit.found timestampWanted)

/-- The scalar of the value handed over, if it is of the right type. -/
def scalarOf : (kind : Scalar) → Json.Atom → Except Json.Fault kind.Carrier
  | .bool, .bool value => .ok value
  | .integer width, .number (.integer value fits) =>
      match Sized.ofInt? width value with
      | some sized => .ok sized
      | none =>
          .error (.unsuited
            (.invalidValue (visitOf (.number (.integer value fits))).found width.title))
  | .text, .text value => .ok value
  | .opaqueJson, atom => .ok atom.value
  | .id _, atom => (Id.ofVisit (visitOf atom)).mapError .unsuited
  | .timestamp, atom => (timestampOf (visitOf atom)).mapError .unsuited
  | .flags, .number (.integer value fits) =>
      if 0 ≤ value then .ok ⟨UInt64.ofNat value.toNat⟩
      else
        .error (.unsuited (.invalidValue (visitOf (.number (.integer value fits))).found "u64"))
  | .code kind, .number (.integer value fits) =>
      if 0 ≤ value ∧ value < 256 then
        match kind.ofCode? (UInt8.ofNat value.toNat) with
        | some value => .ok value
        | none => .error (.unsuited (.custom ("invalid value: " ++ kind.title)))
      else
        .error (.unsuited (.invalidValue (visitOf (.number (.integer value fits))).found "u8"))
  | kind, atom => invalidType (visitOf atom) kind.title

theorem scalarOf_id {resource : Resource} (atom : Json.Atom) :
    scalarOf (.id resource) atom = (Id.ofVisit (visitOf atom)).mapError .unsuited := by
  rw [scalarOf]

theorem scalarOf_timestamp (atom : Json.Atom) :
    scalarOf .timestamp atom = (timestampOf (visitOf atom)).mapError .unsuited := by
  rw [scalarOf]

/-- Reads a scalar from a value with a body.  Only opaque JSON takes one; those scalars
that look at any value first count its bracket as open. -/
def scalarOfGroup (kind : Scalar) (opening : Piece) (body : Body Piece) (allowed : Nat) :
    Except Json.Fault kind.Carrier :=
  let found : Id.Visit := if opening.isMark .objectStart then .map else .sequence
  match kind with
  | .opaqueJson => Json.readValue allowed (.group opening body)
  | .id _ =>
      if allowed = 0 then .error .recursionLimit else invalidType found Id.wanted
  | .timestamp =>
      if allowed = 0 then .error .recursionLimit else invalidType found timestampWanted
  | kind => invalidType found kind.title

/-! ## Records -/

/-- Reads into the field of a given number. -/
def readAt {Name : Type} {fields : Name → List (Field Name)}
    (read : (shape : Shape Name) → Except Json.Fault (Val fields shape)) :
    {list : List (Field Name)} → Nat → Record fields list →
      Except Json.Fault (Record fields list)
  | [], _, .nil => .ok .nil
  | field :: _, 0, .cons _ tail => (read field.shape).map fun head => .cons head tail
  | _ :: _, index + 1, .cons head tail =>
      (readAt read index tail).map fun tail => .cons head tail

/-- What has been read of an object: the fields so far, the numbers of those that a
member has named, and what is wrong with a member that was set aside. -/
structure Progress (Fields : Type) where
  fields : Fields
  named : List Nat
  late : Option Json.Fault

/-- The number of fields that an entity takes over from the one it extends. -/
def inherited : Layout → Nat
  | .plain => 0
  | .extending count => count

/-- Whatever is wrong with a member that was set aside is a matter of types. -/
def setAside (fault : Json.Fault) : Json.Fault :=
  match fault with
  | .unsuited complaint => .unsuited complaint
  | fault => .unsuited (.custom fault.message)

/-- The progress after a member of a field was read, with the result of reading it into
the fields.  A member that is set aside must be in order as JSON. -/
def Progress.record {Fields : Type} (progress : Progress Fields) (isLate : Bool) (index : Nat)
    (key : String) (allowed : Nat) (tree : Tree Piece) (result : Except Json.Fault Fields) :
    Except Json.Fault (Progress Fields) :=
  if isLate then
    match Json.readValue allowed tree with
    | .error fault => .error fault
    | .ok _ =>
        let trouble :=
          if index ∈ progress.named then some (.unsuited (.duplicateKey key))
          else
            match result with
            | .ok _ => none
            | .error fault => some (setAside fault)
        .ok {
          fields := result.toOption.getD progress.fields
          named := index :: progress.named
          late := progress.late.or trouble }
  else result.map fun fields => { progress with fields, named := index :: progress.named }

/-- The fields of an object that has ended. -/
def Progress.finish {Fields : Type} (progress : Progress Fields) : Except Json.Fault Fields :=
  match progress.late with
  | none => .ok progress.fields
  | some fault => .error fault

/-! ## Values -/

section

variable (C : Catalog)

/-- Reads a value that is one piece. -/
def readLeaf (piece : Piece) : (shape : C.Shape) → Except Json.Fault (C.Value shape)
  | .scalar kind =>
      match piece with
      | .scalar source => do
          let atom ← Json.Atom.read source
          (scalarOf kind atom).map .scalar
      | piece => .error (Stage.announced.refuseInObject piece)
  | .option inner =>
      match piece with
      | .scalar source =>
          if source.head? = some 0x6E then (Json.Atom.read source).map fun _ => .none
          else (readLeaf (.scalar source) inner).map .some
      | piece => .error (Stage.announced.refuseInObject piece)
  | .list _ =>
      match piece with
      | .scalar source => do
          let atom ← Json.Atom.read source
          invalidType (visitOf atom) "a sequence"
      | piece => .error (Stage.announced.refuseInObject piece)
  | .entity name =>
      match piece with
      | .scalar source => do
          let atom ← Json.Atom.read source
          invalidType (visitOf atom) (C.title name)
      | piece => .error (Stage.announced.refuseInObject piece)

theorem readLeaf_scalar (source : Bytes) (kind : Scalar) :
    readLeaf C (.scalar source) (.scalar kind) =
      (Json.Atom.read source >>= fun atom => (scalarOf kind atom).map .scalar) := by
  rw [readLeaf]

theorem readLeaf_option (source : Bytes) (inner : C.Shape) :
    readLeaf C (.scalar source) (.option inner) =
      if source.head? = some 0x6E then (Json.Atom.read source).map fun _ => .none
      else (readLeaf C (.scalar source) inner).map .some := by
  rw [readLeaf]

/-- Reads a value that has a body, inside of which `allowed` more brackets may be open,
its own included.  `members` reads the body as the members of an entity, `positional`
as the values of its fields in order, and `items` as a sequence. -/
def readGroup (opening : Piece) (body : Body Piece) (allowed : Nat)
    (members positional : (name : C.Name) → Except Json.Fault (C.Entity name))
    (items : (inner : C.Shape) → Except Json.Fault (C.Sequence inner)) :
    (shape : C.Shape) → Except Json.Fault (C.Value shape)
  | .scalar kind => (scalarOfGroup kind opening body allowed).map .scalar
  | .option inner => (readGroup opening body allowed members positional items inner).map .some
  | .list inner =>
      if opening.isMark .arrayStart then
        if allowed = 0 then .error .recursionLimit else (items inner).map .list
      else invalidType .map "a sequence"
  | .entity name =>
      if opening.isMark .arrayStart ∧ C.layout name ≠ .plain then
        invalidType .sequence (C.title name)
      else if allowed = 0 then .error .recursionLimit
      else if opening.isMark .arrayStart then (positional name).map .entity
      else (members name).map .entity

mutual

/-- Reads a value inside of which `allowed` more brackets may be open. -/
def readTree : Tree Piece → Nat → (shape : C.Shape) → Except Json.Fault (C.Value shape)
  | .leaf piece, _ => readLeaf C piece
  | .group opening body, allowed =>
      readGroup C opening body allowed
        (fun name =>
          readMembers body (allowed - 1) name .opened "" ⟨C.blankEntity name, [], none⟩)
        (fun name => readPositional body (allowed - 1) .opened (C.blankEntity name))
        (fun inner => readItems body (allowed - 1) inner .opened)

/-- Reads the members of an entity.  `key` is the key read last. -/
def readMembers : Body Piece → Nat → (name : C.Name) → Stage → String →
    Progress (C.Entity name) → Except Json.Fault (C.Entity name)
  | .close ending, _, _, stage, _, progress =>
      if ending.isMark .objectEnd ∧ (stage = .opened ∨ stage = .filled) then progress.finish
      else .error (stage.refuseInObject ending)
  | .more tree rest, allowed, name, stage, key, progress =>
      match stage with
      | .opened | .separated =>
          match tree.head.key? with
          | some bytes => do
              let key ← Json.readText bytes
              match (C.names name).findIdx? (· == key) with
              | some index =>
                  if inherited (C.layout name) ≤ index ∧ index ∈ progress.named then
                    .error (.unsuited (.duplicateKey key))
                  else readMembers rest allowed name .named key progress
              | none => readMembers rest allowed name .named key progress
          | none => .error (stage.refuseInObject tree.head)
      | .named =>
          if tree.head.isMark .colon then readMembers rest allowed name .announced key progress
          else .error (stage.refuseInObject tree.head)
      | .announced =>
          match (C.names name).findIdx? (· == key) with
          | some index => do
              let progress ←
                progress.record (index < inherited (C.layout name)) index key allowed tree
                  (readAt (fun shape => readTree tree allowed shape) index progress.fields)
              readMembers rest allowed name .filled key progress
          | none =>
              match C.layout name with
              | .plain => do
                  Json.passValue tree
                  readMembers rest allowed name .filled key progress
              | .extending _ => do
                  let _ ← Json.readValue allowed tree
                  readMembers rest allowed name .filled key progress
      | .filled =>
          if tree.head.isMark .comma then readMembers rest allowed name .separated key progress
          else .error (stage.refuseInObject tree.head)

/-- Reads the values of fields in order.  The fields that are left when the array ends
keep the values they have. -/
def readPositional : Body Piece → Nat → Stage → {list : List (Field C.Name)} → C.Record list →
    Except Json.Fault (C.Record list)
  | .close ending, _, stage, _, record =>
      if ending.isMark .arrayEnd ∧ (stage = .opened ∨ stage = .filled) then .ok record
      else .error (stage.refuseInArray ending)
  | .more tree rest, allowed, stage, list, record =>
      match stage with
      | .filled =>
          if tree.head.isMark .comma then
            match list, record with
            | [], _ => .error .trailingCharacters
            | _ :: _, record => readPositional rest allowed .separated record
          else .error (stage.refuseInArray tree.head)
      | _ =>
          match list, record with
          | [], _ => .error .trailingCharacters
          | field :: _, .cons _ tail => do
              let head ← readTree tree allowed field.shape
              let tail ← readPositional rest allowed .filled tail
              return .cons head tail

/-- Reads the items of a sequence. -/
def readItems : Body Piece → Nat → (inner : C.Shape) → Stage →
    Except Json.Fault (C.Sequence inner)
  | .close ending, _, _, stage =>
      if ending.isMark .arrayEnd ∧ (stage = .opened ∨ stage = .filled) then .ok .nil
      else .error (stage.refuseInArray ending)
  | .more tree rest, allowed, inner, stage =>
      match stage with
      | .filled =>
          if tree.head.isMark .comma then readItems rest allowed inner .separated
          else .error (stage.refuseInArray tree.head)
      | _ => do
          let head ← readTree tree allowed inner
          let tail ← readItems rest allowed inner .filled
          return .cons head tail

end

section

variable {C} {tree : Tree Piece} {rest : Body Piece} {allowed : Nat} {stage : Stage}

/-- A key is awaited behind an opening brace and behind a comma. -/
theorem readMembers_awaited {name : C.Name} {key : String} {progress : Progress (C.Entity name)}
    (awaited : stage = .opened ∨ stage = .separated) :
    readMembers C (.more tree rest) allowed name stage key progress =
      match tree.head.key? with
      | some bytes => do
          let key ← Json.readText bytes
          match (C.names name).findIdx? (· == key) with
          | some index =>
              if inherited (C.layout name) ≤ index ∧ index ∈ progress.named then
                .error (.unsuited (.duplicateKey key))
              else readMembers C rest allowed name .named key progress
          | none => readMembers C rest allowed name .named key progress
      | none => .error (stage.refuseInObject tree.head) := by
  rcases awaited with rfl | rfl <;> rw [readMembers]

/-- An item is awaited wherever there is none yet. -/
theorem readItems_awaited {inner : C.Shape} (awaited : stage ≠ .filled) :
    readItems C (.more tree rest) allowed inner stage = do
      let head ← readTree C tree allowed inner
      let tail ← readItems C rest allowed inner .filled
      return .cons head tail := by
  rw [readItems]
  exact awaited

end

/-- Reads a document of a given shape. -/
def read (shape : C.Shape) (document : Bytes) : Except Json.Fault (C.Value shape) :=
  Json.readDocument (fun tree => readTree C tree nestingLimit shape) document

end

end Declarative

end ChatCodec
