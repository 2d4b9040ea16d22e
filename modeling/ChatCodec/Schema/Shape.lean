import ChatCodec.Code.Basic
import ChatCodec.Code.MessageFlags
import ChatCodec.Json.Value
import ChatCodec.Snowflake
import ChatCodec.Time.Timestamp

/-!
# Shapes

A shape says what a value looks like: a scalar of some kind, an optional value, a
sequence, or an entity, that is, an object with a fixed set of known keys.  The
entities themselves are named by a type of the user's choice, so shapes may refer
to one another in circles.

Each kind of scalar has a type of values (`Scalar.Carrier`), a value it has where
none is given (`Scalar.blank`), and a name for messages (`Scalar.title`).
-/

namespace ChatCodec

set_option autoImplicit false

/-! ## Scalars -/

/-- The integer types, by width and sign. -/
inductive Width where
  | u8
  | u16
  | u32
  | u64
  | i32
  | i64
  deriving DecidableEq, Repr

namespace Width

/-- The least integer of a type. -/
def low : Width → Int
  | u8 | u16 | u32 | u64 => 0
  | i32 => -0x80000000
  | i64 => -0x8000000000000000

/-- The greatest integer of a type. -/
def high : Width → Int
  | u8 => 0xFF
  | u16 => 0xFFFF
  | u32 => 0xFFFFFFFF
  | u64 => 0xFFFFFFFFFFFFFFFF
  | i32 => 0x7FFFFFFF
  | i64 => 0x7FFFFFFFFFFFFFFF

/-- Whether a type has negative integers. -/
def isSigned : Width → Bool
  | i32 | i64 => true
  | _ => false

/-- The name of a type in messages. -/
def title : Width → String
  | u8 => "u8"
  | u16 => "u16"
  | u32 => "u32"
  | u64 => "u64"
  | i32 => "i32"
  | i64 => "i64"

/-- The signed types fit a signed word. -/
theorem isSigned_within {width : Width} (isSigned : width.isSigned = true) :
    -(Decimal.signedLimit : Int) ≤ width.low ∧ width.high < Decimal.signedLimit := by
  cases width <;> first | cases isSigned; done | decide

/-- The other types have no negative integers. -/
theorem low_of_not_isSigned {width : Width} (notSigned : ¬ width.isSigned = true) :
    width.low = 0 := by
  cases width <;> first | rfl | exact absurd rfl notSigned

/-- No type goes beyond a word. -/
theorem high_lt (width : Width) : width.high < Decimal.wordSize := by
  cases width <;> decide

end Width

/-- An integer of a given type. -/
structure Sized (width : Width) where
  value : Int
  isIn : width.low ≤ value ∧ value ≤ width.high
  deriving DecidableEq, Repr

namespace Sized

variable {width : Width}

/-- The integer as one of the given type, if it is in range. -/
def ofInt? (width : Width) (value : Int) : Option (Sized width) :=
  if isIn : width.low ≤ value ∧ value ≤ width.high then some ⟨value, isIn⟩ else none

theorem ofInt?_eq_some_iff {value : Int} {number : Sized width} :
    ofInt? width value = some number ↔ value = number.value := by
  rw [ofInt?]
  constructor
  · intro found
    split at found <;> cases found
    rfl
  · rintro rfl
    exact dif_pos number.isIn

/-- Zero is in every range. -/
def zero (width : Width) : Sized width :=
  ⟨0, by cases width <;> decide⟩

end Sized

/-- The kinds of scalar. -/
inductive Scalar where
  | bool
  | integer (width : Width)
  | text
  /-- JSON that is carried along and not looked into. -/
  | opaqueJson
  | id (resource : Resource)
  | timestamp
  | flags
  | code (kind : CodeKind)
  deriving DecidableEq, Repr

namespace Scalar

/-- The values of a kind of scalar. -/
@[reducible] def Carrier : Scalar → Type
  | bool => Bool
  | integer width => Sized width
  | text => String
  | opaqueJson => Json.Value
  | id resource => Id resource
  | timestamp => Timestamp
  | flags => MessageFlags
  | code kind => kind.Carrier

instance instDecidableEqCarrier : (kind : Scalar) → DecidableEq kind.Carrier
  | bool => inferInstanceAs (DecidableEq Bool)
  | integer width => inferInstanceAs (DecidableEq (Sized width))
  | text => inferInstanceAs (DecidableEq String)
  | opaqueJson => inferInstanceAs (DecidableEq Json.Value)
  | id resource => inferInstanceAs (DecidableEq (Id resource))
  | timestamp => inferInstanceAs (DecidableEq Timestamp)
  | flags => inferInstanceAs (DecidableEq MessageFlags)
  | code kind => inferInstanceAs (DecidableEq kind.Carrier)

/-- The value a scalar has where none is given. -/
def blank : (kind : Scalar) → kind.Carrier
  | bool => false
  | integer width => Sized.zero width
  | text => ""
  | opaqueJson => .null
  | id _ => Id.unset
  | timestamp => Timestamp.epoch
  | flags => MessageFlags.empty
  | code kind => kind.blank

/-- What messages call a kind of scalar. -/
def title : Scalar → String
  | bool => "bool"
  | integer width => width.title
  | text => "string"
  | opaqueJson => "value"
  | id _ => "snowflake"
  | timestamp => "timestamp"
  | flags => "message flags"
  | code kind => kind.title

end Scalar

/-! ## Shapes -/

/-- The shape of a value. -/
inductive Shape (Name : Type) where
  | scalar (kind : Scalar)
  | option (inner : Shape Name)
  | list (inner : Shape Name)
  | entity (name : Name)
  deriving DecidableEq, Repr

/-! ## Fields -/

/-- When the streaming encoder writes a field. -/
inductive Policy where
  /-- Whatever its value. -/
  | always
  /-- Unless its value is empty. -/
  | omitEmpty
  deriving DecidableEq, Repr

/-- When the declarative encoder leaves a field out. -/
inductive Omission where
  | never
  | ifNone
  | ifFalse
  | ifZero
  | ifEmptyText
  | ifEmptyList
  | ifUnset
  | ifNull
  deriving DecidableEq, Repr

/-- An entry of the table that the streaming codec goes by. -/
structure Entry where
  /-- The key of the field in documents. -/
  key : String
  policy : Policy
  deriving DecidableEq, Repr

/-- A field as the declaration of its entity has it. -/
structure Declared (Name : Type) where
  /-- The name of the field in documents. -/
  name : String
  omission : Omission
  shape : Shape Name
  deriving DecidableEq, Repr

/-- A field of an entity, as the table and the declaration have it. -/
structure Field (Name : Type) extends Entry, Declared Name where
  deriving DecidableEq, Repr

/-- The fields of a table and of a declaration that list them in the same order. -/
def Field.listed {Name : Type} (table : List Entry) (declaration : List (Declared Name)) :
    List (Field Name) :=
  List.zipWith Field.mk table declaration

end ChatCodec
