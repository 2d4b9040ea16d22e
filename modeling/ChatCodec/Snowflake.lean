import ChatCodec.Decimal
import ChatCodec.Json.Fault
import ChatCodec.Text.Escape
import ChatCodec.Time.Rfc3339

/-!
# Identifiers

Resources are identified by snowflakes, 64-bit words whose upper bits hold the
millisecond of creation.  An identifier is typed by the kind of resource it
identifies, so that a role is not taken for a user.  The word 0 is the unset
identifier: it is written as `null` and left out where empty values are.

Besides the streaming codec there is the visiting form of reading, in which a
deserializer hands over whatever value it holds (`Visit`), and the identifier takes
it or complains.
-/

namespace ChatCodec

set_option autoImplicit false

/-- The kinds of resource that identifiers identify. -/
inductive Resource where
  | application
  | attachment
  | channel
  | emoji
  | guild
  | interaction
  | message
  | role
  | sticker
  | stickerPack
  | user
  | webhook
  deriving DecidableEq, Repr

namespace Resource

/-- Every kind of resource. -/
def all : List Resource :=
  [application, attachment, channel, emoji, guild, interaction, message, role, sticker,
    stickerPack, user, webhook]

/-- The name of a kind of resource. -/
def name : Resource → String
  | application => "Application"
  | attachment => "Attachment"
  | channel => "Channel"
  | emoji => "Emoji"
  | guild => "Guild"
  | interaction => "Interaction"
  | message => "Message"
  | role => "Role"
  | sticker => "Sticker"
  | stickerPack => "StickerPack"
  | user => "User"
  | webhook => "Webhook"

end Resource

/-- The identifier of a resource of some kind. -/
structure Id (resource : Resource) where
  value : UInt64
  deriving DecidableEq, Repr

namespace Id

variable {resource : Resource}

/-- The unset identifier. -/
def unset : Id resource := ⟨0⟩

instance : Inhabited (Id resource) := ⟨unset⟩

/-- Whether the identifier holds a snowflake. -/
def isSet (id : Id resource) : Bool := id.value != 0

/-- The same snowflake as an identifier of another kind of resource. -/
def cast {other : Resource} (id : Id resource) : Id other := ⟨id.value⟩

/-- The decimal digits of the snowflake. -/
def digits (id : Id resource) : Bytes := Decimal.ofNat id.value.toNat

/-- The snowflake in decimal. -/
def text (id : Id resource) : String := String.ofList (id.digits.map Char.ofUInt8)

/-- The text of a snowflake with a label, if there is one. -/
def labelled (label : Option String) (id : Id resource) : String :=
  "Id" ++ (match label with | some label => "<" ++ label ++ ">" | none => "") ++
    "(" ++ id.text ++ ")"

/-- The text of a snowflake with the name of its kind of resource. -/
def describe (id : Id resource) : String := id.labelled (some (resource.name ++ "Marker"))

/-- Milliseconds between 1970 and 2015. -/
abbrev epochMillis : Nat := 1420070400000

/-- The words of one millisecond: the lower 22 bits number what was created in it. -/
abbrev wordsPerMilli : Nat := 0x400000

/-- Milliseconds since 1970 at which the resource was created. -/
def createdMillis? (id : Id resource) : Option Nat :=
  if id.isSet then some (id.value.toNat / wordsPerMilli + epochMillis) else none

/-- The instant at which the resource was created. -/
def createdAt? (id : Id resource) : Option Instant := id.createdMillis?.map Instant.ofMillis

/-! ## The visiting form of reading -/

/-- What a deserializer hands over. -/
inductive Visit where
  | natural (value : UInt64)
  | signed (value : Int)
  | double (bits : UInt64)
  | boolean (value : Bool)
  | text (value : String)
  | null
  | none
  /-- A value that could also have been absent. -/
  | some (value : Visit)
  | unit
  | sequence
  | map
  deriving DecidableEq, Repr

/-- What was found when the value handed over is of no use. -/
def Visit.found : Visit → Json.Found
  | natural value => .integer value.toNat
  | signed value => .integer value
  | double bits => .floatingPoint bits
  | boolean value => .boolean value
  | text value => .text value
  | null => .null
  | none | some _ => .option
  | unit => .unit
  | sequence => .sequence
  | map => .map

/-- What an identifier wants to be handed. -/
def wanted : String := "a discord snowflake"

/-- The identifier of the value handed over. -/
def ofVisit : Visit → Except Json.Complaint (Id resource)
  | .natural value => .ok ⟨value⟩
  | .signed value =>
      if 0 ≤ value then .ok ⟨UInt64.ofNat value.toNat⟩
      else .error (.invalidValue (.integer value) wanted)
  | .text value =>
      match Decimal.readNatural? (bytesOf value) with
      | some number => .ok ⟨UInt64.ofNat number⟩
      | none => .error (.invalidValue (.text value) wanted)
  | .null | .none | .unit => .ok unset
  | .some value => ofVisit value
  | visit => .error (.invalidType visit.found wanted)

end Id

end ChatCodec
