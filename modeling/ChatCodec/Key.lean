import ChatCodec.Text.Ascii
import ChatCodec.Text.Blank

/-!
# Keys

The key of a member is looked up among the keys of an entity's fields.  A key that
is byte for byte the key of a field always finds that field.  Lenient matching goes
on to compare letters alone, without regard to case, so that `requireColons` and
`REQUIRE-COLONS` find `require_colons`.  The empty key finds nothing.
-/

namespace ChatCodec

set_option autoImplicit false

/-- How keys are matched. -/
inductive KeyMatching where
  /-- Byte for byte. -/
  | exact
  /-- Byte for byte first, and by letters otherwise. -/
  | lenient
  deriving DecidableEq, Repr

namespace KeyMatching

/-- Matching is lenient unless set otherwise. -/
instance : Inhabited KeyMatching := ⟨lenient⟩

/-- The matching that a setting names, in any case and with blanks around it. -/
def ofSetting? (setting : String) : Option KeyMatching :=
  let word := (Blank.trim setting.toList).map Char.toLower
  if word = "exact".toList then some exact
  else if word = "lenient".toList then some lenient
  else none

/-- The text that refuses a setting. -/
def refusal (setting : String) : String :=
  "unknown key matching `" ++ setting ++ "`, expected `exact` or `lenient`"

/-- The matching of an optional setting. -/
def ofSettings (setting : Option String) : Except String KeyMatching :=
  match setting with
  | none => .ok default
  | some setting =>
      match ofSetting? setting with
      | some matching => .ok matching
      | none => .error (refusal setting)

/-- The name of a matching. -/
def name : KeyMatching → String
  | exact => "Exact"
  | lenient => "Lenient"

end KeyMatching

namespace Key

/-- The letters of a key, in lower case. -/
def letters (key : Bytes) : Bytes := (key.filter Ascii.isLetter).map Ascii.toLower

/-- Whether a key is byte for byte the key of a field. -/
def matchesExact (name : String) (key : Bytes) : Bool := bytesOf name == key

/-- Whether a key has the letters of the key of a field. -/
def matchesFolded (name : String) (key : Bytes) : Bool := letters (bytesOf name) == letters key

/-- The number of the field that a key finds among the keys of all fields. -/
def resolve (names : List String) (key : Bytes) (matching : KeyMatching) : Option Nat :=
  if key = [] then none
  else
    match names.findIdx? (matchesExact · key) with
    | some index => some index
    | none =>
        match matching with
        | .exact => none
        | .lenient => names.findIdx? (matchesFolded · key)

end Key

end ChatCodec
