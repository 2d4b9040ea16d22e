/-!
# Message flags

A set of flags of a message, as the bits of a 64-bit word.  Bits without a name are
kept, so that nothing is lost when a message is written again.
-/

namespace ChatCodec

set_option autoImplicit false

/-- The flags of a message. -/
structure MessageFlags where
  bits : UInt64
  deriving DecidableEq, Repr

namespace MessageFlags

/-- No flags. -/
def empty : MessageFlags := ⟨0⟩

instance : Inhabited MessageFlags := ⟨empty⟩

/-- The flags with a name, each with the number of its bit. -/
def named : List (String × UInt64) :=
  [("CROSSPOSTED", 0), ("IS_CROSSPOST", 1), ("SUPPRESS_EMBEDS", 2),
    ("SOURCE_MESSAGE_DELETED", 3), ("URGENT", 4), ("HAS_THREAD", 5), ("EPHEMERAL", 6),
    ("LOADING", 7), ("FAILED_TO_MENTION_SOME_ROLES_IN_THREAD", 8),
    ("SUPPRESS_NOTIFICATIONS", 12), ("IS_VOICE_MESSAGE", 13)]

/-- Whether the flag at a bit is set. -/
def holds (flags : MessageFlags) (bit : UInt64) : Bool := flags.bits &&& ((1 : UInt64) <<< bit) != 0

/-- The names of the flags that are set, in the order of their declaration. -/
def names (flags : MessageFlags) : List String :=
  (named.filter fun flag => flags.holds flag.2).map Prod.fst

/-- The bits without a name. -/
def unknown (flags : MessageFlags) : UInt64 :=
  named.foldl (fun (bits : UInt64) flag => bits &&& ~~~((1 : UInt64) <<< flag.2)) flags.bits

/-- Only visible to the user who invoked the interaction. -/
def isEphemeral (flags : MessageFlags) : Bool := flags.holds 6

end MessageFlags

end ChatCodec
