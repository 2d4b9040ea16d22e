import ChatCodec.Entity.User

/-!
# Emojis

A custom emoji belongs to a guild and has an identifier; a Unicode emoji has none,
and its name is the emoji itself.
-/

namespace ChatCodec

set_option autoImplicit false

/-- A custom or a Unicode emoji. -/
abbrev Emoji : Type := Chat.Entity .emoji

/-- The reactions of one emoji on a message. -/
abbrev Reaction : Type := Chat.Entity .reaction

namespace Emoji

/-- The identifier, unset for a Unicode emoji. -/
def id (emoji : Emoji) : Id .emoji := (emoji.get ⟨0, by decide⟩).get

def name (emoji : Emoji) : String := (emoji.get ⟨1, by decide⟩).get

/-- The user who made the emoji. -/
def user? (emoji : Emoji) : Option User := (emoji.get ⟨3, by decide⟩).get?.map Val.record

def isAnimated (emoji : Emoji) : Bool := (emoji.get ⟨6, by decide⟩).get

/-- Whether the emoji belongs to a guild. -/
def isCustom (emoji : Emoji) : Bool := emoji.id.isSet

/-- The address of the image of a custom emoji. -/
def url? (emoji : Emoji) : Option String :=
  if emoji.isCustom then
    some (Cdn.image "emojis" emoji.id.text (if emoji.isAnimated then "gif" else "png"))
  else none

/-- The form that names the emoji in requests. -/
def requestText (emoji : Emoji) : String :=
  if emoji.isCustom then emoji.name ++ ":" ++ emoji.id.text else emoji.name

/-- The text that shows the emoji in a message. -/
def mention (emoji : Emoji) : String :=
  if emoji.isCustom then
    (if emoji.isAnimated then "<a:" else "<:") ++ emoji.requestText ++ ">"
  else emoji.name

end Emoji

/-- The emoji that was reacted with. -/
def Reaction.emoji (reaction : Reaction) : Emoji := (reaction.get ⟨2, by decide⟩).record

end ChatCodec
