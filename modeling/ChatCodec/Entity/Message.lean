import ChatCodec.Entity.Emoji
import ChatCodec.Entity.Sticker

/-!
# Messages and what they hold

Attachments, mentions of channels, applications, interactions, and messages
themselves.
-/

namespace ChatCodec

set_option autoImplicit false

/-- A file attached to a message. -/
abbrev Attachment : Type := Chat.Entity .attachment

/-- A channel mentioned in a crossposted message. -/
abbrev ChannelMention : Type := Chat.Entity .channelMention

/-- The application that sent a message. -/
abbrev MessageApplication : Type := Chat.Entity .messageApplication

/-- The interaction that a message responds to. -/
abbrev MessageInteraction : Type := Chat.Entity .messageInteraction

/-- A message sent in a channel. -/
abbrev Message : Type := Chat.Entity .message

namespace Attachment

/-- The height in pixels, 0 if the file is no image. -/
def height (attachment : Attachment) : Int := (attachment.get ⟨7, by decide⟩).get.value

/-- The width in pixels, 0 if the file is no image. -/
def width (attachment : Attachment) : Int := (attachment.get ⟨8, by decide⟩).get.value

/-- Whether the file has the dimensions of an image. -/
def isImage (attachment : Attachment) : Bool := attachment.height != 0 && attachment.width != 0

end Attachment

namespace ChannelMention

def id (mentioned : ChannelMention) : Id .channel := (mentioned.get ⟨0, by decide⟩).get

def type (mentioned : ChannelMention) : ChannelType := (mentioned.get ⟨2, by decide⟩).get

/-- The text that mentions the channel. -/
def mention (mentioned : ChannelMention) : String := "<#" ++ mentioned.id.text ++ ">"

end ChannelMention

def MessageApplication.id (application : MessageApplication) : Id .application :=
  (application.get ⟨0, by decide⟩).get

namespace MessageInteraction

/-- The user who began the interaction. -/
def user (interaction : MessageInteraction) : User := (interaction.get ⟨3, by decide⟩).record

/-- The user's membership, if the interaction began in a guild. -/
def member? (interaction : MessageInteraction) : Option Member :=
  (interaction.get ⟨4, by decide⟩).get?.map Val.record

end MessageInteraction

namespace Message

def id (message : Message) : Id .message := (message.get ⟨0, by decide⟩).get

def channelId (message : Message) : Id .channel := (message.get ⟨1, by decide⟩).get

/-- The guild, unset for messages outside of guilds. -/
def guildId (message : Message) : Id .guild := (message.get ⟨2, by decide⟩).get

def flags? (message : Message) : Option MessageFlags :=
  (message.get ⟨4, by decide⟩).get?.map Val.get

/-- The users mentioned in the message. -/
def mentions (message : Message) : List GuildUser :=
  (message.get ⟨8, by decide⟩).items.toList.map Val.record

def author (message : Message) : User := (message.get ⟨11, by decide⟩).record

def reactions (message : Message) : List Reaction :=
  (message.get ⟨17, by decide⟩).items.toList.map Val.record

def stickerItems (message : Message) : List StickerItem :=
  (message.get ⟨27, by decide⟩).items.toList.map Val.record

/-- The address of the message.  Outside of guilds `@me` stands for the guild. -/
def url (message : Message) : String :=
  "https://discord.com/channels/" ++
    (if message.guildId.isSet then message.guildId.text else "@me") ++ "/" ++
    message.channelId.text ++ "/" ++ message.id.text

/-- Whether a user is mentioned in the message. -/
def mentionsUser (message : Message) (id : Id .user) : Bool :=
  message.mentions.any fun mentioned => mentioned.user.id == id

end Message

end ChatCodec
