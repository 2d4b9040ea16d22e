/-!
# Enumerations that travel as small integers

Each value of an enumeration has a code from 0 to 255.  An open enumeration has a
value for every code, since it keeps the codes without a name; a closed one has no
value for them.  A value of an open enumeration may also hold a code that has a name
of its own, and `ofCode` never makes one.

`CodeKind` names the six enumerations, and `CodeKind.Carrier` is the type of the
values of each, so that a schema can speak of all of them at once.
-/

namespace ChatCodec

set_option autoImplicit false

/-! ## ChannelType -/

/-- The type of a channel. -/
inductive ChannelType where
  | guildText
  | direct
  | guildVoice
  | group
  | guildCategory
  | guildAnnouncement
  | announcementThread
  | publicThread
  | privateThread
  | guildStageVoice
  | guildDirectory
  | guildForum
  | unknown (code : UInt8)
  deriving DecidableEq, Repr

namespace ChannelType

/-- The code of a value. -/
def code : ChannelType → UInt8
  | guildText => 0
  | direct => 1
  | guildVoice => 2
  | group => 3
  | guildCategory => 4
  | guildAnnouncement => 5
  | announcementThread => 10
  | publicThread => 11
  | privateThread => 12
  | guildStageVoice => 13
  | guildDirectory => 14
  | guildForum => 15
  | unknown code => code

/-- The value of a code. -/
def ofCode (code : UInt8) : ChannelType :=
  match code.toNat with
  | 0 => guildText
  | 1 => direct
  | 2 => guildVoice
  | 3 => group
  | 4 => guildCategory
  | 5 => guildAnnouncement
  | 10 => announcementThread
  | 11 => publicThread
  | 12 => privateThread
  | 13 => guildStageVoice
  | 14 => guildDirectory
  | 15 => guildForum
  | _ => unknown code

/-- The name of a value. -/
def name : ChannelType → String
  | guildText => "GuildText"
  | direct => "Private"
  | guildVoice => "GuildVoice"
  | group => "Group"
  | guildCategory => "GuildCategory"
  | guildAnnouncement => "GuildAnnouncement"
  | announcementThread => "AnnouncementThread"
  | publicThread => "PublicThread"
  | privateThread => "PrivateThread"
  | guildStageVoice => "GuildStageVoice"
  | guildDirectory => "GuildDirectory"
  | guildForum => "GuildForum"
  | unknown code => "Unknown(" ++ toString code.toNat ++ ")"

instance : Inhabited ChannelType := ⟨guildText⟩

/-- Threads hang off a channel. -/
def isThread : ChannelType → Bool
  | announcementThread | publicThread | privateThread => true
  | _ => false

end ChannelType

/-! ## MessageType -/

/-- The type of a message. -/
inductive MessageType where
  | regular
  | recipientAdd
  | recipientRemove
  | call
  | channelNameChange
  | channelIconChange
  | channelMessagePinned
  | userJoin
  | guildBoost
  | guildBoostTier1
  | guildBoostTier2
  | guildBoostTier3
  | channelFollowAdd
  | guildDiscoveryDisqualified
  | guildDiscoveryRequalified
  | guildDiscoveryGracePeriodInitialWarning
  | guildDiscoveryGracePeriodFinalWarning
  | threadCreated
  | reply
  | chatInputCommand
  | threadStarterMessage
  | guildInviteReminder
  | contextMenuCommand
  | unknown (code : UInt8)
  deriving DecidableEq, Repr

namespace MessageType

/-- The code of a value. -/
def code : MessageType → UInt8
  | regular => 0
  | recipientAdd => 1
  | recipientRemove => 2
  | call => 3
  | channelNameChange => 4
  | channelIconChange => 5
  | channelMessagePinned => 6
  | userJoin => 7
  | guildBoost => 8
  | guildBoostTier1 => 9
  | guildBoostTier2 => 10
  | guildBoostTier3 => 11
  | channelFollowAdd => 12
  | guildDiscoveryDisqualified => 14
  | guildDiscoveryRequalified => 15
  | guildDiscoveryGracePeriodInitialWarning => 16
  | guildDiscoveryGracePeriodFinalWarning => 17
  | threadCreated => 18
  | reply => 19
  | chatInputCommand => 20
  | threadStarterMessage => 21
  | guildInviteReminder => 22
  | contextMenuCommand => 23
  | unknown code => code

/-- The value of a code. -/
def ofCode (code : UInt8) : MessageType :=
  match code.toNat with
  | 0 => regular
  | 1 => recipientAdd
  | 2 => recipientRemove
  | 3 => call
  | 4 => channelNameChange
  | 5 => channelIconChange
  | 6 => channelMessagePinned
  | 7 => userJoin
  | 8 => guildBoost
  | 9 => guildBoostTier1
  | 10 => guildBoostTier2
  | 11 => guildBoostTier3
  | 12 => channelFollowAdd
  | 14 => guildDiscoveryDisqualified
  | 15 => guildDiscoveryRequalified
  | 16 => guildDiscoveryGracePeriodInitialWarning
  | 17 => guildDiscoveryGracePeriodFinalWarning
  | 18 => threadCreated
  | 19 => reply
  | 20 => chatInputCommand
  | 21 => threadStarterMessage
  | 22 => guildInviteReminder
  | 23 => contextMenuCommand
  | _ => unknown code

/-- The name of a value. -/
def name : MessageType → String
  | regular => "Regular"
  | recipientAdd => "RecipientAdd"
  | recipientRemove => "RecipientRemove"
  | call => "Call"
  | channelNameChange => "ChannelNameChange"
  | channelIconChange => "ChannelIconChange"
  | channelMessagePinned => "ChannelMessagePinned"
  | userJoin => "UserJoin"
  | guildBoost => "GuildBoost"
  | guildBoostTier1 => "GuildBoostTier1"
  | guildBoostTier2 => "GuildBoostTier2"
  | guildBoostTier3 => "GuildBoostTier3"
  | channelFollowAdd => "ChannelFollowAdd"
  | guildDiscoveryDisqualified => "GuildDiscoveryDisqualified"
  | guildDiscoveryRequalified => "GuildDiscoveryRequalified"
  | guildDiscoveryGracePeriodInitialWarning => "GuildDiscoveryGracePeriodInitialWarning"
  | guildDiscoveryGracePeriodFinalWarning => "GuildDiscoveryGracePeriodFinalWarning"
  | threadCreated => "ThreadCreated"
  | reply => "Reply"
  | chatInputCommand => "ChatInputCommand"
  | threadStarterMessage => "ThreadStarterMessage"
  | guildInviteReminder => "GuildInviteReminder"
  | contextMenuCommand => "ContextMenuCommand"
  | unknown code => "Unknown(" ++ toString code.toNat ++ ")"

instance : Inhabited MessageType := ⟨regular⟩

end MessageType

/-! ## InteractionType -/

/-- The type of an interaction. -/
inductive InteractionType where
  | ping
  | applicationCommand
  | messageComponent
  | applicationCommandAutocomplete
  | modalSubmit
  | unknown (code : UInt8)
  deriving DecidableEq, Repr

namespace InteractionType

/-- The code of a value. -/
def code : InteractionType → UInt8
  | ping => 1
  | applicationCommand => 2
  | messageComponent => 3
  | applicationCommandAutocomplete => 4
  | modalSubmit => 5
  | unknown code => code

/-- The value of a code. -/
def ofCode (code : UInt8) : InteractionType :=
  match code.toNat with
  | 1 => ping
  | 2 => applicationCommand
  | 3 => messageComponent
  | 4 => applicationCommandAutocomplete
  | 5 => modalSubmit
  | _ => unknown code

/-- The name of a value. -/
def name : InteractionType → String
  | ping => "Ping"
  | applicationCommand => "ApplicationCommand"
  | messageComponent => "MessageComponent"
  | applicationCommandAutocomplete => "ApplicationCommandAutocomplete"
  | modalSubmit => "ModalSubmit"
  | unknown code => "Unknown(" ++ toString code.toNat ++ ")"

instance : Inhabited InteractionType := ⟨unknown 0⟩

end InteractionType

/-! ## StickerFormatType -/

/-- The file format of a sticker. -/
inductive StickerFormatType where
  | png
  | apng
  | lottie
  | gif
  | unknown (code : UInt8)
  deriving DecidableEq, Repr

namespace StickerFormatType

/-- The code of a value. -/
def code : StickerFormatType → UInt8
  | png => 1
  | apng => 2
  | lottie => 3
  | gif => 4
  | unknown code => code

/-- The value of a code. -/
def ofCode (code : UInt8) : StickerFormatType :=
  match code.toNat with
  | 1 => png
  | 2 => apng
  | 3 => lottie
  | 4 => gif
  | _ => unknown code

/-- The name of a value. -/
def name : StickerFormatType → String
  | png => "Png"
  | apng => "Apng"
  | lottie => "Lottie"
  | gif => "Gif"
  | unknown code => "Unknown(" ++ toString code.toNat ++ ")"

instance : Inhabited StickerFormatType := ⟨unknown 0⟩

/-- The file extension of the sticker's image. -/
def extension : StickerFormatType → String
  | lottie => "json"
  | gif => "gif"
  | _ => "png"

end StickerFormatType

/-! ## StickerType -/

/-- The kind of a sticker: of a pack, or of a guild. -/
inductive StickerType where
  | standard
  | guild
  deriving DecidableEq, Repr

namespace StickerType

/-- The code of a value. -/
def code : StickerType → UInt8
  | standard => 1
  | guild => 2

/-- The value of a code, if the code has one. -/
def ofCode? (code : UInt8) : Option StickerType :=
  match code.toNat with
  | 1 => some standard
  | 2 => some guild
  | _ => none

/-- The name of a value. -/
def name : StickerType → String
  | standard => "Standard"
  | guild => "Guild"

instance : Inhabited StickerType := ⟨standard⟩

end StickerType

/-! ## MessageActivityType -/

/-- What a message invites to. -/
inductive MessageActivityType where
  | join
  | spectate
  | listen
  | joinRequest
  deriving DecidableEq, Repr

namespace MessageActivityType

/-- The code of a value. -/
def code : MessageActivityType → UInt8
  | join => 1
  | spectate => 2
  | listen => 3
  | joinRequest => 5

/-- The value of a code, if the code has one. -/
def ofCode? (code : UInt8) : Option MessageActivityType :=
  match code.toNat with
  | 1 => some join
  | 2 => some spectate
  | 3 => some listen
  | 5 => some joinRequest
  | _ => none

/-- The name of a value. -/
def name : MessageActivityType → String
  | join => "Join"
  | spectate => "Spectate"
  | listen => "Listen"
  | joinRequest => "JoinRequest"

instance : Inhabited MessageActivityType := ⟨join⟩

end MessageActivityType

/-! ## All enumerations at once -/

/-- One of the six enumerations. -/
inductive CodeKind where
  | channel
  | message
  | interaction
  | stickerFormat
  | sticker
  | activity
  deriving DecidableEq, Repr

namespace CodeKind

/-- The values of an enumeration. -/
@[reducible] def Carrier : CodeKind → Type
  | channel => ChannelType
  | message => MessageType
  | interaction => InteractionType
  | stickerFormat => StickerFormatType
  | sticker => StickerType
  | activity => MessageActivityType

instance instDecidableEqCarrier : (kind : CodeKind) → DecidableEq kind.Carrier
  | channel => inferInstanceAs (DecidableEq ChannelType)
  | message => inferInstanceAs (DecidableEq MessageType)
  | interaction => inferInstanceAs (DecidableEq InteractionType)
  | stickerFormat => inferInstanceAs (DecidableEq StickerFormatType)
  | sticker => inferInstanceAs (DecidableEq StickerType)
  | activity => inferInstanceAs (DecidableEq MessageActivityType)

/-- The value an enumeration has where none is given. -/
def blank : (kind : CodeKind) → kind.Carrier
  | channel => (default : ChannelType)
  | message => (default : MessageType)
  | interaction => (default : InteractionType)
  | stickerFormat => (default : StickerFormatType)
  | sticker => (default : StickerType)
  | activity => (default : MessageActivityType)

/-- What messages call an enumeration. -/
def title : CodeKind → String
  | channel => "channel type"
  | message => "message type"
  | interaction => "interaction type"
  | stickerFormat => "sticker format type"
  | sticker => "sticker type"
  | activity => "message activity type"

/-- The code of a value. -/
def code : (kind : CodeKind) → kind.Carrier → UInt8
  | channel => ChannelType.code
  | message => MessageType.code
  | interaction => InteractionType.code
  | stickerFormat => StickerFormatType.code
  | sticker => StickerType.code
  | activity => MessageActivityType.code

/-- The value of a code, if the code has one. -/
def ofCode? : (kind : CodeKind) → UInt8 → Option kind.Carrier
  | channel => fun code => some (ChannelType.ofCode code)
  | message => fun code => some (MessageType.ofCode code)
  | interaction => fun code => some (InteractionType.ofCode code)
  | stickerFormat => fun code => some (StickerFormatType.ofCode code)
  | sticker => StickerType.ofCode?
  | activity => MessageActivityType.ofCode?

/-- The name of a value. -/
def valueName : (kind : CodeKind) → kind.Carrier → String
  | channel => ChannelType.name
  | message => MessageType.name
  | interaction => InteractionType.name
  | stickerFormat => StickerFormatType.name
  | sticker => StickerType.name
  | activity => MessageActivityType.name

end CodeKind

end ChatCodec
