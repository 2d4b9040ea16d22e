import ChatCodec.Schema.Catalog

/-!
# The entities of the chat service

Users, emojis, messages and what is embedded in them, as a catalog.  Each entity is
described twice, in the order of its fields.  Its declaration gives the name and the
shape of each field, and the condition on which the declarative encoder leaves it out;
its table gives the key and the policy that the streaming codec goes by.

A guild user is a user with one field more.  In documents the membership stands
beside the user's own keys and does not wrap them.
-/

namespace ChatCodec

set_option autoImplicit false

/-- The name of an entity. -/
inductive EntityName where
  /-- A user. -/
  | user
  /-- A user's membership in a guild. -/
  | member
  /-- A user with the membership that accompanies a mention in a guild. -/
  | guildUser
  /-- A custom or a Unicode emoji. -/
  | emoji
  /-- The reactions of one emoji on a message. -/
  | reaction
  /-- A file attached to a message. -/
  | attachment
  /-- The part of a sticker that is sent with messages. -/
  | stickerItem
  /-- A sticker that can be sent in messages. -/
  | sticker
  /-- A channel mentioned in a crossposted message. -/
  | channelMention
  /-- What a message invites to. -/
  | messageActivity
  /-- The application that sent a message. -/
  | messageApplication
  /-- Where a crosspost, a pin or a reply comes from. -/
  | messageReference
  /-- The interaction that a message responds to. -/
  | messageInteraction
  /-- Rich content attached to a message. -/
  | embed
  /-- The footer of an embed. -/
  | embedFooter
  /-- The image of an embed. -/
  | embedImage
  /-- The thumbnail of an embed. -/
  | embedThumbnail
  /-- The video of an embed. -/
  | embedVideo
  /-- The provider of an embed. -/
  | embedProvider
  /-- The author of an embed. -/
  | embedAuthor
  /-- A field of an embed. -/
  | embedField
  /-- A message sent in a channel. -/
  | message
  deriving DecidableEq, Repr

namespace EntityName

/-- Every entity. -/
def all : List EntityName :=
  [user, member, guildUser, emoji, reaction, attachment, stickerItem, sticker, channelMention,
    messageActivity, messageApplication, messageReference, messageInteraction, embed,
    embedFooter, embedImage, embedThumbnail, embedVideo, embedProvider, embedAuthor, embedField,
    message]

/-- The name of an entity in messages. -/
def title : EntityName → String
  | user => "User"
  | member => "Member"
  | guildUser => "GuildUser"
  | emoji => "Emoji"
  | reaction => "Reaction"
  | attachment => "Attachment"
  | stickerItem => "StickerItem"
  | sticker => "Sticker"
  | channelMention => "ChannelMention"
  | messageActivity => "MessageActivity"
  | messageApplication => "MessageApplication"
  | messageReference => "MessageReference"
  | messageInteraction => "MessageInteraction"
  | embed => "Embed"
  | embedFooter => "EmbedFooter"
  | embedImage => "EmbedImage"
  | embedThumbnail => "EmbedThumbnail"
  | embedVideo => "EmbedVideo"
  | embedProvider => "EmbedProvider"
  | embedAuthor => "EmbedAuthor"
  | embedField => "EmbedField"
  | message => "Message"

/-! ## Fields -/

/-- A declared field that the declarative encoder never leaves out. -/
def kept (name : String) (shape : Shape EntityName) : Declared EntityName :=
  ⟨name, .never, shape⟩

/-- A declared field that the declarative encoder leaves out on a condition. -/
def skipped (omission : Omission) (name : String) (shape : Shape EntityName) :
    Declared EntityName :=
  ⟨name, omission, shape⟩

/-- A field that the streaming encoder always writes. -/
def always (key : String) : Entry := ⟨key, .always⟩

/-- A field that the streaming encoder leaves out when it is empty. -/
def omitEmpty (key : String) : Entry := ⟨key, .omitEmpty⟩

/-- The declaration of a user. -/
def userDeclaration : List (Declared EntityName) :=
  [kept "id" (.scalar (.id .user)),
    kept "username" (.scalar .text),
    kept "discriminator" (.scalar .text),
    skipped .ifNone "avatar" (.option (.scalar .text)),
    skipped .ifNone "global_name" (.option (.scalar .text)),
    skipped .ifFalse "bot" (.scalar .bool),
    skipped .ifFalse "system" (.scalar .bool),
    skipped .ifFalse "mfa_enabled" (.scalar .bool),
    skipped .ifNone "banner" (.option (.scalar .text)),
    skipped .ifNone "accent_color" (.option (.scalar (.integer .u32))),
    skipped .ifNone "locale" (.option (.scalar .text)),
    skipped .ifFalse "verified" (.scalar .bool),
    skipped .ifNone "email" (.option (.scalar .text)),
    skipped .ifZero "flags" (.scalar (.integer .u64)),
    skipped .ifNone "premium_type" (.option (.scalar (.integer .u8))),
    skipped .ifZero "public_flags" (.scalar (.integer .u64))]

/-- The table of a user. -/
def userTable : List Entry :=
  [always "id", always "username", always "discriminator", omitEmpty "avatar",
    omitEmpty "global_name", omitEmpty "bot", omitEmpty "system", omitEmpty "mfa_enabled",
    omitEmpty "banner", omitEmpty "accent_color", omitEmpty "locale", omitEmpty "verified",
    omitEmpty "email", omitEmpty "flags", omitEmpty "premium_type", omitEmpty "public_flags"]

/-- The fields of a user. -/
def userFields : List (Field EntityName) :=
  Field.listed userTable userDeclaration

/-- The declaration of a membership. -/
def memberDeclaration : List (Declared EntityName) :=
  [skipped .ifNone "user" (.option (.entity .user)),
    skipped .ifNone "nick" (.option (.scalar .text)),
    skipped .ifNone "avatar" (.option (.scalar .text)),
    kept "roles" (.list (.scalar (.id .role))),
    skipped .ifNone "joined_at" (.option (.scalar .timestamp)),
    skipped .ifNone "premium_since" (.option (.scalar .timestamp)),
    skipped .ifFalse "deaf" (.scalar .bool),
    skipped .ifFalse "mute" (.scalar .bool),
    skipped .ifFalse "pending" (.scalar .bool),
    skipped .ifNone "communication_disabled_until" (.option (.scalar .timestamp))]

/-- The table of a membership. -/
def memberTable : List Entry :=
  [omitEmpty "user", omitEmpty "nick", omitEmpty "avatar", always "roles", omitEmpty "joined_at",
    omitEmpty "premium_since", omitEmpty "deaf", omitEmpty "mute", omitEmpty "pending",
    omitEmpty "communication_disabled_until"]

/-- The fields of a membership. -/
def memberFields : List (Field EntityName) :=
  Field.listed memberTable memberDeclaration

/-- The fields of a guild user: those of a user, and the membership. -/
def guildUserFields : List (Field EntityName) :=
  userFields ++
    Field.listed [omitEmpty "member"] [skipped .ifNone "member" (.option (.entity .member))]

/-- The keys that a guild user is looked up by. -/
def guildUserKeys : List String :=
  ["id", "username", "discriminator", "avatar", "global_name", "bot", "system", "mfa_enabled",
    "banner", "accent_color", "locale", "verified", "email", "flags", "premium_type",
    "public_flags", "member"]

/-- The declaration of an emoji. -/
def emojiDeclaration : List (Declared EntityName) :=
  [kept "id" (.scalar (.id .emoji)),
    kept "name" (.scalar .text),
    skipped .ifEmptyList "roles" (.list (.scalar (.id .role))),
    kept "user" (.option (.entity .user)),
    skipped .ifFalse "require_colons" (.scalar .bool),
    skipped .ifFalse "managed" (.scalar .bool),
    skipped .ifFalse "animated" (.scalar .bool),
    skipped .ifFalse "available" (.scalar .bool)]

/-- The table of an emoji. -/
def emojiTable : List Entry :=
  [always "id", always "name", omitEmpty "roles", always "user", omitEmpty "require_colons",
    omitEmpty "managed", omitEmpty "animated", omitEmpty "available"]

/-- The fields of an emoji. -/
def emojiFields : List (Field EntityName) :=
  Field.listed emojiTable emojiDeclaration

/-- The declaration of a reaction. -/
def reactionDeclaration : List (Declared EntityName) :=
  [kept "count" (.scalar (.integer .u32)),
    kept "me" (.scalar .bool),
    kept "emoji" (.entity .emoji)]

/-- The table of a reaction. -/
def reactionTable : List Entry :=
  [always "count", always "me", always "emoji"]

/-- The fields of a reaction. -/
def reactionFields : List (Field EntityName) :=
  Field.listed reactionTable reactionDeclaration

/-- The declaration of an attachment. -/
def attachmentDeclaration : List (Declared EntityName) :=
  [kept "id" (.scalar (.id .attachment)),
    kept "filename" (.scalar .text),
    skipped .ifEmptyText "description" (.scalar .text),
    skipped .ifEmptyText "content_type" (.scalar .text),
    kept "size" (.scalar (.integer .u64)),
    kept "url" (.scalar .text),
    kept "proxy_url" (.scalar .text),
    skipped .ifZero "height" (.scalar (.integer .u32)),
    skipped .ifZero "width" (.scalar (.integer .u32)),
    skipped .ifFalse "ephemeral" (.scalar .bool)]

/-- The table of an attachment. -/
def attachmentTable : List Entry :=
  [always "id", always "filename", omitEmpty "description", omitEmpty "content_type",
    always "size", always "url", always "proxy_url", omitEmpty "height", omitEmpty "width",
    omitEmpty "ephemeral"]

/-- The fields of an attachment. -/
def attachmentFields : List (Field EntityName) :=
  Field.listed attachmentTable attachmentDeclaration

/-- The declaration of a sticker item. -/
def stickerItemDeclaration : List (Declared EntityName) :=
  [kept "id" (.scalar (.id .sticker)),
    kept "name" (.scalar .text),
    kept "format_type" (.scalar (.code .stickerFormat))]

/-- The table of a sticker item. -/
def stickerItemTable : List Entry :=
  [always "id", always "name", always "format_type"]

/-- The fields of a sticker item. -/
def stickerItemFields : List (Field EntityName) :=
  Field.listed stickerItemTable stickerItemDeclaration

/-- The declaration of a sticker. -/
def stickerDeclaration : List (Declared EntityName) :=
  [kept "id" (.scalar (.id .sticker)),
    skipped .ifUnset "pack_id" (.scalar (.id .stickerPack)),
    kept "name" (.scalar .text),
    kept "description" (.scalar .text),
    kept "tags" (.scalar .text),
    kept "type" (.option (.scalar (.code .sticker))),
    kept "format_type" (.scalar (.code .stickerFormat)),
    skipped .ifFalse "available" (.scalar .bool),
    skipped .ifUnset "guild_id" (.scalar (.id .guild)),
    skipped .ifNone "user" (.option (.entity .user)),
    skipped .ifNone "sort_value" (.option (.scalar (.integer .u32)))]

/-- The table of a sticker. -/
def stickerTable : List Entry :=
  [always "id", omitEmpty "pack_id", always "name", always "description", always "tags",
    always "type", always "format_type", omitEmpty "available", omitEmpty "guild_id",
    omitEmpty "user", omitEmpty "sort_value"]

/-- The fields of a sticker. -/
def stickerFields : List (Field EntityName) :=
  Field.listed stickerTable stickerDeclaration

/-- The declaration of a channel mention. -/
def channelMentionDeclaration : List (Declared EntityName) :=
  [kept "id" (.scalar (.id .channel)),
    kept "guild_id" (.scalar (.id .guild)),
    kept "type" (.scalar (.code .channel)),
    kept "name" (.scalar .text)]

/-- The table of a channel mention. -/
def channelMentionTable : List Entry :=
  [always "id", always "guild_id", always "type", always "name"]

/-- The fields of a channel mention. -/
def channelMentionFields : List (Field EntityName) :=
  Field.listed channelMentionTable channelMentionDeclaration

/-- The declaration of an activity. -/
def messageActivityDeclaration : List (Declared EntityName) :=
  [kept "type" (.option (.scalar (.code .activity))),
    skipped .ifEmptyText "party_id" (.scalar .text)]

/-- The table of an activity. -/
def messageActivityTable : List Entry :=
  [always "type", omitEmpty "party_id"]

/-- The fields of an activity. -/
def messageActivityFields : List (Field EntityName) :=
  Field.listed messageActivityTable messageActivityDeclaration

/-- The declaration of an application. -/
def messageApplicationDeclaration : List (Declared EntityName) :=
  [kept "id" (.scalar (.id .application)),
    skipped .ifEmptyText "cover_image" (.scalar .text),
    kept "description" (.scalar .text),
    kept "icon" (.scalar .text),
    kept "name" (.scalar .text)]

/-- The table of an application. -/
def messageApplicationTable : List Entry :=
  [always "id", omitEmpty "cover_image", always "description", always "icon", always "name"]

/-- The fields of an application. -/
def messageApplicationFields : List (Field EntityName) :=
  Field.listed messageApplicationTable messageApplicationDeclaration

/-- The declaration of a reference. -/
def messageReferenceDeclaration : List (Declared EntityName) :=
  [skipped .ifUnset "message_id" (.scalar (.id .message)),
    skipped .ifUnset "channel_id" (.scalar (.id .channel)),
    skipped .ifUnset "guild_id" (.scalar (.id .guild))]

/-- The table of a reference. -/
def messageReferenceTable : List Entry :=
  [omitEmpty "message_id", omitEmpty "channel_id", omitEmpty "guild_id"]

/-- The fields of a reference. -/
def messageReferenceFields : List (Field EntityName) :=
  Field.listed messageReferenceTable messageReferenceDeclaration

/-- The declaration of an interaction. -/
def messageInteractionDeclaration : List (Declared EntityName) :=
  [kept "id" (.scalar (.id .interaction)),
    kept "type" (.scalar (.code .interaction)),
    kept "name" (.scalar .text),
    kept "user" (.entity .user),
    skipped .ifNone "member" (.option (.entity .member))]

/-- The table of an interaction. -/
def messageInteractionTable : List Entry :=
  [always "id", always "type", always "name", always "user", omitEmpty "member"]

/-- The fields of an interaction. -/
def messageInteractionFields : List (Field EntityName) :=
  Field.listed messageInteractionTable messageInteractionDeclaration

/-- The declaration of an embed. -/
def embedDeclaration : List (Declared EntityName) :=
  [skipped .ifNone "title" (.option (.scalar .text)),
    skipped .ifNone "type" (.option (.scalar .text)),
    skipped .ifNone "description" (.option (.scalar .text)),
    skipped .ifNone "url" (.option (.scalar .text)),
    skipped .ifNone "timestamp" (.option (.scalar .timestamp)),
    skipped .ifNone "color" (.option (.scalar (.integer .u32))),
    skipped .ifNone "footer" (.option (.entity .embedFooter)),
    skipped .ifNone "image" (.option (.entity .embedImage)),
    skipped .ifNone "thumbnail" (.option (.entity .embedThumbnail)),
    skipped .ifNone "video" (.option (.entity .embedVideo)),
    skipped .ifNone "provider" (.option (.entity .embedProvider)),
    skipped .ifNone "author" (.option (.entity .embedAuthor)),
    skipped .ifEmptyList "fields" (.list (.entity .embedField))]

/-- The table of an embed. -/
def embedTable : List Entry :=
  [omitEmpty "title", omitEmpty "type", omitEmpty "description", omitEmpty "url",
    omitEmpty "timestamp", omitEmpty "color", omitEmpty "footer", omitEmpty "image",
    omitEmpty "thumbnail", omitEmpty "video", omitEmpty "provider", omitEmpty "author",
    omitEmpty "fields"]

/-- The fields of an embed. -/
def embedFields : List (Field EntityName) :=
  Field.listed embedTable embedDeclaration

/-- The declaration of a footer. -/
def embedFooterDeclaration : List (Declared EntityName) :=
  [kept "text" (.scalar .text),
    skipped .ifNone "icon_url" (.option (.scalar .text)),
    skipped .ifNone "proxy_icon_url" (.option (.scalar .text))]

/-- The table of a footer. -/
def embedFooterTable : List Entry :=
  [always "text", omitEmpty "icon_url", omitEmpty "proxy_icon_url"]

/-- The fields of a footer. -/
def embedFooterFields : List (Field EntityName) :=
  Field.listed embedFooterTable embedFooterDeclaration

/-- The declaration of an image. -/
def embedImageDeclaration : List (Declared EntityName) :=
  [kept "url" (.scalar .text),
    skipped .ifNone "proxy_url" (.option (.scalar .text)),
    skipped .ifNone "height" (.option (.scalar (.integer .u32))),
    skipped .ifNone "width" (.option (.scalar (.integer .u32)))]

/-- The table of an image. -/
def embedImageTable : List Entry :=
  [always "url", omitEmpty "proxy_url", omitEmpty "height", omitEmpty "width"]

/-- The fields of an image. -/
def embedImageFields : List (Field EntityName) :=
  Field.listed embedImageTable embedImageDeclaration

/-- The declaration of a thumbnail. -/
def embedThumbnailDeclaration : List (Declared EntityName) :=
  [kept "url" (.scalar .text),
    skipped .ifNone "proxy_url" (.option (.scalar .text)),
    skipped .ifNone "height" (.option (.scalar (.integer .u32))),
    skipped .ifNone "width" (.option (.scalar (.integer .u32)))]

/-- The table of a thumbnail. -/
def embedThumbnailTable : List Entry :=
  [always "url", omitEmpty "proxy_url", omitEmpty "height", omitEmpty "width"]

/-- The fields of a thumbnail. -/
def embedThumbnailFields : List (Field EntityName) :=
  Field.listed embedThumbnailTable embedThumbnailDeclaration

/-- The declaration of a video. -/
def embedVideoDeclaration : List (Declared EntityName) :=
  [skipped .ifNone "url" (.option (.scalar .text)),
    skipped .ifNone "proxy_url" (.option (.scalar .text)),
    skipped .ifNone "height" (.option (.scalar (.integer .u32))),
    skipped .ifNone "width" (.option (.scalar (.integer .u32)))]

/-- The table of a video. -/
def embedVideoTable : List Entry :=
  [omitEmpty "url", omitEmpty "proxy_url", omitEmpty "height", omitEmpty "width"]

/-- The fields of a video. -/
def embedVideoFields : List (Field EntityName) :=
  Field.listed embedVideoTable embedVideoDeclaration

/-- The declaration of a provider. -/
def embedProviderDeclaration : List (Declared EntityName) :=
  [skipped .ifNone "name" (.option (.scalar .text)),
    skipped .ifNone "url" (.option (.scalar .text))]

/-- The table of a provider. -/
def embedProviderTable : List Entry :=
  [omitEmpty "name", omitEmpty "url"]

/-- The fields of a provider. -/
def embedProviderFields : List (Field EntityName) :=
  Field.listed embedProviderTable embedProviderDeclaration

/-- The declaration of an author. -/
def embedAuthorDeclaration : List (Declared EntityName) :=
  [kept "name" (.scalar .text),
    skipped .ifNone "url" (.option (.scalar .text)),
    skipped .ifNone "icon_url" (.option (.scalar .text)),
    skipped .ifNone "proxy_icon_url" (.option (.scalar .text))]

/-- The table of an author. -/
def embedAuthorTable : List Entry :=
  [always "name", omitEmpty "url", omitEmpty "icon_url", omitEmpty "proxy_icon_url"]

/-- The fields of an author. -/
def embedAuthorFields : List (Field EntityName) :=
  Field.listed embedAuthorTable embedAuthorDeclaration

/-- The declaration of a field of an embed. -/
def embedFieldDeclaration : List (Declared EntityName) :=
  [kept "name" (.scalar .text),
    kept "value" (.scalar .text),
    skipped .ifFalse "inline" (.scalar .bool)]

/-- The table of a field of an embed. -/
def embedFieldTable : List Entry :=
  [always "name", always "value", omitEmpty "inline"]

/-- The fields of a field of an embed. -/
def embedFieldFields : List (Field EntityName) :=
  Field.listed embedFieldTable embedFieldDeclaration

/-- The declaration of a message. -/
def messageDeclaration : List (Declared EntityName) :=
  [kept "id" (.scalar (.id .message)),
    kept "channel_id" (.scalar (.id .channel)),
    skipped .ifUnset "guild_id" (.scalar (.id .guild)),
    kept "type" (.scalar (.code .message)),
    kept "flags" (.option (.scalar .flags)),
    kept "tts" (.scalar .bool),
    kept "pinned" (.scalar .bool),
    kept "mention_everyone" (.scalar .bool),
    kept "mentions" (.list (.entity .guildUser)),
    kept "mention_roles" (.list (.scalar (.id .role))),
    skipped .ifEmptyList "mention_channels" (.list (.entity .channelMention)),
    kept "author" (.entity .user),
    kept "content" (.scalar .text),
    skipped .ifNone "timestamp" (.option (.scalar .timestamp)),
    skipped .ifNone "edited_timestamp" (.option (.scalar .timestamp)),
    kept "attachments" (.list (.entity .attachment)),
    kept "embeds" (.list (.entity .embed)),
    skipped .ifEmptyList "reactions" (.list (.entity .reaction)),
    skipped .ifNull "components" (.scalar .opaqueJson),
    skipped .ifEmptyText "nonce" (.scalar .text),
    skipped .ifUnset "webhook_id" (.scalar (.id .webhook)),
    skipped .ifNone "activity" (.option (.entity .messageActivity)),
    skipped .ifNone "application" (.option (.entity .messageApplication)),
    skipped .ifUnset "application_id" (.scalar (.id .application)),
    skipped .ifNone "message_reference" (.option (.entity .messageReference)),
    skipped .ifNone "referenced_message" (.option (.entity .message)),
    skipped .ifNone "interaction" (.option (.entity .messageInteraction)),
    skipped .ifEmptyList "sticker_items" (.list (.entity .stickerItem))]

/-- The table of a message. -/
def messageTable : List Entry :=
  [always "id", always "channel_id", omitEmpty "guild_id", always "type", always "flags",
    always "tts", always "pinned", always "mention_everyone", always "mentions",
    always "mention_roles", omitEmpty "mention_channels", always "author", always "content",
    omitEmpty "timestamp", omitEmpty "edited_timestamp", always "attachments", always "embeds",
    omitEmpty "reactions", omitEmpty "components", omitEmpty "nonce", omitEmpty "webhook_id",
    omitEmpty "activity", omitEmpty "application", omitEmpty "application_id",
    omitEmpty "message_reference", omitEmpty "referenced_message", omitEmpty "interaction",
    omitEmpty "sticker_items"]

/-- The fields of a message. -/
def messageFields : List (Field EntityName) :=
  Field.listed messageTable messageDeclaration

/-- The fields of an entity. -/
def fields : EntityName → List (Field EntityName)
  | user => userFields
  | member => memberFields
  | guildUser => guildUserFields
  | emoji => emojiFields
  | reaction => reactionFields
  | attachment => attachmentFields
  | stickerItem => stickerItemFields
  | sticker => stickerFields
  | channelMention => channelMentionFields
  | messageActivity => messageActivityFields
  | messageApplication => messageApplicationFields
  | messageReference => messageReferenceFields
  | messageInteraction => messageInteractionFields
  | embed => embedFields
  | embedFooter => embedFooterFields
  | embedImage => embedImageFields
  | embedThumbnail => embedThumbnailFields
  | embedVideo => embedVideoFields
  | embedProvider => embedProviderFields
  | embedAuthor => embedAuthorFields
  | embedField => embedFieldFields
  | message => messageFields

/-- The keys that the members of an entity are looked up by.  They are those of its fields;
only for guild users, whose fields come from two entities, they are listed by themselves. -/
def keys : EntityName → List String
  | guildUser => guildUserKeys
  | name => name.fields.map (·.key)

/-- Only guild users extend another entity. -/
def layout : EntityName → Layout
  | guildUser => .extending userFields.length
  | _ => .plain

end EntityName

/-- The catalog of the chat service. -/
@[reducible] def Chat : Catalog where
  Name := EntityName
  fields := EntityName.fields
  keys := EntityName.keys
  title := EntityName.title
  layout := EntityName.layout
  depth := 3
  grounded := by intro name; cases name <;> rfl

end ChatCodec
