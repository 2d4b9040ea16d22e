import ChatCodec.Entity.Catalog
import ChatCodec.Entity.Cdn

/-!
# Users and memberships

What can be told of a user from the user's record: the tag, the text of a mention,
and the address of the avatar.  A guild user is looked at as a user and as a
membership.

Fields are reached by their numbers in the catalog (`Record.get`), and the type of a
field follows from its shape there.
-/

namespace ChatCodec

set_option autoImplicit false

/-- A user. -/
abbrev User : Type := Chat.Entity .user

/-- A user's membership in a guild. -/
abbrev Member : Type := Chat.Entity .member

/-- A user with the membership that accompanies a mention. -/
abbrev GuildUser : Type := Chat.Entity .guildUser

namespace User

def id (user : User) : Id .user := (user.get ⟨0, by decide⟩).get

def username (user : User) : String := (user.get ⟨1, by decide⟩).get

def discriminator (user : User) : String := (user.get ⟨2, by decide⟩).get

/-- The hash of the user's avatar, if there is one. -/
def avatar? (user : User) : Option String := (user.get ⟨3, by decide⟩).get?.map Val.get

def globalName? (user : User) : Option String := (user.get ⟨4, by decide⟩).get?.map Val.get

/-- Hashes of animated avatars begin with `a_`. -/
def avatarExtension (hash : String) : String :=
  if "a_".toList.isPrefixOf hash.toList then "gif" else "png"

/-- The address of the user's avatar. -/
def avatarUrl? (user : User) : Option String :=
  user.avatar?.map fun hash =>
    Cdn.image "avatars" (user.id.text ++ "/" ++ hash) (avatarExtension hash)

/-- The name with the discriminator, which some users do not have. -/
def tag (user : User) : String :=
  if user.discriminator = "0" ∨ user.discriminator = "" then user.username
  else user.username ++ "#" ++ user.discriminator

/-- The text that mentions the user. -/
def mention (user : User) : String := "<@" ++ user.id.text ++ ">"

end User

namespace Member

/-- The user, unless the membership is part of a guild user. -/
def user? (member : Member) : Option User := (member.get ⟨0, by decide⟩).get?.map Val.record

def nick? (member : Member) : Option String := (member.get ⟨1, by decide⟩).get?.map Val.get

/-- The nickname, or else the name of the user. -/
def displayName? (member : Member) : Option String :=
  member.nick?.or (member.user?.map fun user => user.globalName?.getD user.username)

end Member

namespace GuildUser

/-- The user. -/
def user (guildUser : GuildUser) : User := guildUser.front EntityName.userFields

/-- The membership, if it is known. -/
def member? (guildUser : GuildUser) : Option Member :=
  (guildUser.get ⟨16, by decide⟩).get?.map Val.record

end GuildUser

end ChatCodec
