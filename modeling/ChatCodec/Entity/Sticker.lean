import ChatCodec.Entity.Catalog
import ChatCodec.Entity.Cdn
import ChatCodec.Text.Blank

/-!
# Stickers

Addresses of stickers, and the tags that a sticker is found by.  The tags are one
text in which commas divide; blanks around a tag do not count, and neither do tags
that consist of nothing else.
-/

namespace ChatCodec

set_option autoImplicit false

/-- The part of a sticker that is sent with messages. -/
abbrev StickerItem : Type := Chat.Entity .stickerItem

/-- A sticker that can be sent in messages. -/
abbrev Sticker : Type := Chat.Entity .sticker

/-! ## Addresses -/

/-- The address of a sticker's image. -/
def stickerUrl (id : Id .sticker) (format : StickerFormatType) : String :=
  Cdn.image "stickers" id.text format.extension

namespace StickerItem

def id (item : StickerItem) : Id .sticker := (item.get ⟨0, by decide⟩).get

def format (item : StickerItem) : StickerFormatType := (item.get ⟨2, by decide⟩).get

/-- The address of the sticker's image. -/
def url (item : StickerItem) : String := stickerUrl item.id item.format

end StickerItem

/-! ## Tags -/

namespace Tags

/-- The pieces between the commas of a text. -/
def pieces : List Char → List (List Char)
  | [] => [[]]
  | character :: rest =>
      if character = ',' then [] :: pieces rest
      else
        match pieces rest with
        | [] => [[character]]
        | piece :: others => (character :: piece) :: others

/-- The tags of a text. -/
def ofText (text : String) : List String :=
  (((pieces text.toList).map Blank.trim).filter (! ·.isEmpty)).map String.ofList

end Tags

namespace Sticker

def id (sticker : Sticker) : Id .sticker := (sticker.get ⟨0, by decide⟩).get

/-- The pack that the sticker belongs to, if it is set. -/
def packId (sticker : Sticker) : Id .stickerPack := (sticker.get ⟨1, by decide⟩).get

/-- The tags as one text. -/
def tags (sticker : Sticker) : String := (sticker.get ⟨4, by decide⟩).get

def format (sticker : Sticker) : StickerFormatType := (sticker.get ⟨6, by decide⟩).get

/-- The tags that the sticker is found by. -/
def tagList (sticker : Sticker) : List String := Tags.ofText sticker.tags

/-- The address of the sticker's image. -/
def url (sticker : Sticker) : String := stickerUrl sticker.id sticker.format

end Sticker

end ChatCodec
