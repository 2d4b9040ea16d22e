/-!
# Addresses of images

Images of users, emojis and stickers are served from one place, each kind from its
own folder.
-/

namespace ChatCodec

set_option autoImplicit false

namespace Cdn

/-- Where images are served from. -/
def base : String := "https://cdn.discordapp.com"

/-- The address of an image. -/
def image (folder name extension : String) : String :=
  base ++ "/" ++ folder ++ "/" ++ name ++ "." ++ extension

end Cdn

end ChatCodec
