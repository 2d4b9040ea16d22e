import ChatCodec.Streaming.Decode
import ChatCodec.Streaming.Encode
import ChatCodec.Entity.Catalog

/-!
# The command line

The program decodes one payload as a named entity and prints it again.  A run has
two steps.  `Invocation.plan` looks at the arguments and at the setting for key
matching, and says what is to be read; `Job.run` does the work on the payload that
was read.  Reading itself is left to the caller.

The setting is looked at before the arguments, and the name of the entity only after
the payload has been read.
-/

namespace ChatCodec

set_option autoImplicit false

/-- How the program was called. -/
structure Invocation where
  arguments : List String
  /-- The setting for key matching, if there is one. -/
  setting : Option String
  deriving DecidableEq, Repr

/-- What a run comes to. -/
structure Verdict where
  exit : UInt8
  /-- What is printed. -/
  output : Bytes
  /-- What is told besides about a run that failed, in whole lines. -/
  notice : String
  deriving DecidableEq, Repr

/-- A run that failed. -/
def Verdict.failure (exit : UInt8) (notice : String) : Verdict := ⟨exit, [], notice ++ "\n"⟩

/-- The environment variable that holds the setting. -/
def settingVariable : String := "DISCORD_CODEC_KEY_MATCHING"

/-- How the program is to be called. -/
def usage : String :=
  "usage: discord-codec <emoji|message|sticker|attachment|reaction|user> [file]"

/-- A payload to be read and decoded. -/
structure Job where
  /-- The name of the entity, as it was given. -/
  entity : String
  /-- The file with the payload, which otherwise comes from standard input. -/
  path : Option String
  matching : KeyMatching
  deriving DecidableEq, Repr

/-- What is to be done. -/
def Invocation.plan (invocation : Invocation) : Except Verdict Job :=
  match KeyMatching.ofSettings invocation.setting with
  | .error refusal => .error (.failure 1 ("invalid codec configuration: " ++ refusal))
  | .ok matching =>
      match invocation.arguments with
      | [] => .error (.failure 2 usage)
      | entity :: rest => .ok ⟨entity, rest.head?, matching⟩

namespace Job

/-- The entities that can be named. -/
def entities : List (String × EntityName) :=
  [("emoji", .emoji), ("message", .message), ("sticker", .sticker),
    ("attachment", .attachment), ("reaction", .reaction), ("user", .user)]

/-- The entity that is named, if it can be. -/
def entity? (job : Job) : Option EntityName := entities.lookup job.entity

/-- Decodes a payload as an entity and prints the entity. -/
def normalize (name : EntityName) (matching : KeyMatching) (payload : Bytes) :
    Except DecodeError Bytes :=
  (decodeDocument Chat matching name payload).result.map fun record =>
    (Val.entity record : Chat.Value (.entity name)).toBytes

/-- Does the work on the payload that was read. -/
def run (job : Job) (payload : Bytes) : Verdict :=
  match job.entity? with
  | none => .failure 2 ("unknown entity `" ++ job.entity ++ "`\n" ++ usage)
  | some name =>
      match normalize name job.matching payload with
      | .ok printed => ⟨0, printed ++ [Ascii.lineFeed], ""⟩
      | .error error => .failure 1 ("rejected payload: " ++ error.message)

/-- The payload could not be read. -/
def unreadable (reason : String) : Verdict := .failure 1 ("failed to read payload: " ++ reason)

end Job

end ChatCodec
