import ChatCodec.CommandLine
import ChatCodec.Proofs.Canonical
import ChatCodec.Proofs.Json.OneLine
import ChatCodec.Proofs.RoundTrip

/-!
# The program is a normaliser

A call that names an entity and has a proper setting either refuses its payload or prints one
line (`Invocation.normalizes`).  The line is the form of the record that the payload is decoded
to.  This record is canonical, so if it is also stable its form tells which record it is, and
the call prints the same line again when it is given this line; so does any other call that
names the same entity.

The form is put back with a line feed behind it, which is white space to the decoder, and keys
in it are those of the fields to the byte, which resolve alike under every matching.
-/

namespace ChatCodec

set_option autoImplicit false

/-! ## Calls -/

namespace Verdict

/-- The payload was refused, and nothing was printed. -/
def IsRefusal (verdict : Verdict) : Prop := verdict.exit = 1 ∧ verdict.output = []

/-- One line was printed. -/
def IsLine (verdict : Verdict) : Prop :=
  verdict.exit = 0 ∧
    ∃ line, Ascii.lineFeed ∉ line ∧ verdict.output = line ++ [Ascii.lineFeed]

end Verdict

namespace Invocation

/-- The verdict on a call whose payload is read without a failure. -/
def verdictOn (call : Invocation) (payload : Bytes) : Verdict :=
  match call.plan with
  | .error verdict => verdict
  | .ok job => job.run payload

/-- The call names an entity, and its setting for key matching, which may be absent, a
matching. -/
structure Names (call : Invocation) (name : EntityName) (matching : KeyMatching) : Prop where
  entity : ∃ word rest, call.arguments = word :: rest ∧ (word, name) ∈ Job.entities
  setting : KeyMatching.ofSettings call.setting = .ok matching

variable {call : Invocation} {name : EntityName} {matching : KeyMatching} {payload : Bytes}

/-- No two entities have the same word. -/
theorem lookup_entities : ∀ entry ∈ Job.entities,
    Job.entities.lookup entry.1 = some entry.2 := by
  decide

/-- **A call does the job that it names.** -/
theorem Names.exists_job (names : call.Names name matching) :
    ∃ job : Job, job.entity? = some name ∧ job.matching = matching ∧
      ∀ payload, call.verdictOn payload = job.run payload := by
  obtain ⟨⟨word, rest, arguments, named⟩, setting⟩ := names
  refine ⟨⟨word, rest.head?, matching⟩, lookup_entities (word, name) named, rfl, fun payload => ?_⟩
  rw [verdictOn, plan, setting, arguments]

/-- A payload that cannot be decoded is refused. -/
theorem Names.isRefusal (names : call.Names name matching) {error : DecodeError}
    (rejected : (decodeDocument Chat matching name payload).result = .error error) :
    (call.verdictOn payload).IsRefusal := by
  obtain ⟨job, named, rfl, runs⟩ := names.exists_job
  rw [runs, Job.run, named]
  simp only [Job.normalize, rejected]
  exact ⟨rfl, rfl⟩

/-- The form of the record that a payload is decoded to is printed, with a line feed. -/
theorem Names.verdictOn_of_decoded (names : call.Names name matching) {record : Chat.Entity name}
    (decoded : (decodeDocument Chat matching name payload).result = .ok record) :
    call.verdictOn payload =
      ⟨0, (Val.entity record : Chat.Value (.entity name)).toBytes ++ [Ascii.lineFeed], ""⟩ := by
  obtain ⟨job, named, rfl, runs⟩ := names.exists_job
  rw [runs, Job.run, named]
  simp only [Job.normalize, decoded, Except.map]

/-- What is printed is one line. -/
theorem Names.isLine (names : call.Names name matching) {record : Chat.Entity name}
    (decoded : (decodeDocument Chat matching name payload).result = .ok record) :
    (call.verdictOn payload).IsLine := by
  rw [names.verdictOn_of_decoded decoded, Val.toBytes_eq Chat.isConsistent]
  exact ⟨rfl, _, (Json.Value.isUnbroken_print _).lineFeed_not_mem, rfl⟩

/-! ## Printing again -/

/-- **What is printed of a stable record is decoded to this record again**, under every
matching. -/
theorem decodeDocument_printed {record : Chat.Entity name}
    (decoded : (decodeDocument Chat matching name payload).result = .ok record)
    (stable : record.all Scalar.isStable = true) (other : KeyMatching) :
    (decodeDocument Chat other name ((Val.entity record : Chat.Value (.entity name)).toBytes ++
      [Ascii.lineFeed])).result = .ok record := by
  have faithful : record.isFaithful = true :=
    record.isFaithful_of_isCanonical (decodeDocument_isCanonical decoded) stable
  rw [Val.toBytes_eq Chat.isConsistent]
  exact decodeDocument_write_append Chat.hasKeys Chat.isDistinct faithful
    (List.forall_mem_singleton.mpr rfl)

/-- **The program is a normaliser.**  A call that names an entity refuses a payload if this
cannot be decoded, and otherwise prints one line, the form of the record.  Every call that names
the same entity prints this line again when it is given the line, if the record has no leap
second and no double in opaque JSON. -/
theorem normalizes (names : call.Names name matching) (payload : Bytes) :
    ((call.verdictOn payload).IsRefusal ∨ (call.verdictOn payload).IsLine) ∧
      ((call.verdictOn payload).IsRefusal ↔
        ∃ error, (decodeDocument Chat matching name payload).result = .error error) ∧
      ∀ record, (decodeDocument Chat matching name payload).result = .ok record →
        (call.verdictOn payload).output =
          (Val.entity record : Chat.Value (.entity name)).toBytes ++ [Ascii.lineFeed] ∧
        (record.all Scalar.isStable = true →
          ∀ (again : Invocation) (other : KeyMatching), again.Names name other →
            (again.verdictOn (call.verdictOn payload).output).exit = 0 ∧
              (again.verdictOn (call.verdictOn payload).output).output =
                (call.verdictOn payload).output) := by
  refine ⟨?_, ?_, ?_⟩
  · cases decoded : (decodeDocument Chat matching name payload).result with
    | error error => exact .inl (names.isRefusal decoded)
    | ok record => exact .inr (names.isLine decoded)
  · constructor
    · intro refused
      cases decoded : (decodeDocument Chat matching name payload).result with
      | error error => exact ⟨error, rfl⟩
      | ok record => exact absurd ((names.isLine decoded).1.symm.trans refused.1) (by decide)
    · rintro ⟨error, rejected⟩
      exact names.isRefusal rejected
  · intro record decoded
    rw [names.verdictOn_of_decoded decoded]
    refine ⟨rfl, fun stable again other namesAgain => ?_⟩
    rw [namesAgain.verdictOn_of_decoded (decodeDocument_printed decoded stable other)]
    exact ⟨rfl, rfl⟩

/-- An emoji is asked for, and nothing is set. -/
def emojiCall : Invocation := ⟨["emoji"], none⟩

/-- An emoji from a file is asked for, and keys are to match to the byte. -/
def exactEmojiCall : Invocation := ⟨["emoji", "emoji.json"], some " Exact "⟩

/-- An emoji with a key of its own spelling, a member that no field has, commas before closing
brackets, and half a surrogate pair. -/
def untidyEmoji : Bytes :=
  bytesOf "\x7b \"requireColons\": true, \"shiny\": [1,], \"name\": \"\\ud83d\", \x7d"

/-- The emoji is tidied up, and is left as it is from then on. -/
theorem normalizes_emoji :
    (emojiCall.verdictOn untidyEmoji).output = bytesOf
        "\x7b\"id\":null,\"name\":\"\ufffd\",\"user\":null,\"require_colons\":true\x7d\n" ∧
      (emojiCall.verdictOn untidyEmoji).IsLine ∧
      (exactEmojiCall.verdictOn (emojiCall.verdictOn untidyEmoji).output).exit = 0 ∧
      (exactEmojiCall.verdictOn (emojiCall.verdictOn untidyEmoji).output).output =
        (emojiCall.verdictOn untidyEmoji).output := by
  have names : emojiCall.Names .emoji .lenient :=
    ⟨⟨"emoji", [], rfl, by decide⟩, rfl⟩
  have namesAgain : exactEmojiCall.Names .emoji .exact :=
    ⟨⟨"emoji", ["emoji.json"], rfl, by decide⟩, by decide +kernel⟩
  have succeeded : (decodeDocument Chat .lenient .emoji untidyEmoji).error = none := by
    decide +kernel
  have decoded : (decodeDocument Chat .lenient .emoji untidyEmoji).result =
      .ok (decodeDocument Chat .lenient .emoji untidyEmoji).value := by
    rw [Outcome.result, succeeded]
  have stable : (decodeDocument Chat .lenient .emoji untidyEmoji).value.all Scalar.isStable =
      true := by
    decide +kernel
  obtain ⟨ends, refused, again⟩ := normalizes names untidyEmoji
  refine ⟨by decide +kernel, ends.resolve_left fun refusal => ?_,
    (again _ decoded).2 stable exactEmojiCall .exact namesAgain⟩
  obtain ⟨error, rejected⟩ := refused.mp refusal
  cases decoded.symm.trans rejected

end Invocation

end ChatCodec
