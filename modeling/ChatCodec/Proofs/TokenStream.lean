import ChatCodec.Proofs.Streaming.Reports

/-!
# Decoding is a function of the tokens

A scan of a payload reads one token after another, up to the first end or error.  What it reads
is, for each token, its kind, the bytes captured for it, and the fault if there is one
(`Lexer.readings`).

Payloads whose scans read the same are decoded alike into every shape without opaque JSON
(`decodePayload_of_readings`): to the same value, or with errors that say the same and differ at
most in their offsets.  The lexers of the two decodings need not have anything else in common;
wherever both stand, what is left for them to read is the same (`Lexeme.Akin`), and decoding asks
for nothing more (`Lexeme.Akin.alikeness`).

Payloads that differ in the white space between their tokens, and in how their texts and keys
are escaped, read the same (`Respelled.readings_eq`).
-/

namespace ChatCodec

set_option autoImplicit false

open Scanned (Reads)

/-! ## What a scan reads -/

/-- What is read of one token: its kind, the bytes captured for it, and the fault. -/
structure Reading where
  token : Token
  output : Bytes
  fault : Option Fault
  deriving DecidableEq, Repr

/-- What is read of one token. -/
def Lexeme.reading (lexeme : Lexeme) : Reading :=
  ⟨lexeme.token, lexeme.lexer.output, lexeme.lexer.fault⟩

namespace Lexer

/-- What a full scan reads, up to and with the first end or error. -/
def readings (lexer : Lexer) : List Reading :=
  lexer.stream.lexemes.map Lexeme.reading ++ [lexer.stream.last.reading]

variable {lexer lexer' : Lexer}

theorem readings_of_going (going : lexer.scan.token.isFinal = false) :
    lexer.readings = lexer.scan.reading :: lexer.scan.lexer.readings := by
  rw [readings, stream_of_going going]
  rfl

theorem readings_of_final (final : lexer.scan.token.isFinal = true) :
    lexer.readings = [lexer.scan.reading] := by
  rw [readings, stream_of_final final]
  rfl

/-- A scan begins with the next token. -/
theorem exists_readings (lexer : Lexer) :
    ∃ others, lexer.readings = lexer.scan.reading :: others := by
  cases going : lexer.scan.token.isFinal with
  | false => exact ⟨_, readings_of_going going⟩
  | true => exact ⟨_, readings_of_final going⟩

/-- The end is read again and again. -/
theorem readings_of_eof (ended : lexer.scan.token = .eof) :
    lexer.scan.lexer.readings = [⟨.eof, [], none⟩] := by
  obtain ⟨spaces, -, -, -, reads, going, -⟩ := @exists_spaces lexer (by rw [ended]; decide)
  rw [ended] at reads
  obtain ⟨-, nothing⟩ := reads.eq_nil
  have scan := scan_of_reads going
    (show lexer.scan.lexer.ahead = [] ++ ([] ++ []) from nothing) (List.forall_mem_nil _)
    Ascii.stops_nil .eof
  have final : lexer.scan.lexer.scan.token.isFinal = true := by rw [scan]; rfl
  rw [readings_of_final final, scan]
  rfl

end Lexer

/-! ## Tokens behind which the same is read -/

/-- The same is read of both tokens, and, unless it is an error, behind them. -/
structure Lexeme.Akin (lexeme lexeme' : Lexeme) : Prop where
  reading_eq : lexeme'.reading = lexeme.reading
  behind : lexeme.token ≠ .error → lexeme'.lexer.readings = lexeme.lexer.readings

section

variable {lexer lexer' : Lexer}

/-- **Tokens behind which the same is read are alike** for decoding. -/
theorem Lexeme.Akin.alikeness :
    Alikeness Lexeme.Akin fun lexer lexer' => lexer'.readings = lexer.readings where
  token_eq akin := congrArg Reading.token akin.reading_eq
  output_eq akin := congrArg Reading.output akin.reading_eq
  fault_eq akin := congrArg Reading.fault akin.reading_eq
  lands akin := akin.behind

/-- Where the same is read, the next tokens are akin. -/
theorem Lexer.akin_scan (same : lexer'.readings = lexer.readings) :
    lexer.scan.Akin lexer'.scan := by
  obtain ⟨others, first⟩ := lexer.exists_readings
  obtain ⟨others', first'⟩ := lexer'.exists_readings
  have reading : lexer'.scan.reading = lexer.scan.reading := by
    rw [first, first'] at same
    exact (List.cons.inj same).1
  have token : lexer'.scan.token = lexer.scan.token := congrArg Reading.token reading
  refine ⟨reading, fun read => ?_⟩
  by_cases ended : lexer.scan.token = .eof
  · rw [readings_of_eof ended, readings_of_eof (token.trans ended)]
  · have going : lexer.scan.token.isFinal = false := by
      cases kind : lexer.scan.token <;> first
        | rfl
        | exact absurd kind read
        | exact absurd kind ended
    rw [readings_of_going going, readings_of_going (token.symm ▸ going)] at same
    exact (List.cons.inj same).2

theorem Lexer.akin_stream {lexer lexer' : Lexer} (same : lexer'.readings = lexer.readings) :
    List.Forall₂ Lexeme.Akin lexer.stream.lexemes lexer'.stream.lexemes ∧
      lexer.stream.last.Akin lexer'.stream.last := by
  have akin := akin_scan same
  have final : lexer'.scan.token.isFinal = lexer.scan.token.isFinal := by
    rw [Lexeme.Akin.alikeness.token_eq akin]
  cases going : lexer.scan.token.isFinal with
  | false =>
      have shorter := lexer.scan_ahead_lt going
      obtain ⟨all, last⟩ := akin_stream (akin.behind (ne_error_of_going going))
      rw [stream_of_going going, stream_of_going (final.trans going)]
      exact ⟨.cons akin all, last⟩
  | true =>
      rw [stream_of_final going, stream_of_final (final.trans going)]
      exact ⟨.nil, akin⟩
termination_by lexer.ahead.length

/-- Where the same is read, the values that come next have akin tokens. -/
theorem Lexer.akin_tree (same : lexer'.readings = lexer.readings) :
    (lexer.scan.lexer.tree lexer.scan.token).Related Lexeme.Akin
      (lexer'.scan.lexer.tree lexer'.scan.token) := by
  have akin := akin_scan same
  have token : lexer'.scan.token = lexer.scan.token := Lexeme.Akin.alikeness.token_eq akin
  have role : ∀ lexeme lexeme' : Lexeme, lexeme.Akin lexeme' →
      lexeme.token.role = lexeme'.token.role :=
    fun _ _ akin => by rw [Lexeme.Akin.alikeness.token_eq akin]
  rw [Lexer.tree, Lexer.tree]
  by_cases opens : lexer.scan.token.isOpening = true
  · have read : lexer.scan.token ≠ .error := by
      intro error
      rw [error] at opens
      cases opens
    obtain ⟨all, last⟩ := akin_stream (akin.behind read)
    rw [if_pos opens, if_pos (by rw [token, opens])]
    exact .group akin (Body.related_levels role last all).1
  · rw [if_neg opens, if_neg (by rw [token]; exact opens)]
    exact .leaf akin

end

/-! ## Other spellings -/

/-- The payloads have the same tokens, each with white space of its own in front of it and with
a spelling of its own, up to some place from which on they are the same. -/
inductive Respelled : Bytes → Bytes → Prop where
  | same {blanks blanks' : Bytes} (blank : ∀ byte ∈ blanks, Ascii.isSpace byte = true)
      (blank' : ∀ byte ∈ blanks', Ascii.isSpace byte = true) (text : Bytes) :
      Respelled (blanks ++ text) (blanks' ++ text)
  | token {blanks blanks' word word' output rest rest' : Bytes} {token : Token}
      (blank : ∀ byte ∈ blanks, Ascii.isSpace byte = true)
      (blank' : ∀ byte ∈ blanks', Ascii.isSpace byte = true)
      (reads : Reads token word output rest) (reads' : Reads token word' output rest')
      (following : Respelled rest rest') :
      Respelled (blanks ++ (word ++ rest)) (blanks' ++ (word' ++ rest'))

/-- Texts that mean the same may be spelled with other escapes. -/
theorem Respelled.text {blanks blanks' body body' rest rest' : Bytes} {units units' : List TextUnit}
    (blank : ∀ byte ∈ blanks, Ascii.isSpace byte = true)
    (blank' : ∀ byte ∈ blanks', Ascii.isSpace byte = true)
    (isText : TextScan.IsText body units) (isText' : TextScan.IsText body' units')
    (same : TextUnit.spell units' = TextUnit.spell units) (following : Respelled rest rest') :
    Respelled (blanks ++ (Ascii.quote :: body ++ rest))
      (blanks' ++ (Ascii.quote :: body' ++ rest')) :=
  .token blank blank' (.text isText rest) (same ▸ .text isText' rest') following

theorem Parting.Copies.reading_eq {p : Parting} {lexeme lexeme' : Lexeme}
    (copies : p.Copies lexeme lexeme') : lexeme'.reading = lexeme.reading := by
  rw [Lexeme.reading, Lexeme.reading, copies.token_eq, copies.output_eq, copies.fault_eq]

/-- From the same bytes on the same is read. -/
theorem Lexer.Alike.readings_eq {lexer lexer' : Lexer} (alike : lexer.Alike lexer') :
    lexer'.readings = lexer.readings := by
  obtain ⟨all, last⟩ := alike.faces.copies_stream_of_closed
  rw [readings, readings, last.reading_eq]
  congr 1
  generalize lexer.stream.lexemes = lexemes at all
  generalize lexer'.stream.lexemes = lexemes' at all
  induction all with
  | nil => rfl
  | cons copies _ ih => rw [List.map_cons, List.map_cons, copies.reading_eq, ih]

/-- What is read is a matter of the next token. -/
theorem Lexer.readings_of_scan {lexer lexer' : Lexer} (same : lexer'.scan = lexer.scan) :
    lexer'.readings = lexer.readings := by
  cases going : lexer.scan.token.isFinal with
  | false => rw [readings_of_going going, readings_of_going (same ▸ going), same]
  | true => rw [readings_of_final going, readings_of_final (same ▸ going), same]

/-- **White space and spellings are not read.** -/
theorem Respelled.readings_eq {payload payload' : Bytes} (respelled : Respelled payload payload') :
    ∀ {lexer lexer' : Lexer}, lexer.Faces payload → lexer'.Faces payload' →
      lexer'.readings = lexer.readings := by
  induction respelled with
  | same blank blank' text =>
      intro lexer lexer' faces faces'
      obtain ⟨behind, stands, scan⟩ := (faces.approaches.skip blank).exists_faces
      obtain ⟨behind', stands', scan'⟩ := (faces'.approaches.skip blank').exists_faces
      have alike : behind.Alike behind' := ⟨text, stands, stands'⟩
      calc
        lexer'.readings = behind'.readings := Lexer.readings_of_scan scan'.symm
        _ = behind.readings := alike.readings_eq
        _ = lexer.readings := Lexer.readings_of_scan scan
  | @token _ _ word word' output rest rest' token blank blank' reads reads' following ih =>
      intro lexer lexer' faces faces'
      have scan := Lexer.scan_of_reads faces.going faces.ahead_eq blank reads.stops_space reads
      have scan' :=
        Lexer.scan_of_reads faces'.going faces'.ahead_eq blank' reads'.stops_space reads'
      have reading : lexer'.scan.reading = lexer.scan.reading := by rw [scan, scan']; rfl
      have same : lexer'.scan.token = lexer.scan.token := congrArg Reading.token reading
      cases going : lexer.scan.token.isFinal with
      | false =>
          have behind : lexer'.scan.lexer.readings = lexer.scan.lexer.readings :=
            ih (by rw [scan]; exact ⟨rfl, rfl⟩) (by rw [scan']; exact ⟨rfl, rfl⟩)
          rw [Lexer.readings_of_going going, Lexer.readings_of_going (same ▸ going), reading,
            behind]
      | true =>
          rw [Lexer.readings_of_final going, Lexer.readings_of_final (same ▸ going), reading]

/-! ## Shapes without opaque JSON -/

/-- Whether neither scalars of that kind nor certain entities are in a shape, as far as the
entities are not looked into. -/
def Shape.keepsOut {Name : Type} (kind : Scalar) (entities : Name → Bool) : Shape Name → Bool
  | .scalar other => other != kind
  | .option inner => inner.keepsOut kind entities
  | .list inner => inner.keepsOut kind entities
  | .entity name => !entities name

/-- **If only certain entities have scalars of some kind in their fields**, or one another, then
no shape holds such scalars but through them. -/
theorem Catalog.not_holds_of_keepsOut {C : Catalog} {kind : Scalar} {entities : C.Name → Bool}
    (closed : ∀ name, entities name = false →
      ∀ field ∈ C.fields name, field.shape.keepsOut kind entities = true)
    {shape : C.Shape} (outside : shape.keepsOut kind entities = true) : ¬ C.Holds kind shape := by
  intro holds
  induction holds with
  | scalar =>
      rw [Shape.keepsOut, bne_self_eq_false] at outside
      cases outside
  | option _ ih => exact ih outside
  | list _ ih => exact ih outside
  | entity isIn _ ih =>
      rw [Shape.keepsOut, Bool.not_eq_true'] at outside
      exact ih (closed _ outside _ isIn)

/-- Whether the entity is a message. -/
def EntityName.isMessage (name : EntityName) : Bool := decide (name = .message)

/-- Among the entities of the chat service only a message holds opaque JSON. -/
theorem Chat.holds_opaqueJson_iff (name : EntityName) :
    Chat.Holds .opaqueJson (.entity name) ↔ name = .message := by
  constructor
  · intro holds
    by_contra other
    have closed : ∀ name : EntityName, name.isMessage = false →
        ∀ field ∈ Chat.fields name,
          field.shape.keepsOut .opaqueJson EntityName.isMessage = true := by
      intro name
      cases name <;> decide +kernel
    refine Catalog.not_holds_of_keepsOut closed ?_ holds
    rw [Shape.keepsOut, EntityName.isMessage, decide_eq_false other]
    rfl
  · rintro rfl
    exact .entity (List.mem_of_getElem? (i := 18) rfl) .scalar

/-! ## Payloads -/

/-- **Decoding is a function of the tokens alone.**  Whatever the configuration, two payloads
whose scans read the same are decoded into a shape without opaque JSON to the same value, or with
errors that say the same.  So are payloads that differ only in white space between tokens and in
the spelling of tokens. -/
theorem decodePayload_of_readings (C : Catalog) (matching : KeyMatching) (shape : C.Shape)
    (plain : ¬ C.Holds .opaqueJson shape) :
    (∀ payload payload', (Lexer.ofBytes payload').readings = (Lexer.ofBytes payload).readings →
      (decodePayload C matching shape payload').reported =
        (decodePayload C matching shape payload).reported) ∧
    (∀ payload payload', Respelled payload payload' →
      (decodePayload C matching shape payload').reported =
        (decodePayload C matching shape payload).reported) := by
  have alone : ∀ payload payload',
      (Lexer.ofBytes payload').readings = (Lexer.ofBytes payload).readings →
        (decodePayload C matching shape payload').reported =
          (decodePayload C matching shape payload).reported := by
    intro payload payload' same
    have A := Lexeme.Akin.alikeness
    have akin := Lexer.akin_scan same
    rw [decodePayload, decodePayload]
    simp only [A.token_eq akin]
    split
    · have tree := Lexer.akin_tree same
      rw [A.token_eq akin] at tree
      have decoded : (decodeInto C matching (C.blank shape) _ _).Agrees _
          (decodeInto C matching _ _ _) :=
        decodeTree_agrees A tree (fun holds => absurd holds plain) (C.blank shape)
      exact (decoded.follow fun _ same => A.finishWith_agrees (Lexer.akin_scan same) _).reported_eq
    · exact (A.refuse akin (C.blank shape) .value).reported_eq
  exact ⟨alone, fun payload payload' respelled =>
    alone payload payload' (respelled.readings_eq ⟨rfl, rfl⟩ ⟨rfl, rfl⟩)⟩

/-- An emoji. -/
def plainEmoji : Bytes := bytesOf "\x7b\"name\":\"A\"\x7d"

/-- The emoji with escapes and white space. -/
def spelledEmoji : Bytes := bytesOf "\x7b \"n\\u0061me\":\n\"\\u0041\"\x7d "

theorem respelled_emoji : Respelled plainEmoji spelledEmoji := by
  have plain : plainEmoji = [] ++ ([Ascii.openBrace] ++ ([] ++ (Ascii.quote :: bytesOf "name\"" ++
      ([] ++ ([Ascii.colon] ++ ([] ++ (Ascii.quote :: bytesOf "A\"" ++
        ([] ++ ([Ascii.closeBrace] ++ ([] ++ [])))))))))) := by
    decide +kernel
  have spelled : spelledEmoji = [] ++ ([Ascii.openBrace] ++ ([Ascii.space] ++
      (Ascii.quote :: bytesOf "n\\u0061me\"" ++ ([] ++ ([Ascii.colon] ++ ([Ascii.lineFeed] ++
        (Ascii.quote :: bytesOf "\\u0041\"" ++ ([] ++ ([Ascii.closeBrace] ++
          ([Ascii.space] ++ [])))))))))) := by
    decide +kernel
  have key : TextScan.IsText (bytesOf "name\"") [.byte 110, .byte 97, .byte 109, .byte 101] :=
    TextScan.isText_iff.mpr (by decide +kernel)
  have key' : TextScan.IsText (bytesOf "n\\u0061me\"")
      [.byte 110, .code 97, .byte 109, .byte 101] :=
    TextScan.isText_iff.mpr (by decide +kernel)
  have value : TextScan.IsText (bytesOf "A\"") [.byte 65] :=
    TextScan.isText_iff.mpr (by decide +kernel)
  have value' : TextScan.IsText (bytesOf "\\u0041\"") [.code 65] :=
    TextScan.isText_iff.mpr (by decide +kernel)
  have none : ∀ byte ∈ ([] : Bytes), Ascii.isSpace byte = true := List.forall_mem_nil _
  have space : ∀ byte ∈ [Ascii.space], Ascii.isSpace byte = true := List.all_eq_true.mp rfl
  have line : ∀ byte ∈ [Ascii.lineFeed], Ascii.isSpace byte = true := List.all_eq_true.mp rfl
  rw [plain, spelled]
  refine .token none none (.mark rfl _) (.mark rfl _) ?_
  refine .text none space key key' (by decide +kernel) ?_
  refine .token none none (.mark rfl _) (.mark rfl _) ?_
  refine .text none line value value' (by decide +kernel) ?_
  refine .token none none (.mark rfl _) (.mark rfl _) ?_
  exact .same none space []

/-- Both payloads are decoded alike. -/
theorem decodePayload_of_readings_emoji :
    ¬ Chat.Holds .opaqueJson (.entity .emoji) ∧ Respelled plainEmoji spelledEmoji ∧
      (Lexer.ofBytes spelledEmoji).readings = (Lexer.ofBytes plainEmoji).readings ∧
      (decodePayload Chat .exact (.entity .emoji) spelledEmoji).reported =
        (decodePayload Chat .exact (.entity .emoji) plainEmoji).reported := by
  have plain : ¬ Chat.Holds .opaqueJson (.entity .emoji) := by
    rw [Chat.holds_opaqueJson_iff]
    decide
  have same : (Lexer.ofBytes spelledEmoji).readings = (Lexer.ofBytes plainEmoji).readings :=
    respelled_emoji.readings_eq ⟨rfl, rfl⟩ ⟨rfl, rfl⟩
  exact ⟨plain, respelled_emoji, same,
    (decodePayload_of_readings Chat .exact (.entity .emoji) plain).2 _ _ respelled_emoji⟩

end ChatCodec
