import ChatCodec.Proofs.Streaming.Loop
import ChatCodec.Proofs.Streaming.Reports

/-!
# Texts of values, members and objects

A text is the text of a value if a lexer that has nothing else before it reads a token, skips
the value that begins with it, and is then at the end (`IsValueText`).  Such a text is read in
the same way wherever it stands, as long as what follows does not go on with a number or a word
(`IsValueText.copied`).

The text of an object is put together from the texts of keys and values, with white space
between them (`ObjectText`).  What such a member does to a record depends on its own two texts
alone (`MemberText.write`), and decoding an object does this for one member after another
(`ObjectText.decodeObject_yields`).
-/

namespace ChatCodec

set_option autoImplicit false

open Scanned (Ends)

/-! ## Texts of values -/

/-- The first token of a text. -/
def Lexeme.ofText (text : Bytes) : Lexeme := (Lexer.ofBytes text).scan

/-- Skipping the value that a text begins with. -/
def skipText (text : Bytes) : Outcome Unit :=
  (Lexeme.ofText text).lexer.skipValue (Lexeme.ofText text).token

/-- A fresh lexer reads a token, skips the value that begins with it, and is at the end. -/
def IsValueText (text : Bytes) : Prop :=
  (skipText text).error = none ∧ (skipText text).lexer.finish.error = none

instance (text : Bytes) : Decidable (IsValueText text) := by
  unfold IsValueText; infer_instance

/-- Only values are skipped. -/
theorem Lexer.isValue_of_skipValue {lexer : Lexer} {token : Token}
    (skipped : (lexer.skipValue token).error = none) : token.isValue = true := by
  rw [skipValue, tree] at skipped
  rw [Token.isValue]
  by_cases opens : token.isOpening = true
  · rw [opens, Bool.or_true]
  · rw [if_neg opens, skipTree] at skipped
    by_cases scalar : token.isScalar = true
    · rw [scalar, Bool.true_or]
    · rw [if_neg scalar] at skipped
      cases skipped

/-- A text is finished where nothing but white space is left. -/
theorem Lexer.finish_iff {lexer : Lexer} : lexer.finish.error = none ↔ lexer.Approaches [] := by
  rw [← scan_eof_iff, finish]
  by_cases ended : lexer.scan.token = .eof
  · rw [if_pos ended]
    exact ⟨fun _ => ended, fun _ => rfl⟩
  · rw [if_neg ended]
    exact ⟨fun finished => by (cases finished), fun nears => absurd nears ended⟩

/-- **The bytes that a skipped value takes up are skipped alike where nothing follows them**, and
all of them are taken up. -/
theorem Lexer.Faces.skipText {lexer : Lexer} {text : Bytes}
    (skipped : (lexer.scan.lexer.skipValue lexer.scan.token).error = none)
    (faces : lexer.Faces
      (text ++ (lexer.scan.lexer.skipValue lexer.scan.token).lexer.ahead)) :
    (Lexeme.ofText text).token = lexer.scan.token ∧
      (Lexeme.ofText text).lexer.output = lexer.scan.lexer.output ∧
      (ChatCodec.skipText text).error = none ∧
      (ChatCodec.skipText text).lexer.position = text.length ∧
      (ChatCodec.skipText text).lexer.Faces [] := by
  obtain ⟨nested, lands⟩ := skipTree_lands (lexer.scan.lexer.isOpened_tree _) skipped
  have alike := Parting.faces_between faces (faces_ofBytes text)
  obtain ⟨copies, related, -⟩ := alike.exists_value Scanned.ends_nil (isValue_of_skipValue skipped)
    nested ⟨[], by rw [← lands]; rfl⟩
  have agrees := skipTree_agrees (Parting.alikeness _) related
  have behind := agrees.alike skipped
  obtain ⟨front, same, same', -, place⟩ := behind.ahead
  obtain rfl := List.append_left_eq_self.mp same.symm
  refine ⟨copies.token_eq, copies.output_eq, agrees.error_eq_none_iff.mpr skipped, ?_,
    behind.going', same'⟩
  rw [same'] at place
  exact place.trans (Nat.zero_add _)

section

variable {text : Bytes} {lexer : Lexer} {rest : Bytes}

theorem IsValueText.isValue (isText : IsValueText text) : (Lexeme.ofText text).token.isValue = true :=
  Lexer.isValue_of_skipValue isText.1

/-- The parting of a text and of a payload in which a lexer has it before it, with a rest. -/
def Parting.ofText (text : Bytes) (lexer : Lexer) (rest : Bytes) : Parting :=
  ⟨text.length, lexer.position + lexer.ahead.length, [], rest⟩

/-- **The text of a value is read in the same way wherever it stands**: the same tokens are
found, and behind the last of them the lexer has the rest before it. -/
theorem IsValueText.copied (isText : IsValueText text)
    (approaches : lexer.Approaches (text ++ rest)) (ends : Ends rest) :
    (Parting.ofText text lexer rest).Copies (Lexeme.ofText text) lexer.scan ∧
      ((Lexeme.ofText text).lexer.tree (Lexeme.ofText text).token).Related
        (Parting.ofText text lexer rest).Copies (lexer.scan.lexer.tree lexer.scan.token) ∧
      ∀ behind, (Parting.ofText text lexer rest).Faces (skipText text).lexer behind →
        behind.Approaches rest := by
  obtain ⟨stands, faces, scan, place⟩ := approaches.exists_stand
  obtain ⟨blanks, blank, going, ahead⟩ := Lexer.finish_iff.mp isText.2
  rw [List.append_nil] at ahead
  obtain ⟨nested, lands⟩ := skipTree_lands (Lexer.isOpened_tree _ _) isText.1
  have parting : Parting.between (Lexer.ofBytes text) stands [] rest =
      .ofText text lexer rest := by
    rw [Parting.between, Parting.ofText, faces.ahead_eq, place]
    exact congrArg (Parting.mk · _ _ _) (Nat.zero_add _)
  have alike : (Parting.ofText text lexer rest).Faces (Lexer.ofBytes text) stands :=
    parting ▸ Parting.faces_between ⟨rfl, (List.append_nil text).symm⟩ faces
  obtain ⟨copies, related, -⟩ := alike.exists_value ends isText.isValue nested
    ⟨blanks, (congrArg Lexer.ahead lands).symm.trans (ahead.trans (List.append_nil _).symm)⟩
  rw [scan] at copies related
  refine ⟨copies, related, fun behind facesBehind => ?_⟩
  obtain ⟨front, first, second, -⟩ := facesBehind.ahead
  rw [ahead, show (Parting.ofText text lexer rest).rest = [] from rfl, List.append_nil] at first
  subst first
  exact ⟨blanks, blank, facesBehind.going', second⟩

theorem IsValueText.exists_copy (isText : IsValueText text)
    (approaches : lexer.Approaches (text ++ rest)) (ends : Ends rest) :
    ∃ p : Parting, p.Copies (Lexeme.ofText text) lexer.scan ∧
      ((Lexeme.ofText text).lexer.tree (Lexeme.ofText text).token).Related p.Copies
        (lexer.scan.lexer.tree lexer.scan.token) ∧
      ∀ behind, p.Faces (skipText text).lexer behind → behind.Approaches rest :=
  ⟨_, isText.copied approaches ends⟩

/-- The text of a scalar is one token. -/
theorem IsValueText.scan_scalar (isText : IsValueText text)
    (scalar : (Lexeme.ofText text).token.isScalar = true)
    (approaches : lexer.Approaches (text ++ rest)) (ends : Ends rest) :
    lexer.scan.token = (Lexeme.ofText text).token ∧
      lexer.scan.lexer.output = (Lexeme.ofText text).lexer.output ∧
      lexer.scan.lexer.Approaches rest := by
  obtain ⟨p, copies, -, lands⟩ := isText.exists_copy approaches ends
  refine ⟨copies.token_eq, copies.output_eq, lands _ ?_⟩
  rw [skipText, Lexer.skipValue_of_isScalar scalar]
  exact copies.faces fun error => by rw [error] at scalar; cases scalar

end

section

variable {C : Catalog} {matching : KeyMatching} {shape : C.Shape} {text : Bytes} {lexer : Lexer}

/-- A text is decoded up to where it is skipped. -/
theorem lexer_decodeText (succeeded : (decodeInto C matching (C.blank shape)
      (Lexeme.ofText text).lexer (Lexeme.ofText text).token).error = none) :
    (decodeInto C matching (C.blank shape) (Lexeme.ofText text).lexer
      (Lexeme.ofText text).token).lexer = (skipText text).lexer :=
  (congrArg Outcome.lexer (decodeInto_passesLike C matching (C.blank shape) _ _ succeeded)).symm

/-- The end comes where nothing but white space is left. -/
theorem finishWith_gives {Value : Type} (value : Value) (approaches : lexer.Approaches []) :
    (finishWith value lexer).Gives (.ok value) fun _ => True := by
  rw [finishWith, Lexer.finish, if_pos (Lexer.scan_eof_iff.mpr approaches)]
  exact .done value trivial

variable (C matching shape) in
/-- What is decoded from a text is decoded from its first token on. -/
theorem IsValueText.result_decodePayload (isText : IsValueText text) :
    (decodePayload C matching shape text).result =
      (decodeInto C matching (C.blank shape) (Lexeme.ofText text).lexer
        (Lexeme.ofText text).token).result := by
  have decoded : (decodeInto C matching (C.blank shape) (Lexeme.ofText text).lexer
      (Lexeme.ofText text).token).Gives _ (·.Approaches []) :=
    ⟨rfl, fun succeeded => lexer_decodeText succeeded ▸ Lexer.finish_iff.mp isText.2⟩
  have whole : (Outcome.follow _ id finishWith).Gives (_ >>= pure) _ :=
    decoded.follow fun value _ => finishWith_gives value
  rw [bind_pure] at whole
  rw [decodePayload]
  exact (congrArg Outcome.result (if_pos isText.isValue)).trans whole.result_eq

end

/-- A word that stands alone is read as its token. -/
theorem Lexeme.ofText_eq {word output : Bytes} {token : Token}
    (reads : Scanned.Reads token word output []) :
    ofText word = ⟨token, ⟨[], word.length, 0, word, output, none⟩⟩ := by
  have ahead : (Lexer.ofBytes word).ahead = [] ++ (word ++ []) := (List.append_nil word).symm
  have scan := Lexer.scan_of_reads rfl ahead (List.forall_mem_nil _) reads.stops_space reads
  rw [ofText, scan, List.append_nil, List.length_nil, Nat.add_zero]
  exact congrArg (fun position => Lexeme.mk token ⟨[], position, 0, word, output, none⟩)
    (Nat.zero_add _)

/-- The word of a scalar token is the text of a value. -/
theorem isValueText_of_reads {word output : Bytes} {token : Token}
    (reads : Scanned.Reads token word output []) (scalar : token.isScalar = true) :
    IsValueText word ∧ (Lexeme.ofText word).token = token ∧
      (Lexeme.ofText word).lexer.output = output := by
  have read := Lexeme.ofText_eq reads
  have isToken : (Lexeme.ofText word).token = token := by rw [read]
  have skipped : skipText word = .done () (Lexeme.ofText word).lexer := by
    rw [skipText, isToken, Lexer.skipValue_of_isScalar scalar]
  refine ⟨⟨by rw [skipped]; rfl, ?_⟩, isToken, by rw [read]⟩
  rw [skipped, Lexer.finish_iff, Outcome.done, read]
  exact Lexer.Faces.approaches ⟨rfl, rfl⟩

/-! ## Members -/

/-- The text of a key. -/
structure KeyText where
  key : Bytes
  isKey : IsValueText key
  isString : (Lexeme.ofText key).token = .string

/-- A member of an object: the texts of a key and a value. -/
structure MemberText extends KeyText where
  value : Bytes
  isValue : IsValueText value

section

variable {C : Catalog} {matching : KeyMatching} {lexer : Lexer} {name : C.Name} {rest : Bytes}
  {current : Option Nat} {record : C.Entity name}

variable (C matching) in
/-- Decodes a text as the value of a member. -/
def decodeMemberText (current : Option Nat) (record : C.Entity name) (text : Bytes) :
    Outcome (C.Entity name) :=
  decodeMember C matching current record (Lexeme.ofText text).lexer (Lexeme.ofText text).token

/-- Values of members are decoded alike. -/
theorem decodeMember_agrees {similar : Lexeme → Lexeme → Prop} {alike : Lexer → Lexer → Prop}
    (A : Alikeness similar alike) (raw : SameRaw similar alike) {lexer lexer' : Lexer}
    {token token' : Token} (related : (lexer.tree token).Related similar (lexer'.tree token')) :
    (decodeMember C matching current record lexer token).Agrees alike
      (decodeMember C matching current record lexer' token') := by
  cases current with
  | none => exact (skipTree_agrees A related).map fun _ => record
  | some index =>
      exact (record.decodeAt_agreesAt A Moves.anywhere related
        (fun _ _ => decodeTree_agreesAt A Moves.anywhere related fun _ => raw) index).toAgrees

/-- The value of a member is decoded in the same way wherever it stands. -/
theorem IsValueText.decodeMember_yields {text : Bytes} (isText : IsValueText text)
    (C : Catalog) (matching : KeyMatching) {name : C.Name} (current : Option Nat)
    (record : C.Entity name) (approaches : lexer.Approaches (text ++ rest)) (ends : Ends rest) :
    (decodeMember C matching current record lexer.scan.lexer lexer.scan.token).Yields
      (decodeMemberText C matching current record text).reported (·.Approaches rest) := by
  obtain ⟨p, -, related, lands⟩ := isText.exists_copy approaches ends
  have agrees : (decodeMemberText C matching current record text).Agrees p.Faces
      (decodeMember C matching current record lexer.scan.lexer lexer.scan.token) :=
    decodeMember_agrees p.alikeness p.sameRaw related
  refine agrees.yields fun succeeded faces => lands _ ?_
  have skipped := decodeMember_passesLike current record _ _ succeeded
  rw [show (skipText text).lexer = _ from congrArg Outcome.lexer skipped]
  exact faces

namespace KeyText

variable (key : KeyText)

/-- What is captured for a key. -/
def captured : Bytes := (Lexeme.ofText key.key).lexer.output

/-- The number of the field that a key finds. -/
def field? (C : Catalog) (name : C.Name) (matching : KeyMatching) : Option Nat :=
  Key.resolve (C.keys name) key.captured matching

/-- A key that needs no escapes. -/
def ofRaw {bytes : Bytes} (raw : ∀ byte ∈ bytes, Ascii.IsRaw byte) : KeyText where
  key := Ascii.quote :: (bytes ++ [Ascii.quote])
  isKey := by
    obtain ⟨units, isText, -⟩ := TextScan.exists_isText_of_isRaw raw
    exact (isValueText_of_reads (.text isText []) rfl).1
  isString := by
    obtain ⟨units, isText, -⟩ := TextScan.exists_isText_of_isRaw raw
    exact (isValueText_of_reads (.text isText []) rfl).2.1

theorem captured_ofRaw {bytes : Bytes} (raw : ∀ byte ∈ bytes, Ascii.IsRaw byte) :
    (ofRaw raw).captured = bytes := by
  obtain ⟨units, isText, spelled⟩ := TextScan.exists_isText_of_isRaw raw
  exact (isValueText_of_reads (.text isText []) rfl).2.2.trans spelled

end KeyText

namespace MemberText

variable (member : MemberText)

/-- **What a member does to a record**, or the report of why it cannot. -/
def write (C : Catalog) (matching : KeyMatching) {name : C.Name} (record : C.Entity name) :
    Except Report (C.Entity name) :=
  (decodeMemberText C matching (member.field? C name matching) record member.value).reported

/-- A member that no field has does nothing. -/
theorem write_of_unknown (unknown : member.field? C name matching = none) :
    member.write C matching record = .ok record := by
  have skipped : (skipText member.value).error = none := member.isValue.1
  rw [write, unknown, decodeMemberText, decodeMember, Outcome.reported_eq]
  rw [skipText] at skipped
  simp only [Outcome.map, skipped]
  rfl

end MemberText

/-- White space. -/
abbrev Blanks : Type := { bytes : Bytes // ∀ byte ∈ bytes, Ascii.isSpace byte = true }

/-- A member with white space around its parts. -/
structure PlacedMember extends MemberText where
  beforeKey : Blanks := ⟨[], List.forall_mem_nil _⟩
  behindKey : Blanks := ⟨[], List.forall_mem_nil _⟩
  beforeValue : Blanks := ⟨[], List.forall_mem_nil _⟩
  behindValue : Blanks := ⟨[], List.forall_mem_nil _⟩

namespace PlacedMember

variable (member : PlacedMember)

/-- The bytes of a member. -/
def bytes : Bytes :=
  member.beforeKey.val ++ (member.key ++ (member.behindKey.val ++ Ascii.colon ::
    (member.beforeValue.val ++ (member.value ++ member.behindValue.val))))

/-- **A member is decoded to what it does to the record**, and decoding goes on behind it. -/
theorem exists_written (C : Catalog) (matching : KeyMatching) {name : C.Name}
    (current : Option Nat) (record : C.Entity name)
    (approaches : lexer.Approaches (member.bytes ++ rest)) (ends : Ends rest) :
    ∃ written : Outcome (C.Entity name),
      written.Yields (member.write C matching record) (·.Approaches rest) ∧
        (written.follow id fun record behind =>
            decodeMembers C matching behind.body name .separator none record).Agrees Eq
          (decodeMembers C matching lexer.body name .key current record) := by
  have colon : Scanned.punctuation? Ascii.colon = some .colon := by decide
  simp only [bytes, List.append_assoc, List.cons_append] at approaches
  obtain ⟨isKey, output, behindKey⟩ := member.isKey.scan_scalar (by rw [member.isString]; rfl)
    (approaches.skip member.beforeKey.property)
    (Scanned.ends_of_blank member.behindKey.property (Scanned.ends_of_punctuation? colon _))
  obtain ⟨isColon, facesValue⟩ := (behindKey.skip member.behindKey.property).scan_mark colon
  have beforeValue := facesValue.approaches.skip member.beforeValue.property
  obtain ⟨q, copiesValue, -⟩ := member.isValue.exists_copy beforeValue
    (Scanned.ends_of_blank member.behindValue.property ends)
  have isValue : lexer.scan.lexer.scan.lexer.scan.token.isValue = true := by
    rw [copiesValue.token_eq, member.isValue.isValue]
  have written := member.isValue.decodeMember_yields C matching (member.field? C name matching)
    record beforeValue (Scanned.ends_of_blank member.behindValue.property ends)
  refine ⟨_, ⟨written.reported_eq,
    fun succeeded => (written.lands succeeded).skip member.behindValue.property⟩, ?_⟩
  rw [decodeMembers_key (isKey.trans member.isString), output]
  have following : ∀ current, decodeMembers C matching lexer.scan.lexer.body name .colon current
      record = _ := fun current =>
    (decodeMembers_colon isColon).trans (decodeMembers_value isValue)
  cases found : Key.resolve (C.keys name) (Lexeme.ofText member.key).lexer.output matching with
  | some index =>
      rw [KeyText.field?, KeyText.captured, found]
      simp only [following]
      exact .refl _
  | none =>
      rw [KeyText.field?, KeyText.captured, found]
      simp only [following]
      exact .noted _ _

end PlacedMember

/-! ## Objects -/

/-- Members behind one another, separated by commas. -/
def membersText (members : List PlacedMember) : Bytes :=
  [Ascii.comma].intercalate (members.map PlacedMember.bytes)

variable (C matching) in
/-- What members do to a record, one after another, up to the first that cannot. -/
def writeAll (record : C.Entity name) (members : List MemberText) :
    Except Report (C.Entity name) :=
  members.foldlM (fun record member => member.write C matching record) record

/-- **Members are decoded one after another.**  Behind the last of them decoding goes on as it
does from the record that they have made. -/
theorem decodeMembers_yields {last : C.Entity name → Except Report (C.Entity name)}
    {lands : Lexer → Prop} (ends : Ends rest)
    (atEnd : ∀ (behind : Lexer) (record : C.Entity name), behind.Approaches rest →
      (decodeMembers C matching behind.body name .separator none record).Yields (last record) lands) :
    ∀ {members : List PlacedMember} {lexer : Lexer} {current : Option Nat} {record : C.Entity name},
      members ≠ [] → lexer.Approaches (membersText members ++ rest) →
        (decodeMembers C matching lexer.body name .key current record).Yields
          (writeAll C matching record (members.map (·.toMemberText)) >>= last) lands
  | [], _, _, _, notEmpty, _ => absurd rfl notEmpty
  | [member], lexer, current, record, _, approaches => by
      rw [membersText, List.map_cons, List.map_nil, List.intercalate_singleton] at approaches
      obtain ⟨written, yields, same⟩ := member.exists_written C matching current record approaches ends
      rw [writeAll, List.map_cons, List.map_nil, List.foldlM_cons]
      simp only [List.foldlM_nil, bind_pure]
      exact (yields.follow fun record behind land => atEnd behind record land).of_agrees same
  | member :: next :: members, lexer, current, record, _, approaches => by
      have comma : Scanned.punctuation? Ascii.comma = some .comma := by decide
      rw [membersText, List.map_cons, List.map_cons, List.intercalate_cons_cons,
        List.append_assoc, List.append_assoc] at approaches
      obtain ⟨written, yields, same⟩ :=
        member.exists_written C matching current record approaches (Scanned.ends_of_punctuation? comma _)
      rw [writeAll, List.map_cons, List.foldlM_cons, bind_assoc]
      refine (yields.follow fun record behind land => ?_).of_agrees same
      obtain ⟨isComma, faces⟩ := land.scan_mark comma
      rw [decodeMembers_separator isComma]
      exact decodeMembers_yields ends atEnd (List.cons_ne_nil _ _) faces.approaches

/-- The text of an object.  A comma may also stand behind the last member. -/
structure ObjectText where
  before : Blanks := ⟨[], List.forall_mem_nil _⟩
  members : List PlacedMember
  trailing : Bool := false
  beforeEnd : Blanks := ⟨[], List.forall_mem_nil _⟩
  behind : Blanks := ⟨[], List.forall_mem_nil _⟩
  settled : trailing = true → members ≠ []

namespace ObjectText

variable (object : ObjectText)

/-- The members of an object, without the white space. -/
def texts : List MemberText := object.members.map (·.toMemberText)

/-- The bytes of an object behind its last member. -/
def closing : Bytes :=
  (if object.trailing then [Ascii.comma] else []) ++
    (object.beforeEnd.val ++ Ascii.closeBrace :: object.behind.val)

/-- The bytes of an object. -/
def bytes : Bytes :=
  object.before.val ++ Ascii.openBrace :: (membersText object.members ++ object.closing)

/-- An object begins with its brace. -/
theorem token_ofText : (Lexeme.ofText object.bytes).token = .objectStart :=
  (((Lexer.approaches_ofBytes object.bytes).skip object.before.property).scan_mark
    (by decide)).1

/-- **Decoding an object does what its members do, one after another.** -/
theorem decodeObject_yields (record : C.Entity name)
    (approaches : lexer.Approaches object.bytes) :
    (decodeObject C matching record lexer).Yields (writeAll C matching record object.texts)
      (·.Approaches []) := by
  have brace : Scanned.punctuation? Ascii.closeBrace = some .objectEnd := by decide
  have comma : Scanned.punctuation? Ascii.comma = some .comma := by decide
  obtain ⟨isStart, faces⟩ := (approaches.skip object.before.property).scan_mark
    (show Scanned.punctuation? Ascii.openBrace = some .objectStart by decide)
  rw [decodeObject]
  simp only [if_pos isStart]
  rw [decodeFrom]
  -- Where the object may end, its brace comes next.
  have atBrace : ∀ (behind : Lexer) (place : MemberPlace) (current : Option Nat)
      (record : C.Entity name), place.mayEnd = true →
      behind.Approaches (object.beforeEnd.val ++ Ascii.closeBrace :: object.behind.val) →
        (decodeMembers C matching behind.body name place current record).Yields (.ok record)
          (·.Approaches []) := by
    intro behind place current record mayEnd nears
    obtain ⟨isEnd, facesEnd⟩ := (nears.skip object.beforeEnd.property).scan_mark brace
    rw [decodeMembers_end isEnd mayEnd]
    refine .done record (Lexer.Approaches.skip ?_ object.behind.property)
    rw [List.append_nil]
    exact facesEnd.approaches
  by_cases empty : object.members = []
  · have noComma : object.trailing = false := by
      rw [← Bool.not_eq_true]
      exact fun trailing => object.settled trailing empty
    rw [empty, closing, noComma] at faces
    rw [texts, empty]
    exact atBrace _ _ _ _ rfl faces.approaches
  · rw [← bind_pure (writeAll C matching record object.texts)]
    cases trailing : object.trailing with
    | false =>
        rw [closing, trailing] at faces
        refine decodeMembers_yields (Scanned.ends_of_blank object.beforeEnd.property
          (Scanned.ends_of_punctuation? brace _)) ?_ empty faces.approaches
        exact fun behind record nears => atBrace behind _ _ record rfl nears
    | true =>
        rw [closing, trailing] at faces
        refine decodeMembers_yields (Scanned.ends_of_punctuation? comma _) ?_ empty
          faces.approaches
        intro behind record nears
        obtain ⟨isComma, facesComma⟩ := nears.scan_mark comma
        rw [decodeMembers_separator isComma]
        exact atBrace _ _ _ record rfl facesComma.approaches

end ObjectText

/-! ## Documents -/

variable (C matching) in
/-- Decodes a payload that holds one object into a record. -/
def decodeOnto (record : C.Entity name) (payload : Bytes) : Outcome (C.Entity name) :=
  (decodeObject C matching record (Lexer.ofBytes payload)).follow id finishWith

/-- A document is decoded into the blank record. -/
theorem decodeDocument_reported (payload : Bytes) :
    (decodeDocument C matching name payload).reported =
      (decodeOnto C matching (C.blankEntity name) payload).reported := by
  rw [decodeDocument, decodeOnto]
  split
  · rfl
  · next ended => rw [Outcome.reported, Outcome.reported, Outcome.result, Outcome.result]

/-- **The text of an object is decoded to what its members do, one after another.** -/
theorem ObjectText.decodeOnto_reported (object : ObjectText) (record : C.Entity name) :
    (decodeOnto C matching record object.bytes).reported =
      writeAll C matching record object.texts := by
  have atEnd : ∀ (record : C.Entity name) (behind : Lexer), behind.Approaches [] →
      (finishWith record behind).Yields (.ok record) fun _ => True := by
    intro record behind nears
    rw [finishWith, Lexer.finish, if_pos (Lexer.scan_eof_iff.mpr nears)]
    exact .done record trivial
  have start := Lexer.approaches_ofBytes object.bytes
  rw [decodeOnto, ((object.decodeObject_yields record start).follow atEnd).reported_eq]
  exact bind_pure _

end

end ChatCodec
