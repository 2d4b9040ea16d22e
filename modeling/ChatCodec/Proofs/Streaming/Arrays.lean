import ChatCodec.Proofs.Streaming.Texts
import ChatCodec.Proofs.Successes

/-!
# Arrays are decoded item by item

A text that is the text of a value is decoded inside an array as it is decoded alone
(`IsValueText.decodeInto_gives`).  An error in it says the same in both, and points further on by
as many bytes as stand before the text.

So decoding an array is decoding its texts one after another, up to the first that is refused
(`decodeEach`), and the comma behind the last of them may be there or not
(`decodePayload_arrayText`).  How many bytes a lexer still has before it is carried along
(`Lexer.Nears`), since the offset of an item is what is left of the whole payload.
-/

namespace ChatCodec

set_option autoImplicit false

open Scanned (Ends)

/-! ## Lexers at a distance from the end -/

/-- The lexer has these bytes before it, perhaps behind white space, and the end of the payload
is at that offset. -/
structure Lexer.Nears (lexer : Lexer) (ending : Nat) (bytes : Bytes) : Prop where
  approaches : lexer.Approaches bytes
  ending_eq : lexer.position + lexer.ahead.length = ending

section

variable {lexer : Lexer} {ending : Nat} {text rest : Bytes}

theorem Lexer.nears_ofBytes (payload : Bytes) :
    (ofBytes payload).Nears payload.length payload :=
  ⟨approaches_ofBytes payload, Nat.zero_add _⟩

/-- The end is where it was for a lexer further on. -/
theorem Lexer.LeadsTo.ending_eq {later : Lexer} (leadsTo : lexer.LeadsTo later) :
    later.position + later.ahead.length = lexer.position + lexer.ahead.length := by
  obtain ⟨consumed, ahead, position⟩ := leadsTo
  rw [position, ahead, List.length_append, Nat.add_assoc]

/-- A mark that comes next is read. -/
theorem Lexer.Nears.scan_mark {byte : UInt8} {token : Token}
    (nears : lexer.Nears ending (byte :: rest))
    (known : Scanned.punctuation? byte = some token) :
    lexer.scan.token = token ∧ lexer.scan.lexer.Nears ending rest := by
  obtain ⟨isMark, faces⟩ := nears.approaches.scan_mark known
  have going : lexer.scan.token.isFinal = false := by
    rw [isMark]
    exact (Scanned.kind_of_punctuation? known).2
  exact ⟨isMark, faces.approaches, (leadsTo_scan going).ending_eq.trans nears.ending_eq⟩

/-! ## Items -/

variable {C : Catalog} {matching : KeyMatching} {shape : C.Shape}

variable (C matching shape) in
/-- **A text is decoded where it stands as it is decoded alone**, with errors that point further
on by the bytes before it. -/
theorem IsValueText.decodeInto_gives (isText : IsValueText text) {offset : Nat}
    (nears : lexer.Nears ending (text ++ rest)) (place : offset + (text ++ rest).length = ending)
    (ends : Ends rest) :
    lexer.scan.token.isValue = true ∧
      (decodeInto C matching (C.blank shape) lexer.scan.lexer lexer.scan.token).Gives
        ((decodePayload C matching shape text).result.mapError (·.movedBy offset))
        (·.Nears ending rest) := by
  obtain ⟨copies, related, lands⟩ := isText.copied nears.approaches ends
  have agrees : (decodeInto C matching (C.blank shape) (Lexeme.ofText text).lexer
      (Lexeme.ofText text).token).AgreesAt _ (Parting.ofText text lexer rest).Faces
      (decodeInto C matching (C.blank shape) lexer.scan.lexer lexer.scan.token) :=
    decodeTree_agreesAt (Parting.alikeness _) (Parting.moves _) related
      (fun _ => Parting.sameRaw _) (C.blank shape)
  refine ⟨by rw [copies.token_eq, isText.isValue], ?_, fun succeeded => ?_⟩
  · rw [isText.result_decodePayload C matching shape]
    refine agrees.result_eq fun start start' moved => ?_
    rw [List.length_append] at place
    simp only [Parting.ofText, nears.ending_eq, List.length_nil] at moved
    omega
  · have alone := agrees.error_eq_none_iff.mp succeeded
    have faces := agrees.alike alone
    rw [lexer_decodeText alone] at faces
    obtain ⟨-, -, -, -, behind⟩ := faces.ahead
    exact ⟨lands _ faces, behind.trans nears.ending_eq⟩

end

/-! ## Arrays -/

/-- Items behind one another, separated by commas. -/
def itemsText (texts : List Bytes) : Bytes := [Ascii.comma].intercalate texts

/-- The text of an array.  A comma may also stand behind the last item. -/
def arrayText (texts : List Bytes) (trailing : Bool) : Bytes :=
  Ascii.openBracket ::
    (itemsText texts ++ ((if trailing then [Ascii.comma] else []) ++ [Ascii.closeBracket]))

/-- What is in front of an item in the text of an array. -/
def itemsBefore (front : List Bytes) : Bytes :=
  Ascii.openBracket :: front.flatMap (· ++ [Ascii.comma])

section

variable (C : Catalog) (matching : KeyMatching) {shape : C.Shape}

/-- Decodes texts one after another, up to the first that is refused.  The first of them stands
at that offset, and each other one behind a comma. -/
def decodeEach (shape : C.Shape) : Nat → List Bytes → Except DecodeError (C.Sequence shape)
  | _, [] => .ok .nil
  | offset, text :: texts => do
      let head ← (decodePayload C matching shape text).result.mapError (·.movedBy offset)
      let tail ← decodeEach shape (offset + text.length + 1) texts
      return .cons head tail

/-- The bracket ends an array. -/
theorem decodeItems_end {lexer : Lexer} {ending : Nat} (place : ItemPlace)
    (nears : lexer.Nears ending [Ascii.closeBracket]) :
    (decodeItems C matching lexer.body shape place).Gives (.ok .nil) (·.Approaches []) := by
  obtain ⟨isEnd, behind⟩ := nears.scan_mark
    (show Scanned.punctuation? Ascii.closeBracket = some .arrayEnd by decide)
  have refused : ¬ place.admits lexer.scan.token = true := by
    rw [isEnd]
    cases place <;> decide
  rw [decodeItems_of_not_admits refused, if_pos isEnd]
  exact .done _ behind.approaches

/-- **Items are decoded one after another.**  Behind the last of them the array ends. -/
theorem decodeItems_gives {rest : Bytes} (ends : Ends rest)
    (atEnd : ∀ (behind : Lexer) (ending : Nat), behind.Nears ending rest →
      (decodeItems C matching behind.body shape .separator).Gives (.ok .nil) (·.Approaches [])) :
    ∀ {texts : List Bytes} {lexer : Lexer} {offset ending : Nat}, texts ≠ [] →
      (∀ text ∈ texts, IsValueText text) → lexer.Nears ending (itemsText texts ++ rest) →
        offset + (itemsText texts ++ rest).length = ending →
          (decodeItems C matching lexer.body shape .item).Gives
            (decodeEach C matching shape offset texts) (·.Approaches [])
  | [], _, _, _, notEmpty, _, _, _ => absurd rfl notEmpty
  | [text], lexer, offset, ending, _, areTexts, nears, place => by
      rw [itemsText, List.intercalate_singleton] at nears place
      obtain ⟨isValue, gives⟩ := (areTexts text List.mem_cons_self).decodeInto_gives C matching
        shape nears place ends
      rw [decodeItems_item isValue]
      exact gives.follow fun head behind land => (atEnd behind _ land).map _
  | text :: next :: texts, lexer, offset, ending, _, areTexts, nears, place => by
      have comma : Scanned.punctuation? Ascii.comma = some .comma := by decide
      rw [itemsText, List.intercalate_cons_cons, List.append_assoc, List.append_assoc]
        at nears place
      obtain ⟨isValue, gives⟩ := (areTexts text List.mem_cons_self).decodeInto_gives C matching
        shape nears place (Scanned.ends_of_punctuation? comma _)
      rw [decodeItems_item isValue]
      refine gives.follow fun head behind land => ?_
      obtain ⟨isComma, further⟩ := land.scan_mark comma
      rw [decodeItems_separator isComma]
      refine (decodeItems_gives ends atEnd (List.cons_ne_nil _ _)
        (fun other isIn => areTexts other (List.mem_cons_of_mem text isIn)) further ?_).map _
      rw [← place]
      simp only [itemsText, List.length_append, List.length_cons, List.length_nil]
      omega

/-- **The text of an array is decoded text by text**, with or without a comma at its end. -/
theorem decodePayload_arrayText {texts : List Bytes} (areTexts : ∀ text ∈ texts, IsValueText text)
    {trailing : Bool} (settled : trailing = true → texts ≠ []) :
    (decodePayload C matching (.list shape) (arrayText texts trailing)).result =
      (decodeEach C matching shape 1 texts).map .list := by
  have bracket : Scanned.punctuation? Ascii.closeBracket = some .arrayEnd := by decide
  have comma : Scanned.punctuation? Ascii.comma = some .comma := by decide
  obtain ⟨isStart, nears⟩ := (Lexer.nears_ofBytes (arrayText texts trailing)).scan_mark
    (show Scanned.punctuation? Ascii.openBracket = some .arrayStart by decide)
  have items : (decodeItems C matching (Lexer.ofBytes (arrayText texts trailing)).scan.lexer.body
      shape .item).Gives (decodeEach C matching shape 1 texts) (·.Approaches []) := by
    by_cases empty : texts = []
    · subst empty
      have noComma : trailing = false := by
        rw [← Bool.not_eq_true]
        exact fun trailing => settled trailing rfl
      subst noComma
      exact decodeItems_end C matching .item nears
    · have place : 1 + (itemsText texts ++
          ((if trailing then [Ascii.comma] else []) ++ [Ascii.closeBracket])).length =
            (arrayText texts trailing).length := Nat.add_comm _ _
      refine decodeItems_gives C matching ?_ ?_ empty areTexts nears place
      · cases trailing
        · exact Scanned.ends_of_punctuation? bracket _
        · exact Scanned.ends_of_punctuation? comma _
      · intro behind ending land
        cases trailing with
        | false => exact decodeItems_end C matching .separator land
        | true =>
            obtain ⟨isComma, further⟩ := land.scan_mark comma
            rw [decodeItems_separator isComma]
            exact decodeItems_end C matching .item further
  have whole : (Outcome.follow _ id finishWith).Gives (_ >>= pure) _ :=
    (items.map Val.list).follow fun value _ => finishWith_gives value
  rw [bind_pure] at whole
  rw [decodePayload]
  simp only [isStart]
  rw [if_pos (by decide), decodeInto_list]
  exact whole.result_eq

variable {C matching}

/-- A text is decoded and then the others. -/
theorem decodeEach_cons_eq_ok_iff {text : Bytes} {texts : List Bytes} {offset : Nat}
    {items : C.Sequence shape} :
    decodeEach C matching shape offset (text :: texts) = .ok items ↔
      ∃ head tail, (decodePayload C matching shape text).result = .ok head ∧
        decodeEach C matching shape (offset + text.length + 1) texts = .ok tail ∧
        .cons head tail = items := by
  simp only [decodeEach, bind_eq_ok_iff, mapError_eq_ok_iff, pure, Except.pure, Except.ok.injEq,
    exists_and_left]

/-- **All texts are decoded exactly if each of them is.** -/
theorem decodeEach_eq_ok_iff : ∀ {texts : List Bytes} {offset : Nat} {items : C.Sequence shape},
    decodeEach C matching shape offset texts = .ok items ↔
      List.Forall₂ (fun text item => (decodePayload C matching shape text).result = .ok item)
        texts items.toList
  | [], offset, .nil => by simp only [decodeEach, Sequence.toList, List.Forall₂.nil]
  | [], offset, .cons head tail => by
      simp only [decodeEach, Sequence.toList, List.forall₂_nil_left_iff, Except.ok.injEq,
        reduceCtorEq]
  | text :: texts, offset, .nil => by
      simp only [decodeEach_cons_eq_ok_iff, Sequence.toList, List.forall₂_nil_right_iff,
        reduceCtorEq, and_false, exists_false]
  | text :: texts, offset, .cons head tail => by
      rw [decodeEach_cons_eq_ok_iff, Sequence.toList, List.forall₂_cons,
        ← @decodeEach_eq_ok_iff texts (offset + text.length + 1) tail]
      constructor
      · rintro ⟨_, _, decoded, following, ⟨⟩⟩
        exact ⟨decoded, following⟩
      · rintro ⟨decoded, following⟩
        exact ⟨head, tail, decoded, following, rfl⟩

/-- **The first text that is refused decides**: its error is that of all of them, moved by the
bytes before it. -/
theorem decodeEach_of_refused {text : Bytes} {back : List Bytes} {error : DecodeError}
    (refused : (decodePayload C matching shape text).result = .error error) :
    ∀ {front : List Bytes} {offset : Nat},
      (∀ earlier ∈ front, ∃ item, (decodePayload C matching shape earlier).result = .ok item) →
        decodeEach C matching shape offset (front ++ text :: back) =
          .error (error.movedBy (offset + (front.flatMap (· ++ [Ascii.comma])).length))
  | [], offset, _ => by
      rw [List.nil_append, decodeEach, refused]
      rfl
  | earlier :: front, offset, accepted => by
      obtain ⟨item, decoded⟩ := accepted earlier List.mem_cons_self
      have following := @decodeEach_of_refused text back error refused front
        (offset + earlier.length + 1) fun other isIn => accepted other (List.mem_cons_of_mem _ isIn)
      have place : offset + earlier.length + 1 + (front.flatMap (· ++ [Ascii.comma])).length =
          offset + ((earlier :: front).flatMap (· ++ [Ascii.comma])).length := by
        simp only [List.flatMap_cons, List.length_append, List.length_cons, List.length_nil]
        omega
      rw [List.cons_append, decodeEach, decoded, following, place]
      rfl

/-- The text of an array has its items behind the bytes before them. -/
theorem arrayText_eq {front : List Bytes} {text : Bytes} {back : List Bytes} (trailing : Bool) :
    ∃ behind, arrayText (front ++ text :: back) trailing = itemsBefore front ++ text ++ behind := by
  have items : ∃ behind, itemsText (front ++ text :: back) =
      front.flatMap (· ++ [Ascii.comma]) ++ (text ++ behind) := by
    induction front with
    | nil =>
        rw [List.nil_append, List.flatMap_nil]
        cases back with
        | nil =>
            refine ⟨[], ?_⟩
            rw [itemsText, List.intercalate_singleton, List.append_nil, List.nil_append]
        | cons next back =>
            refine ⟨[Ascii.comma] ++ itemsText (next :: back), ?_⟩
            rw [itemsText, List.intercalate_cons_cons, List.append_assoc, List.nil_append,
              itemsText]
    | cons earlier front ih =>
        obtain ⟨behind, following⟩ := ih
        refine ⟨behind, ?_⟩
        obtain ⟨next, others, begins⟩ := List.exists_cons_of_ne_nil
          (List.append_ne_nil_of_right_ne_nil front (List.cons_ne_nil text back))
        rw [itemsText] at following ⊢
        rw [List.cons_append, begins, List.intercalate_cons_cons, ← begins, following,
          List.flatMap_cons]
        simp only [List.append_assoc]
  obtain ⟨behind, items⟩ := items
  exact ⟨_, by rw [arrayText, items, itemsBefore, List.cons_append, List.cons_append,
    List.append_assoc, List.append_assoc, List.append_assoc]⟩

end

/-- **Decoding arrays is compositional.**  For texts each of which is the text of a value, and
whatever the shape of the items:

* the array of the texts is decoded to items exactly if each text is decoded, alone, to its item;
* a comma behind the last of the texts changes nothing;
* if a text is refused, and those before it are not, then the array is refused with the error of
  that text, moved by the bytes before it. -/
theorem decodePayload_array (C : Catalog) (matching : KeyMatching) (shape : C.Shape)
    {texts : List Bytes} (areTexts : ∀ text ∈ texts, IsValueText text) :
    (∀ items : C.Sequence shape,
      (decodePayload C matching (.list shape) (arrayText texts false)).result = .ok (.list items) ↔
        List.Forall₂ (fun text item => (decodePayload C matching shape text).result = .ok item)
          texts items.toList) ∧
    (texts ≠ [] →
      (decodePayload C matching (.list shape) (arrayText texts true)).result =
        (decodePayload C matching (.list shape) (arrayText texts false)).result) ∧
    ∀ front text back error, texts = front ++ text :: back →
      (∀ earlier ∈ front, ∃ item, (decodePayload C matching shape earlier).result = .ok item) →
      (decodePayload C matching shape text).result = .error error →
      ∃ behind, arrayText texts false = itemsBefore front ++ text ++ behind ∧
        (decodePayload C matching (.list shape) (arrayText texts false)).result =
          .error { error with offset := (itemsBefore front).length + error.offset } := by
  have decoded : ∀ {trailing : Bool}, (trailing = true → texts ≠ []) →
      (decodePayload C matching (.list shape) (arrayText texts trailing)).result =
        (decodeEach C matching shape 1 texts).map Val.list :=
    fun settled => decodePayload_arrayText C matching areTexts settled
  have plain := decoded (fun trailing : false = true => absurd trailing Bool.false_ne_true)
  refine ⟨fun items => ?_, fun notEmpty => ?_, ?_⟩
  · rw [plain, ← @decodeEach_eq_ok_iff C matching shape texts 1 items, map_eq_ok_iff]
    simp only [Val.list.injEq, exists_eq_right]
  · rw [plain, decoded fun _ => notEmpty]
  · rintro front text back error rfl accepted refused
    obtain ⟨behind, begins⟩ := @arrayText_eq front text back false
    refine ⟨behind, begins, ?_⟩
    rw [plain, decodeEach_of_refused refused accepted, itemsBefore, List.length_cons,
      Nat.add_comm _ 1]
    rfl

/-- The second of three items is refused, behind the white space before it. -/
theorem decodePayload_array_bytes :
    (∀ text ∈ [bytesOf "1", bytesOf " 300", bytesOf "[]"], IsValueText text) ∧
      (decodePayload Chat .exact (.list (.scalar (.integer .u8))) (bytesOf "[1, 300,[]]")).result =
        .error ⟨.malformed "u8", 4, .integer, some "300"⟩ := by
  have areTexts : ∀ text ∈ [bytesOf "1", bytesOf " 300", bytesOf "[]"], IsValueText text := by
    decide +kernel
  obtain ⟨-, -, refused⟩ := decodePayload_array Chat .exact (.scalar (.integer .u8)) areTexts
  obtain ⟨_, -, decoded⟩ := refused [bytesOf "1"] (bytesOf " 300") [bytesOf "[]"]
    ⟨.malformed "u8", 1, .integer, some "300"⟩ rfl
    (by
      intro earlier isIn
      obtain rfl := List.mem_singleton.mp isIn
      exact ⟨_, Outcome.result_eq_ok_iff.mpr ⟨by decide +kernel, rfl⟩⟩)
    (by decide +kernel)
  exact ⟨areTexts, decoded⟩

end ChatCodec
