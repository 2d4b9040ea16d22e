import ChatCodec.Lexer.Basic
import ChatCodec.Proofs.Decimal.Literal
import ChatCodec.Proofs.Text.Literal

/-!
# The words of tokens

A token takes up a word at the front of a text and leaves the rest of it.
`Scanned.Reads` says which words a token has and what is captured for them, and what must
not follow: numbers and literal words do not go on.  It is exactly what reading one token
does (`Scanned.reads_of_ofBytes`, `Scanned.ofBytes_of_reads`), and it does not depend on how
far the rest goes on (`Scanned.Reads.shorten`).  What follows may even be replaced
(`Scanned.Reads.replace`), as long as it begins alike or ends the word (`Scanned.Ends`).
-/

namespace ChatCodec

set_option autoImplicit false

open Ascii (Stops)

/-- The word of a truth value. -/
def boolWord (value : Bool) : Bytes := if value then bytesOf "true" else bytesOf "false"

namespace Scanned

/-- A token with the word it takes up, what is captured for it, and what follows. -/
inductive Reads : Token → Bytes → Bytes → Bytes → Prop where
  | eof : Reads .eof [] [] []
  | mark {byte : UInt8} {token : Token} (known : punctuation? byte = some token) (rest : Bytes) :
      Reads token [byte] [] rest
  | text {body : Bytes} {units : List TextUnit} (isText : TextScan.IsText body units)
      (rest : Bytes) : Reads .string (Ascii.quote :: body) (TextUnit.spell units) rest
  | number {word rest : Bytes} {literal : NumberLiteral}
      (read : NumberLiteral.ofBytes? word = some literal) (stops : Stops isNumberByte rest) :
      Reads (if literal.isInteger then .integer else .double) word word rest
  | bool (value : Bool) {rest : Bytes} (stops : Stops isWordByte rest) :
      Reads .bool (boolWord value) (boolWord value) rest
  | null {rest : Bytes} (stops : Stops isWordByte rest) :
      Reads .null (bytesOf "null") (bytesOf "null") rest

/-! ## Reading a token -/

/-- The words with a token are the three literals. -/
theorem reads_of_literalToken? {word rest : Bytes} {token : Token}
    (known : literalToken? word = some token) (stops : Stops isWordByte rest) :
    Reads token word word rest := by
  rw [literalToken?] at known
  by_cases truth : word = bytesOf "true" ∨ word = bytesOf "false"
  · rw [if_pos truth] at known
    cases known
    rcases truth with rfl | rfl
    · exact .bool true stops
    · exact .bool false stops
  · rw [if_neg truth] at known
    by_cases null : word = bytesOf "null"
    · rw [if_pos null] at known
      cases known
      rw [null]
      exact .null stops
    · rw [if_neg null] at known
      cases known

/-- **A token that is read has a word at the front of the text.** -/
theorem reads_of_ofBytes {text output : Bytes} {token : Token} {length : Nat}
    (scanned : ofBytes text = .token token length output) :
    ∃ word rest, text = word ++ rest ∧ word.length = length ∧ Reads token word output rest := by
  cases text with
  | nil =>
      cases scanned
      exact ⟨[], [], rfl, rfl, .eof⟩
  | cons byte following =>
      rw [ofBytes] at scanned
      cases known : punctuation? byte with
      | some found =>
          rw [known] at scanned
          cases scanned
          exact ⟨[byte], following, rfl, rfl, .mark known following⟩
      | none =>
          rw [known] at scanned
          simp only at scanned
          by_cases quote : byte = Ascii.quote
          · rw [if_pos quote, ofText] at scanned
            cases ends : (TextScan.ofBytes following).ending.fault? with
            | some reason => rw [ends] at scanned; cases scanned
            | none =>
                rw [ends] at scanned
                cases scanned
                cases scan : TextScan.ofBytes following with
                | mk units ending taken =>
                    rw [scan] at ends
                    have closed : ending = .closed := by
                      cases ending <;> first | rfl | cases ends
                    subst closed
                    obtain ⟨body, rest, rfl, rfl, isText⟩ := TextScan.isText_of_closed _ scan
                    exact ⟨Ascii.quote :: body, rest, by rw [quote, List.cons_append], rfl,
                      .text isText rest⟩
          rw [if_neg quote] at scanned
          by_cases begins : (byte == Ascii.minus || Ascii.isDigit byte) = true
          · rw [if_pos begins] at scanned
            obtain ⟨found, rfl⟩ := Lexer.token_of_ofWord scanned
            rw [ofWord, found] at scanned
            cases scanned
            obtain ⟨literal, read, rfl⟩ := Option.map_eq_some_iff.mp found
            exact ⟨_, _, List.takeWhile_append_dropWhile.symm, rfl,
              .number read (Ascii.stops_dropWhile _)⟩
          rw [if_neg begins] at scanned
          by_cases letter : Ascii.isLetter byte = true
          · rw [if_pos letter] at scanned
            obtain ⟨found, rfl⟩ := Lexer.token_of_ofWord scanned
            rw [ofWord, found] at scanned
            cases scanned
            exact ⟨_, _, List.takeWhile_append_dropWhile.symm, rfl,
              reads_of_literalToken? found (Ascii.stops_dropWhile _)⟩
          · rw [if_neg letter] at scanned
            cases scanned

/-! ## Words are read -/

/-- The marks with their tokens. -/
def marks : List (UInt8 × Token) :=
  [(Ascii.openBrace, .objectStart), (Ascii.closeBrace, .objectEnd),
    (Ascii.openBracket, .arrayStart), (Ascii.closeBracket, .arrayEnd), (Ascii.colon, .colon),
    (Ascii.comma, .comma)]

theorem mem_marks {byte : UInt8} {token : Token} (known : punctuation? byte = some token) :
    (byte, token) ∈ marks := by
  unfold punctuation? at known
  repeat' split at known
  all_goals first
    | cases known; done
    | (next same => cases known; rw [same]; decide)

/-- A mark is in no class of bytes of other tokens. -/
theorem classes_of_punctuation? {byte : UInt8} {token : Token}
    (known : punctuation? byte = some token) :
    byte ≠ Ascii.quote ∧ isNumberByte byte = false ∧ isWordByte byte = false ∧
      Ascii.isSpace byte = false := by
  have classes : ∀ mark ∈ marks, mark.1 ≠ Ascii.quote ∧ isNumberByte mark.1 = false ∧
      isWordByte mark.1 = false ∧ Ascii.isSpace mark.1 = false := by decide
  exact classes _ (mem_marks known)

/-- The token of a mark is neither a scalar nor final. -/
theorem kind_of_punctuation? {byte : UInt8} {token : Token}
    (known : punctuation? byte = some token) : token.isScalar = false ∧ token.isFinal = false := by
  have kinds : ∀ mark ∈ marks, mark.2.isScalar = false ∧ mark.2.isFinal = false := by decide
  exact kinds _ (mem_marks known)

theorem punctuation?_of_isNumberByte {byte : UInt8} (numeric : isNumberByte byte = true) :
    punctuation? byte = none := by
  cases known : punctuation? byte with
  | none => rfl
  | some token =>
      exact absurd numeric (by rw [(classes_of_punctuation? known).2.1]; decide)

/-- A literal word is read. -/
theorem ofBytes_word {byte : UInt8} {tail rest : Bytes} {token : Token}
    (first : punctuation? byte = none ∧ byte ≠ Ascii.quote ∧
      (byte == Ascii.minus || Ascii.isDigit byte) = false ∧ Ascii.isLetter byte = true)
    (all : (byte :: tail).all isWordByte = true)
    (known : literalToken? (byte :: tail) = some token) (stops : Stops isWordByte rest) :
    ofBytes (byte :: tail ++ rest) = .token token (byte :: tail).length (byte :: tail) := by
  obtain ⟨noMark, notQuote, noNumber, letter⟩ := first
  have word := Ascii.takeWhile_append (List.all_eq_true.mp all) stops
  rw [List.cons_append] at word ⊢
  rw [ofBytes, noMark]
  simp only [if_neg notQuote, noNumber, Bool.false_eq_true, if_false, letter, if_true]
  rw [word, ofWord, known]

/-- **A word at the front of a text is read as its token.** -/
theorem ofBytes_of_reads {token : Token} {word output rest : Bytes}
    (reads : Reads token word output rest) :
    ofBytes (word ++ rest) = .token token word.length output := by
  cases reads with
  | eof => rfl
  | mark known rest =>
      rw [List.singleton_append, ofBytes, known]
      rfl
  | @text body units isText rest =>
      have noMark : punctuation? Ascii.quote = none := by decide
      rw [List.cons_append, ofBytes, noMark]
      simp only [if_true]
      rw [isText rest, ofText]
      rfl
  | @number _ _ literal read stops =>
      obtain ⟨byte, tail, rfl, begins, all⟩ := NumberLiteral.exists_cons_of_ofBytes? read
      have notQuote : byte ≠ Ascii.quote := by
        rintro rfl
        exact absurd begins (by decide)
      have run := Ascii.takeWhile_append all stops
      rw [List.cons_append] at run ⊢
      rw [ofBytes, punctuation?_of_isNumberByte (all byte List.mem_cons_self)]
      simp only [if_neg notQuote, begins, if_true]
      rw [run, ofWord, numberToken?, read]
      rfl
  | bool value stops =>
      cases value with
      | true => exact ofBytes_word (by decide) (by decide) (by decide) stops
      | false => exact ofBytes_word (by decide) (by decide) (by decide) stops
  | null stops => exact ofBytes_word (by decide) (by decide) (by decide) stops

/-! ## How far the rest goes on -/

/-- A token does not depend on how far the rest goes on. -/
theorem Reads.shorten {token : Token} {word output other tail : Bytes}
    (reads : Reads token word output (other ++ tail)) : Reads token word output other := by
  have shortens : ∀ {inClass : UInt8 → Bool}, Stops inClass (other ++ tail) →
      Stops inClass other := by
    intro inClass stops byte isIn
    cases other with
    | nil => cases isIn
    | cons first rest => exact stops byte isIn
  generalize whole : other ++ tail = rest at reads
  cases reads with
  | eof =>
      rw [(List.append_eq_nil_iff.mp whole).1]
      exact .eof
  | mark known _ => exact .mark known other
  | text isText _ => exact .text isText other
  | number read stops => exact .number read (shortens (whole ▸ stops))
  | bool value stops => exact .bool value (shortens (whole ▸ stops))
  | null stops => exact .null (shortens (whole ▸ stops))

/-- A token that is not the end has a byte, and does not begin with white space. -/
theorem Reads.exists_cons {token : Token} {word output rest : Bytes}
    (reads : Reads token word output rest) (begun : token ≠ .eof) :
    ∃ byte tail, word = byte :: tail ∧ Ascii.isSpace byte = false := by
  cases reads with
  | eof => exact absurd rfl begun
  | @mark byte _ known _ => exact ⟨byte, [], rfl, (classes_of_punctuation? known).2.2.2⟩
  | text isText _ => exact ⟨Ascii.quote, _, rfl, by decide⟩
  | number read stops =>
      obtain ⟨byte, tail, rfl, begins, -⟩ := NumberLiteral.exists_cons_of_ofBytes? read
      refine ⟨byte, tail, rfl, ?_⟩
      cases space : Ascii.isSpace byte with
      | false => rfl
      | true =>
          simp only [Ascii.isSpace, Bool.or_eq_true, beq_iff_eq] at space
          rcases space with ((rfl | rfl) | rfl) | rfl <;> exact absurd begins (by decide)
  | bool value stops =>
      cases value with
      | true => exact ⟨_, _, rfl, by decide⟩
      | false => exact ⟨_, _, rfl, by decide⟩
  | null stops => exact ⟨_, _, rfl, by decide⟩

/-- What begins with a quote is a text. -/
theorem Reads.exists_text {token : Token} {word output rest bytes : Bytes}
    (reads : Reads token word output rest) (begins : word ++ rest = Ascii.quote :: bytes) :
    token = .string ∧ ∃ body units, word = Ascii.quote :: body ∧ bytes = body ++ rest ∧
      TextScan.IsText body units ∧ output = TextUnit.spell units := by
  cases reads with
  | eof => cases begins
  | mark known _ =>
      obtain ⟨quote, -⟩ := List.cons.inj begins
      exact absurd quote (classes_of_punctuation? known).1
  | @text body units isText _ => exact ⟨rfl, body, units, rfl, (List.cons.inj begins).2.symm, isText, rfl⟩
  | number read stops =>
      obtain ⟨byte, tail, rfl, numeric, -⟩ := NumberLiteral.exists_cons_of_ofBytes? read
      obtain ⟨rfl, -⟩ := List.cons.inj begins
      exact absurd numeric (by decide)
  | bool value stops => cases value <;> cases begins
  | null stops => cases begins

/-- The word of a text. -/
theorem Reads.exists_body {word output rest : Bytes} (reads : Reads .string word output rest) :
    ∃ body units, word = Ascii.quote :: body ∧ TextScan.IsText body units ∧
      output = TextUnit.spell units := by
  generalize string : Token.string = token at reads
  cases reads with
  | eof => cases string
  | mark known _ =>
      have isMark := (kind_of_punctuation? known).1
      rw [← string] at isMark
      cases isMark
  | @text body units isText _ => exact ⟨body, units, rfl, isText, rfl⟩
  | @number _ _ literal _ _ =>
      cases integer : literal.isInteger <;> rw [integer] at string <;> cases string
  | bool value stops => cases string
  | null stops => cases string

/-- The word of a `null`. -/
theorem Reads.eq_null {word output rest : Bytes} (reads : Reads .null word output rest) :
    word = bytesOf "null" := by
  generalize null : Token.null = token at reads
  cases reads with
  | eof => cases null
  | mark known _ =>
      have isMark := (kind_of_punctuation? known).1
      rw [← null] at isMark
      cases isMark
  | text isText _ => cases null
  | @number _ _ literal _ _ =>
      cases integer : literal.isInteger <;> rw [integer] at null <;> cases null
  | bool value stops => cases null
  | null stops => rfl

/-- The word of a mark. -/
theorem Reads.eq_mark {byte : UInt8} {token : Token} {word output rest : Bytes}
    (known : punctuation? byte = some token) (reads : Reads token word output rest) :
    word = [byte] := by
  have kind := kind_of_punctuation? known
  cases reads with
  | eof => cases kind.2
  | @mark other _ known' _ =>
      have distinct : ∀ first ∈ marks, ∀ second ∈ marks, first.2 = second.2 →
          first.1 = second.1 := by decide
      exact congrArg (fun byte => [byte]) (distinct _ (mem_marks known') _ (mem_marks known) rfl)
  | text isText _ => cases kind.1
  | @number _ _ literal _ _ =>
      have scalar := kind.1
      cases integer : literal.isInteger <;> rw [integer] at scalar <;> cases scalar
  | bool value stops => cases kind.1
  | null stops => cases kind.1

/-- The end takes up nothing, and nothing follows. -/
theorem Reads.eq_nil {word output rest : Bytes} (reads : Reads .eof word output rest) :
    word = [] ∧ rest = [] := by
  generalize eof : Token.eof = token at reads
  cases reads with
  | eof => exact ⟨rfl, rfl⟩
  | mark known _ =>
      have isMark := (kind_of_punctuation? known).2
      rw [← eof] at isMark
      cases isMark
  | text isText _ => cases eof
  | @number _ _ literal _ _ =>
      cases integer : literal.isInteger <;> rw [integer] at eof <;> cases eof
  | bool value stops => cases eof
  | null stops => cases eof

/-- A token does not begin with white space. -/
theorem Reads.stops_space {token : Token} {word output rest : Bytes}
    (reads : Reads token word output rest) : Stops Ascii.isSpace (word ++ rest) := by
  by_cases ended : token = .eof
  · subst ended
    obtain ⟨rfl, rfl⟩ := reads.eq_nil
    exact Ascii.stops_nil
  · obtain ⟨byte, tail, rfl, notSpace⟩ := reads.exists_cons ended
    exact Ascii.stops_cons.mpr notSpace

/-! ## What ends a word -/

/-- What follows does not go on with a number or a word. -/
def Ends (rest : Bytes) : Prop := Stops isNumberByte rest ∧ Stops isWordByte rest

theorem ends_nil : Ends [] := ⟨Ascii.stops_nil, Ascii.stops_nil⟩

theorem ends_of_punctuation? {byte : UInt8} {token : Token}
    (known : punctuation? byte = some token) (rest : Bytes) : Ends (byte :: rest) := by
  obtain ⟨-, noNumber, noWord, -⟩ := classes_of_punctuation? known
  exact ⟨Ascii.stops_cons.mpr noNumber, Ascii.stops_cons.mpr noWord⟩

/-- White space ends a word. -/
theorem ends_of_blank {blanks rest : Bytes} (blank : ∀ byte ∈ blanks, Ascii.isSpace byte = true)
    (ends : Ends rest) : Ends (blanks ++ rest) := by
  cases blanks with
  | nil => exact ends
  | cons byte others =>
      have isSpace := blank byte List.mem_cons_self
      simp only [Ascii.isSpace, Bool.or_eq_true, beq_iff_eq] at isSpace
      rw [List.cons_append]
      refine ⟨Ascii.stops_cons.mpr ?_, Ascii.stops_cons.mpr ?_⟩ <;>
        rcases isSpace with ((rfl | rfl) | rfl) | rfl <;> decide

/-- **A token does not depend on what follows**, as long as this begins alike or ends the
word. -/
theorem Reads.replace {token : Token} {word output rest other : Bytes}
    (reads : Reads token word output rest) (begun : token ≠ .eof)
    (alike : other.head? = rest.head? ∨ Ends other) : Reads token word output other := by
  have stops : ∀ {inClass : UInt8 → Bool}, (Ends other → Stops inClass other) →
      Stops inClass rest → Stops inClass other := by
    intro inClass ended stopped
    rcases alike with same | ends
    · intro byte isIn
      exact stopped byte (same ▸ isIn)
    · exact ended ends
  cases reads with
  | eof => exact absurd rfl begun
  | mark known _ => exact .mark known other
  | text isText _ => exact .text isText other
  | number read stopped => exact .number read (stops And.left stopped)
  | bool value stopped => exact .bool value (stops And.right stopped)
  | null stopped => exact .null (stops And.right stopped)

/-! ## How much is taken up -/

theorem length_of_ofWord {token? : Bytes → Option Token} {reason fault : Fault} {word : Bytes}
    {length : Nat} (scanned : ofWord token? reason word = .fault fault length) :
    length = word.length := by
  unfold ofWord at scanned
  split at scanned
  · cases scanned
  · cases scanned
    rfl

/-- A fault takes up no more than there is. -/
theorem length_le_of_fault {text : Bytes} {reason : Fault} {length : Nat}
    (scanned : ofBytes text = .fault reason length) : length ≤ text.length := by
  cases text with
  | nil => cases scanned
  | cons byte rest =>
      have word : ∀ inClass : UInt8 → Bool,
          ((byte :: rest).takeWhile inClass).length ≤ (byte :: rest).length :=
        fun inClass => (List.takeWhile_sublist inClass).length_le
      rw [ofBytes] at scanned
      split at scanned
      · cases scanned
      · split at scanned
        · have within := TextScan.length_le rest
          rw [ofText] at scanned
          split at scanned
          · cases scanned
            exact Nat.succ_le_succ within
          · cases scanned
        · split at scanned
          · rw [length_of_ofWord scanned]
            exact word isNumberByte
          · split at scanned
            · rw [length_of_ofWord scanned]
              exact word isWordByte
            · cases scanned
              exact Nat.succ_le_succ (Nat.zero_le _)

/-- Neither does a token. -/
theorem length_le_of_token {text output : Bytes} {token : Token} {length : Nat}
    (scanned : ofBytes text = .token token length output) : length ≤ text.length := by
  obtain ⟨word, rest, rfl, rfl, -⟩ := reads_of_ofBytes scanned
  rw [List.length_append]
  exact Nat.le_add_right _ _

end Scanned

end ChatCodec
