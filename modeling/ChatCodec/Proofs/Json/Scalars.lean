import ChatCodec.Json.Piece
import ChatCodec.Proofs.Lexer.Tokens

/-!
# Scalars for a strict reader

The strict reader cuts scalars apart by its own rules.  Where a lexer reads a scalar token,
it passes over the same word (`Json.pass_of_reads`), and the other way round, unless
something follows that a lexer would count to the word (`Json.reads_of_pass`).

The value of a scalar depends on its word alone (`Json.Atom.read_append`), and what a lexer
captures of the word determines it as well (`Json.Atom.shown_of_read`).  Printed integers and
texts are read back (`Json.Atom.read_ofInt`, `Json.Atom.read_quoted`).
-/

namespace ChatCodec

set_option autoImplicit false

open Ascii (Stops)

namespace Json

open Scanned (Reads)

/-! ## Words -/

theorem passWord_append (word rest : Bytes) : passWord word (word ++ rest) = .ok rest := by
  induction word with
  | nil => cases rest <;> rfl
  | cons byte word ih => rw [List.cons_append, passWord, if_pos rfl, ih]

theorem eq_append_of_passWord {word : Bytes} : ∀ {bytes rest : Bytes},
    passWord word bytes = .ok rest → bytes = word ++ rest := by
  induction word with
  | nil =>
      intro bytes rest passed
      cases bytes <;> cases passed <;> rfl
  | cons wanted word ih =>
      intro bytes rest passed
      cases bytes with
      | nil => cases passed
      | cons byte following =>
          rw [passWord] at passed
          by_cases same : byte = wanted
          · rw [if_pos same] at passed
            rw [same, ih passed, List.cons_append]
          · rw [if_neg same] at passed
            cases passed

/-- The literal words: what they begin with, and the token of each. -/
theorem literal_of_wordAt? {byte : UInt8} {word : Bytes} {atom : Atom}
    (found : wordAt? byte = some (word, atom)) :
    (word = bytesOf "null" ∧ atom = .null) ∨ ∃ value, word = boolWord value ∧ atom = .bool value := by
  have isIn := List.mem_of_find?_eq_some found
  simp only [words, List.mem_cons, Prod.mk.injEq, List.not_mem_nil, or_false] at isIn
  rcases isIn with ⟨rfl, rfl⟩ | ⟨rfl, rfl⟩ | ⟨rfl, rfl⟩
  · exact .inl ⟨rfl, rfl⟩
  · exact .inr ⟨true, rfl, rfl⟩
  · exact .inr ⟨false, rfl, rfl⟩

/-! ## Passing over a scalar -/

/-- **A strict reader passes over the word of a scalar token.** -/
theorem pass_of_reads {token : Token} {word output rest : Bytes}
    (reads : Reads token word output rest) (scalar : token.isScalar = true) :
    Scalar.pass (word ++ rest) = .ok rest := by
  cases reads with
  | eof => cases scalar
  | mark known _ => exact absurd scalar (by rw [(Scanned.kind_of_punctuation? known).1]; decide)
  | @text body units isText _ =>
      rw [List.cons_append, Scalar.pass, if_pos rfl]
      simp only [isText rest, textFault?, List.drop_left]
  | @number _ _ literal read stops =>
      obtain ⟨byte, tail, rfl, begins, -⟩ := NumberLiteral.exists_cons_of_ofBytes? read
      have notQuote : byte ≠ Ascii.quote := by
        rintro rfl
        exact absurd begins (by decide)
      have cutOff := NumberLiteral.cut_append read stops
      rw [List.cons_append] at cutOff ⊢
      rw [Scalar.pass, if_neg notQuote, beginsNumber, if_pos begins, cutOff]
  | bool value stops =>
      cases value with
      | true => exact passWord_append (bytesOf "true") rest
      | false => exact passWord_append (bytesOf "false") rest
  | null stops => exact passWord_append (bytesOf "null") rest

/-- A scalar that is passed over takes up a byte. -/
theorem exists_word_of_pass {text rest : Bytes} (passed : Scalar.pass text = .ok rest) :
    ∃ word, word ≠ [] ∧ text = word ++ rest := by
  cases text with
  | nil => cases passed
  | cons byte following =>
      rw [Scalar.pass] at passed
      by_cases quote : byte = Ascii.quote
      · rw [if_pos quote] at passed
        simp only at passed
        cases inOrder : textFault? (TextScan.ofBytes following).ending with
        | some fault => rw [inOrder] at passed; cases passed
        | none =>
            rw [inOrder] at passed
            cases passed
            exact ⟨byte :: following.take _, List.cons_ne_nil _ _,
              by rw [List.cons_append, List.take_append_drop]⟩
      rw [if_neg quote] at passed
      by_cases begins : beginsNumber byte = true
      · rw [if_pos begins] at passed
        cases cutOff : NumberLiteral.cut (byte :: following) with
        | error stuck => rw [cutOff] at passed; cases passed
        | ok result =>
            rw [cutOff] at passed
            cases passed
            obtain ⟨word, same, notNil, -⟩ := NumberLiteral.takes_of_cut cutOff
            exact ⟨word, notNil, same⟩
      rw [if_neg begins] at passed
      cases found : wordAt? byte with
      | none => rw [found] at passed; cases passed
      | some entry =>
          obtain ⟨word, atom⟩ := entry
          rw [found] at passed
          refine ⟨word, ?_, eq_append_of_passWord passed⟩
          rcases literal_of_wordAt? found with ⟨rfl, -⟩ | ⟨value, rfl, -⟩
          · decide
          · cases value <;> decide

/-- **A scalar that is passed over is the word of a token**, if what follows does not go on
with a number or a word. -/
theorem reads_of_pass {text rest : Bytes} (passed : Scalar.pass text = .ok rest)
    (numberStops : Stops isNumberByte rest) (wordStops : Stops isWordByte rest) :
    ∃ token word output, text = word ++ rest ∧ token.isScalar = true ∧
      Reads token word output rest := by
  cases text with
  | nil => cases passed
  | cons byte following =>
      rw [Scalar.pass] at passed
      by_cases quote : byte = Ascii.quote
      · rw [if_pos quote] at passed
        cases scan : TextScan.ofBytes following with
        | mk units ending length =>
            rw [scan] at passed
            simp only at passed
            cases inOrder : textFault? ending with
            | some fault => rw [inOrder] at passed; cases passed
            | none =>
                rw [inOrder] at passed
                cases passed
                cases eq_closed_of_textFault? inOrder
                obtain ⟨body, rest, rfl, rfl, isText⟩ := TextScan.isText_of_closed _ scan
                rw [List.drop_left]
                exact ⟨.string, Ascii.quote :: body, TextUnit.spell units, by rw [quote]; rfl, rfl,
                  .text isText rest⟩
      rw [if_neg quote] at passed
      by_cases begins : beginsNumber byte = true
      · rw [if_pos begins] at passed
        cases cutOff : NumberLiteral.cut (byte :: following) with
        | error stuck => rw [cutOff] at passed; cases passed
        | ok result =>
            obtain ⟨literal, behind⟩ := result
            rw [cutOff] at passed
            cases passed
            obtain ⟨word, same, -, taken, -⟩ := NumberLiteral.takes_of_cut cutOff
            have read : NumberLiteral.ofBytes? word = some literal := by
              have alone := taken.local_ [] (.of_stops Ascii.stops_nil)
              rw [List.append_nil] at alone
              exact NumberLiteral.ofBytes?_eq_some_iff.mpr alone
            refine ⟨_, word, word, same, ?_, .number read numberStops⟩
            split <;> rfl
      rw [if_neg begins] at passed
      cases found : wordAt? byte with
      | none => rw [found] at passed; cases passed
      | some entry =>
          obtain ⟨word, atom⟩ := entry
          rw [found] at passed
          have same := eq_append_of_passWord passed
          rcases literal_of_wordAt? found with ⟨rfl, -⟩ | ⟨value, rfl, -⟩
          · exact ⟨.null, _, _, same, rfl, .null wordStops⟩
          · exact ⟨.bool, _, _, same, rfl, .bool value wordStops⟩

/-- Of the scalars only `null` begins with an `n`. -/
theorem token_eq_null_iff {token : Token} {word output rest : Bytes}
    (reads : Reads token word output rest) (scalar : token.isScalar = true) :
    (word ++ rest).head? = some 0x6E ↔ token = .null := by
  cases reads with
  | eof => cases scalar
  | mark known _ => exact absurd scalar (by rw [(Scanned.kind_of_punctuation? known).1]; decide)
  | text isText _ =>
      exact iff_of_false (fun begins => absurd (Option.some.inj begins) (by decide)) (by decide)
  | @number _ _ literal read stops =>
      obtain ⟨byte, tail, rfl, begins, -⟩ := NumberLiteral.exists_cons_of_ofBytes? read
      refine iff_of_false (fun same => ?_) (by cases literal.isInteger <;> decide)
      rw [List.cons_append, List.head?_cons, Option.some.injEq] at same
      rw [same] at begins
      exact absurd begins (by decide)
  | bool value stops =>
      refine iff_of_false (fun begins => ?_) (by decide)
      cases value with
      | true => exact absurd (Option.some.inj begins) (by decide)
      | false => exact absurd (Option.some.inj begins) (by decide)
  | null stops => exact iff_of_true rfl rfl

/-! ## The value of a scalar -/

theorem readText_append {body : Bytes} {units : List TextUnit}
    (isText : TextScan.IsText body units) (rest : Bytes) :
    readText (body ++ rest) = readText body := by
  have alone := isText []
  rw [List.append_nil] at alone
  rw [readText, readText, isText rest, alone]

theorem readNumber_append {word rest : Bytes} {literal : NumberLiteral}
    (read : NumberLiteral.ofBytes? word = some literal) (stops : Stops isNumberByte rest) :
    readNumber (word ++ rest) =
      match Number.ofLiteral? literal with
      | some number => .ok number
      | none => .error .numberOutOfRange := by
  have cutOff := NumberLiteral.cut_append read stops
  rw [readNumber]
  generalize NumberLiteral.cut (word ++ rest) = front at cutOff ⊢
  subst cutOff
  rfl

/-- The literal of a printed integer denotes this integer. -/
theorem Number.integer?_ofInt {value : Int} (fits : IsWord value) :
    integer? ⟨decide (value < 0), Decimal.ofNat value.natAbs, none, none⟩ =
      some (.integer value fits) := by
  have words : Decimal.wordSize = 0x10000000000000000 := rfl
  have size := Decimal.magnitude?_ofNat (show value.natAbs < Decimal.wordSize by omega)
  have same : (if decide (value < 0) = true then -(value.natAbs : Int) else value.natAbs) = value := by
    by_cases negative : value < 0
    · rw [if_pos (decide_eq_true negative)]
      omega
    · rw [if_neg (by rw [decide_eq_true_eq]; exact negative)]
      omega
  rw [integer?, NumberLiteral.isInteger]
  simp only [Option.isNone_none, Bool.and_self, if_true, size, same]
  rw [if_neg (by rw [decide_eq_true_eq]; omega), dif_pos fits]

namespace Atom

theorem read_text (body : Bytes) : read (Ascii.quote :: body) = (readText body).map .text := by
  rw [read, if_pos rfl]

theorem read_number {word : Bytes} {literal : NumberLiteral}
    (literal_ : NumberLiteral.ofBytes? word = some literal) (rest : Bytes) :
    read (word ++ rest) = (readNumber (word ++ rest)).map .number := by
  obtain ⟨byte, tail, rfl, begins, -⟩ := NumberLiteral.exists_cons_of_ofBytes? literal_
  have notQuote : byte ≠ Ascii.quote := by
    rintro rfl
    exact absurd begins (by decide)
  rw [List.cons_append, read, if_neg notQuote, beginsNumber, if_pos begins]

theorem read_bool (value : Bool) (rest : Bytes) :
    read (boolWord value ++ rest) = .ok (.bool value) := by
  cases value with
  | true => exact congrArg (Except.map fun _ => Atom.bool true) (passWord_append (bytesOf "true") rest)
  | false =>
      exact congrArg (Except.map fun _ => Atom.bool false) (passWord_append (bytesOf "false") rest)

theorem read_null (rest : Bytes) : read (bytesOf "null" ++ rest) = .ok .null :=
  congrArg (Except.map fun _ => Atom.null) (passWord_append (bytesOf "null") rest)

/-- **The value of a scalar depends on its word alone.** -/
theorem read_append {token : Token} {word output rest : Bytes}
    (reads : Reads token word output rest) (scalar : token.isScalar = true) :
    read (word ++ rest) = read word := by
  cases reads with
  | eof => cases scalar
  | mark known _ => exact absurd scalar (by rw [(Scanned.kind_of_punctuation? known).1]; decide)
  | text isText _ => rw [List.cons_append, read_text, read_text, readText_append isText]
  | number literal stops =>
      have alone := read_number literal []
      rw [readNumber_append literal Ascii.stops_nil, List.append_nil] at alone
      rw [read_number literal, readNumber_append literal stops, alone]
  | bool value stops =>
      have alone := read_bool value []
      rw [List.append_nil] at alone
      rw [read_bool, alone]
  | null stops =>
      have alone := read_null []
      rw [List.append_nil] at alone
      rw [read_null, alone]

/-! ## Printed scalars are read -/

/-- A printed integer is read as this integer. -/
theorem read_ofInt {value : Int} (fits : IsWord value) :
    read (Decimal.ofInt value) = .ok (.number (.integer value fits)) := by
  have literal := NumberLiteral.ofBytes?_ofInt value
  have whole := read_number literal []
  rw [readNumber_append literal Ascii.stops_nil, List.append_nil, Number.ofLiteral?,
    Number.integer?_ofInt fits] at whole
  exact whole

/-- A written text is read as this text. -/
theorem read_quoted (text : String) : read (quoted text) = .ok (.text text) := by
  rw [quoted, read_text, readText_escaped]
  rfl

/-! ## What a lexer captures of a scalar -/

/-- An atom, the token that a lexer finds for it, and what it captures.  A double may look
like an integer that no word holds. -/
inductive Shown : Atom → Token → Bytes → Prop where
  | null : Shown .null .null (bytesOf "null")
  | bool (value : Bool) : Shown (.bool value) .bool (boolWord value)
  | integer {value : Int} {fits : IsWord value} {word : Bytes}
      (natural : 0 ≤ value → Decimal.readNatural? word = some value.toNat)
      (signed : -(Decimal.signedLimit : Int) ≤ value → value < Decimal.signedLimit →
        Decimal.readInteger? word = some value) :
      Shown (.number (.integer value fits)) .integer word
  | double (bits : UInt64) (token : Token) (word : Bytes) : Shown (.number (.double bits)) token word
  | text {value : String} {output : Bytes} (same : bytesOf value = output) :
      Shown (.text value) .string output

/-- The integer of a literal is the one that its word is read as. -/
theorem shown_of_integer? {word : Bytes} {literal : NumberLiteral} {number : Number}
    (literal_ : NumberLiteral.ofBytes? word = some literal)
    (found : Number.integer? literal = some number) :
    Shown (.number number) (if literal.isInteger then .integer else .double) word := by
  rw [Number.integer?] at found
  by_cases integer : literal.isInteger = true
  · rw [if_pos integer] at found
    rw [if_pos integer, NumberLiteral.eq_of_isInteger literal_ integer]
    cases magnitude : Decimal.magnitude? literal.whole with
    | none => rw [magnitude] at found; cases found
    | some size =>
        rw [magnitude] at found
        simp only at found
        by_cases minusZero : literal.negative = true ∧ size = 0
        · rw [if_pos minusZero] at found
          cases found
        · rw [if_neg minusZero] at found
          by_cases fits : IsWord (if literal.negative = true then -(size : Int) else size)
          case neg =>
            rw [dif_neg fits] at found
            cases found
          case pos =>
            rw [dif_pos fits] at found
            cases found
            revert fits minusZero
            cases literal.negative with
            | true =>
                intro minusZero fits
                simp only [true_and] at minusZero
                refine .integer (fun positive => ?_) fun low high => ?_
                · simp only [if_true] at positive
                  omega
                · simp only [if_true] at low high ⊢
                  rw [List.singleton_append, Decimal.readInteger?, if_pos rfl, magnitude,
                    Option.bind_some, if_pos (by omega)]
            | false =>
                intro minusZero fits
                obtain ⟨first, rest, same, digit⟩ := Decimal.exists_cons_of_magnitude? magnitude
                rw [same] at magnitude ⊢
                refine .integer (fun _ => ?_) fun low high => ?_
                · simp only [Bool.false_eq_true, if_false, List.nil_append]
                  rw [Decimal.readNatural?, if_neg (Decimal.ne_minus_of_isDigit digit), magnitude]
                  rfl
                · simp only [Bool.false_eq_true, if_false] at low high ⊢
                  rw [List.nil_append, Decimal.readInteger?,
                    if_neg (Decimal.ne_minus_of_isDigit digit), magnitude, Option.bind_some,
                    if_pos (by omega)]
  · rw [if_neg integer] at found
    cases found

/-- **What a lexer captures of a scalar determines its value.** -/
theorem shown_of_read {token : Token} {word output rest : Bytes} {atom : Atom}
    (reads : Reads token word output rest) (scalar : token.isScalar = true)
    (value : read word = .ok atom) : Shown atom token output := by
  cases reads with
  | eof => cases scalar
  | mark known _ => exact absurd scalar (by rw [(Scanned.kind_of_punctuation? known).1]; decide)
  | @text body units isText _ =>
      rw [read_text] at value
      obtain ⟨text, read, rfl⟩ := map_eq_ok_iff.mp value
      have scan := isText []
      rw [List.append_nil] at scan
      rw [readText, scan] at read
      obtain ⟨spelled, strict, decoded⟩ := bind_eq_ok_iff.mp read
      obtain ⟨-, rfl⟩ := spell_of_spellStrictly strict
      cases read : Utf8.decode (TextUnit.spell units) with
      | none => rw [read] at decoded; cases decoded
      | some text =>
          rw [read] at decoded
          cases decoded
          exact .text (Utf8.encode_of_decode read)
  | @number _ _ literal literal_ stops =>
      have alone := read_number literal_ []
      rw [readNumber_append literal_ Ascii.stops_nil, List.append_nil, value] at alone
      obtain ⟨number, found, rfl⟩ := map_eq_ok_iff.mp alone.symm
      cases known : Number.ofLiteral? literal with
      | none => rw [known] at found; cases found
      | some number =>
          rw [known] at found
          cases found
          rw [Number.ofLiteral?] at known
          cases integer : Number.integer? literal with
          | some number =>
              rw [integer] at known
              cases known
              exact shown_of_integer? literal_ integer
          | none =>
              rw [integer] at known
              obtain ⟨bits, -, rfl⟩ := Option.map_eq_some_iff.mp known
              exact .double bits _ _
  | bool truth stops =>
      have alone := read_bool truth []
      rw [List.append_nil, value] at alone
      cases alone
      exact .bool truth
  | null stops =>
      have alone := read_null []
      rw [List.append_nil, value] at alone
      cases alone
      exact .null

end Atom

end Json

end ChatCodec
