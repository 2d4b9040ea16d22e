import ChatCodec.Error
import ChatCodec.Proofs.Lexer.Runs
import ChatCodec.Proofs.Text.Meaning

/-!
# String tokens

A lexer that has a quote before it reads a string exactly if what follows is a sequence of units
and a closing quote, and it then stands right behind that quote.  What it captures is what the
units mean, and can be had as text exactly if the bytes of the literal are UTF-8.  The spelling of
a character makes no difference to either (`Lexer.string_token`).

All that happens between the quotes is settled in the theory of texts; what is left here is the
way from the scan of a text to the token.
-/

namespace ChatCodec

set_option autoImplicit false

namespace Lexer

/-- Behind a quote the lexer reads a text. -/
theorem Faces.scan_quote {lexer : Lexer} {following : Bytes}
    (faces : lexer.Faces (Ascii.quote :: following)) :
    lexer.scan = lexeme (Ascii.quote :: following) lexer.position
      (Scanned.ofText (TextScan.ofBytes following)) := by
  have noSpace : Ascii.isSpace Ascii.quote = false := by decide
  have noMark : Scanned.punctuation? Ascii.quote = none := by decide
  rw [scan, faces.going, faces.ahead_eq]
  simp only [List.dropWhile_cons, List.takeWhile_cons, noSpace, Bool.false_eq_true, if_false,
    List.length_nil, Nat.add_zero]
  rw [Scanned.ofBytes, noMark]
  simp only [if_true]

/-- **The token is a string that ends somewhere exactly if the text has its closing quote
there.** -/
theorem Faces.isString_iff {lexer : Lexer} {following : Bytes} {length : Nat}
    (faces : lexer.Faces (Ascii.quote :: following)) :
    (lexer.scan.token = .string ∧ lexer.scan.lexer.position = lexer.position + (length + 1)) ↔
      ((TextScan.ofBytes following).ending = .closed ∧
        (TextScan.ofBytes following).length = length) := by
  rw [faces.scan_quote]
  cases TextScan.ofBytes following with
  | mk units ending taken =>
      cases ending with
      | closed =>
          simp only [Scanned.ofText, TextEnd.fault?, lexeme, true_and]
          omega
      | _ => simp only [Scanned.ofText, TextEnd.fault?, lexeme, reduceCtorEq, false_and]

/-- A lexer before a literal captures what the units of the literal spell. -/
theorem Faces.output_of_hasUnits {lexer : Lexer} {body rest : Bytes} {units : List TextUnit}
    (faces : lexer.Faces (Ascii.quote :: (body ++ Ascii.quote :: rest)))
    (hasUnits : HasUnits body units) : lexer.scan.lexer.output = TextUnit.spell units := by
  rw [faces.scan_quote, hasUnits.scan rest]
  rfl

/-- The captured bytes can be had as text exactly if they are UTF-8. -/
theorem exists_outputText_iff {lexer : Lexer} :
    (∃ text, lexer.outputText = .ok text) ↔ Utf8.IsText lexer.output := by
  constructor
  · rintro ⟨text, asText⟩
    rw [outputText] at asText
    cases read : Utf8.decode lexer.output with
    | none => rw [read] at asText; cases asText
    | some text => exact ⟨text, Utf8.encode_of_decode read⟩
  · intro isText
    obtain ⟨text, read⟩ := isText.exists_decode
    exact ⟨text, by rw [outputText, read]⟩

/-- The token of a literal is a string that ends behind its closing quote exactly if the bytes
between the quotes are a sequence of units. -/
theorem Faces.isString_iff_isUnits {lexer : Lexer} {body rest : Bytes}
    (faces : lexer.Faces (Ascii.quote :: (body ++ Ascii.quote :: rest))) :
    (lexer.scan.token = .string ∧
      lexer.scan.lexer.position = lexer.position + (body.length + 2)) ↔ IsUnits body :=
  faces.isString_iff.trans (TextScan.closed_iff body rest)

/-- **String tokens.**  For whatever stands between two quotes:

* the token is a string that ends behind the second quote exactly if the bytes between the quotes
  are a sequence of raw bytes, one-letter escapes and `\u` escapes;
* what is captured is then the one meaning of these bytes, and it can be had as text exactly if
  the bytes are UTF-8;
* respelling a character anywhere among them, as an escape or as it stands, changes neither what
  is captured nor whether it can be had as text, whatever stands behind the literal. -/
theorem string_token {lexer : Lexer} {body rest : Bytes}
    (faces : lexer.Faces (Ascii.quote :: (body ++ Ascii.quote :: rest))) :
    ((lexer.scan.token = .string ∧
        lexer.scan.lexer.position = lexer.position + (body.length + 2)) ↔ IsUnits body) ∧
      (IsUnits body →
        (∀ meaning, Means body meaning ↔ lexer.scan.lexer.output = meaning) ∧
          ((∃ text, lexer.scan.lexer.outputText = .ok text) ↔ Utf8.IsText body)) ∧
      ∀ {front back spelling other : Bytes} {character : Char},
        body = front ++ spelling ++ back → IsUnits front → IsUnits back →
        SpellsChar character spelling → SpellsChar character other →
        ∀ {respelled : Lexer} {behind : Bytes},
          respelled.Faces (Ascii.quote :: (front ++ other ++ back ++ Ascii.quote :: behind)) →
          (respelled.scan.token = .string ∧ respelled.scan.lexer.position =
              respelled.position + ((front ++ other ++ back).length + 2)) ∧
            respelled.scan.lexer.output = lexer.scan.lexer.output ∧
            ((∃ text, respelled.scan.lexer.outputText = .ok text) ↔
              ∃ text, lexer.scan.lexer.outputText = .ok text) := by
  refine ⟨faces.isString_iff_isUnits, ?_, ?_⟩
  · intro areUnits
    obtain ⟨meaning, means⟩ := (isStringBody_iff.mpr areUnits).exists_means
    obtain ⟨units, hasUnits, spelled, -⟩ := means.exists_units
    have captured : lexer.scan.lexer.output = meaning :=
      (faces.output_of_hasUnits hasUnits).trans spelled
    refine ⟨fun other => ⟨fun alsoMeans => ?_, fun same => ?_⟩, ?_⟩
    · rw [captured, ← spelled, alsoMeans.eq_spell hasUnits.closed]
    · rwa [← same, captured]
    · rw [exists_outputText_iff, captured]
      exact means.isText_iff
  · intro front back spelling other character whole isFront isBack spells spellsToo respelled behind
      faces'
    obtain ⟨meaning, spell⟩ := exists_spell_respelled isFront isBack
    obtain ⟨units, hasUnits, spelled⟩ := spell spells
    obtain ⟨units', hasUnits', spelled'⟩ := spell spellsToo
    rw [← whole] at hasUnits
    have same : respelled.scan.lexer.output = lexer.scan.lexer.output := by
      rw [faces'.output_of_hasUnits hasUnits', faces.output_of_hasUnits hasUnits, spelled, spelled']
    refine ⟨faces'.isString_iff_isUnits.mpr hasUnits'.isUnits, same, ?_⟩
    rw [exists_outputText_iff, exists_outputText_iff, same]

/-- The text `a\u00e9\ud800`: an escaped letter between a raw one and a surrogate outside a pair.
With the letter as it stands, the same bytes are captured. -/
theorem string_token_accent :
    (ofBytes [0x22, 0x61, 0x5C, 0x75, 0x30, 0x30, 0x65, 0x39, 0x5C, 0x75, 0x64, 0x38, 0x30, 0x30,
        0x22]).Faces
          (Ascii.quote :: ([0x61, 0x5C, 0x75, 0x30, 0x30, 0x65, 0x39, 0x5C, 0x75, 0x64, 0x38, 0x30,
            0x30] ++ Ascii.quote :: [])) ∧
      Means [0x61, 0x5C, 0x75, 0x30, 0x30, 0x65, 0x39, 0x5C, 0x75, 0x64, 0x38, 0x30, 0x30]
        [0x61, 0xC3, 0xA9, 0xEF, 0xBF, 0xBD] ∧
      (ofBytes [0x22, 0x61, 0xC3, 0xA9, 0x5C, 0x75, 0x64, 0x38, 0x30, 0x30,
        0x22]).scan.lexer.output = [0x61, 0xC3, 0xA9, 0xEF, 0xBF, 0xBD] := by
  have faces : (ofBytes [0x22, 0x61, 0x5C, 0x75, 0x30, 0x30, 0x65, 0x39, 0x5C, 0x75, 0x64, 0x38,
      0x30, 0x30, 0x22]).Faces
        (Ascii.quote :: ([0x61, 0x5C, 0x75, 0x30, 0x30, 0x65, 0x39, 0x5C, 0x75, 0x64, 0x38, 0x30,
          0x30] ++ Ascii.quote :: [])) := ⟨rfl, rfl⟩
  obtain ⟨isString, captures, respell⟩ := string_token faces
  obtain ⟨captured, -⟩ := captures (isString.mp (by decide))
  have means := (captured [0x61, 0xC3, 0xA9, 0xEF, 0xBF, 0xBD]).mpr (by decide)
  have isFront : IsUnits [0x61] := isStringBody_iff.mp (.raw (by decide) .nil)
  have isBack : IsUnits [0x5C, 0x75, 0x64, 0x38, 0x30, 0x30] :=
    isStringBody_iff.mp (.code (by decide) .nil)
  have escaped : SpellsChar (Char.ofNat 0xE9) [0x5C, 0x75, 0x30, 0x30, 0x65, 0x39] :=
    .inr (.code (isCodeEscape_iff.mpr ⟨_, _, _, _, rfl, by decide⟩) (by decide))
  have asItStands : SpellsChar (Char.ofNat 0xE9) [0xC3, 0xA9] := .inl ⟨by decide, by decide⟩
  have faces' : (ofBytes [0x22, 0x61, 0xC3, 0xA9, 0x5C, 0x75, 0x64, 0x38, 0x30, 0x30, 0x22]).Faces
      (Ascii.quote :: ([0x61] ++ [0xC3, 0xA9] ++ [0x5C, 0x75, 0x64, 0x38, 0x30, 0x30] ++
        Ascii.quote :: [])) := ⟨rfl, rfl⟩
  obtain ⟨-, same, -⟩ := respell rfl isFront isBack escaped asItStands faces'
  exact ⟨faces, means, same.trans ((captured _).mp means)⟩

end Lexer

end ChatCodec
