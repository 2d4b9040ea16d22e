import Mathlib.Data.List.DropRight
import ChatCodec.Entity.Sticker
import ChatCodec.Proofs.Records

/-!
# The tags of a sticker

A sticker keeps its tags as one text.  The pieces between the commas are trimmed, and what is
left of them, if anything is, are the tags.

Trimming does not reach across a comma, and dividing does not see blanks.  So the tags of two
texts with a comma between them are those of the first and then those of the second
(`Tags.ofText_append`), and a text without commas has at most one tag, which is what trimming
leaves of it (`Tags.ofText_of_not_mem`).  These two facts determine the tags of every text.

A tag is not empty, has no comma, and has no blank at either end (`Tags.IsTag`).  Such tags,
whatever they are, come back from the text in which commas join them (`Tags.ofText_intercalate`).
-/

namespace ChatCodec

set_option autoImplicit false

namespace Blank

variable {characters : List Char} {character : Char}

/-- Blanks are dropped at the front first, and then at the end. -/
theorem trim_eq (characters : List Char) :
    trim characters = (characters.dropWhile isBlank).rdropWhile isBlank := rfl

/-- What is left by trimming does not begin with a blank. -/
theorem not_isBlank_head_trim (first : (trim characters).head? = some character) :
    isBlank character = false := by
  obtain ⟨behind, whole⟩ := List.rdropWhile_prefix isBlank (characters.dropWhile isBlank)
  rw [← trim_eq] at whole
  have front : (characters.dropWhile isBlank).head? = some character := by
    rw [← whole, List.head?_append, first]
    rfl
  have stops := List.head?_dropWhile_not isBlank characters
  rw [front] at stops
  exact stops

/-- What is left by trimming does not end with a blank. -/
theorem not_isBlank_getLast_trim (last : (trim characters).getLast? = some character) :
    isBlank character = false := by
  have nonempty : trim characters ≠ [] := by
    intro empty
    rw [empty] at last
    cases last
  have stops := List.rdropWhile_last_not isBlank (characters.dropWhile isBlank) nonempty
  rw [List.getLast?_eq_some_getLast nonempty, Option.some.injEq] at last
  rw [Bool.not_eq_true] at stops
  rw [← last]
  exact stops

/-- Trimming only leaves characters out. -/
theorem mem_of_mem_trim (isIn : character ∈ trim characters) : character ∈ characters := by
  have front : trim characters <+: characters.dropWhile isBlank := List.rdropWhile_prefix isBlank _
  exact (characters.dropWhile_sublist isBlank).subset (front.subset isIn)

/-- Characters with no blank at either end are left as they are. -/
theorem trim_eq_self (begins : ∀ character ∈ characters.head?, isBlank character = false)
    (ends : ∀ character ∈ characters.getLast?, isBlank character = false) :
    trim characters = characters := by
  have front : characters.dropWhile isBlank = characters := by
    cases characters with
    | nil => rfl
    | cons first rest =>
        rw [List.dropWhile_cons_of_neg]
        rw [begins first rfl]
        exact Bool.false_ne_true
  rw [trim_eq, front, List.rdropWhile_eq_self_iff]
  intro nonempty
  rw [ends _ (List.getLast?_eq_some_getLast nonempty)]
  exact Bool.false_ne_true

end Blank

namespace Tags

/-! ## Pieces -/

/-- A text is divided at its commas. -/
theorem pieces_eq_splitOn (characters : List Char) :
    pieces characters = characters.splitOn ',' := by
  induction characters with
  | nil => rfl
  | cons character rest ih =>
      rw [pieces, ih, List.splitOn_cons_eq_if_modifyHead]
      simp only [beq_iff_eq]
      split
      · rfl
      · cases divided : rest.splitOn ',' with
        | nil => exact absurd divided (List.splitOn_ne_nil ',' rest)
        | cons piece others => rfl

theorem pieces_append (first second : List Char) :
    pieces (first ++ ',' :: second) = pieces first ++ pieces second := by
  simp only [pieces_eq_splitOn]
  exact List.splitOn_append_cons_self first second

theorem pieces_of_not_mem {characters : List Char} (whole : ',' ∉ characters) :
    pieces characters = [characters] := by
  rw [pieces_eq_splitOn]
  exact List.splitOn_eq_singleton whole

/-- There is no comma in a piece. -/
theorem comma_not_mem_of_mem_pieces {characters piece : List Char}
    (isPiece : piece ∈ pieces characters) : ',' ∉ piece := by
  induction characters generalizing piece with
  | nil =>
      rw [pieces, List.mem_singleton] at isPiece
      rw [isPiece]
      exact List.not_mem_nil
  | cons character rest ih =>
      rw [pieces] at isPiece
      split at isPiece
      · rcases List.mem_cons.mp isPiece with rfl | later
        · exact List.not_mem_nil
        · exact ih later
      · next differs =>
          split at isPiece
          · next none => exact absurd none (by rw [pieces_eq_splitOn]; exact List.splitOn_ne_nil _ _)
          · next front others divided =>
              rcases List.mem_cons.mp isPiece with rfl | later
              · intro isIn
                rcases List.mem_cons.mp isIn with same | inside
                · exact differs same.symm
                · exact ih (by rw [divided]; exact List.mem_cons_self) inside
              · exact ih (by rw [divided]; exact List.mem_cons_of_mem _ later)

/-! ## Tags -/

/-- A tag is not empty, has no comma, and has no blank at either end. -/
structure IsTag (tag : String) : Prop where
  ne_empty : tag ≠ ""
  noComma : ',' ∉ tag.toList
  begins : ∀ character ∈ tag.toList.head?, Blank.isBlank character = false
  ends : ∀ character ∈ tag.toList.getLast?, Blank.isBlank character = false

/-- **The tags of a text are tags.** -/
theorem isTag_of_mem_ofText {text tag : String} (isIn : tag ∈ ofText text) : IsTag tag := by
  rw [ofText, List.mem_map] at isIn
  obtain ⟨trimmed, kept, rfl⟩ := isIn
  rw [List.mem_filter, List.mem_map] at kept
  obtain ⟨⟨piece, isPiece, rfl⟩, nonempty⟩ := kept
  refine ⟨?_, ?_, ?_, ?_⟩
  · intro empty
    have none : Blank.trim piece = [] := by
      rw [← String.toList_ofList (l := Blank.trim piece), empty]
      rfl
    rw [none] at nonempty
    cases nonempty
  · rw [String.toList_ofList]
    intro isComma
    exact comma_not_mem_of_mem_pieces isPiece (Blank.mem_of_mem_trim isComma)
  · rw [String.toList_ofList]
    intro character first
    exact Blank.not_isBlank_head_trim first
  · rw [String.toList_ofList]
    intro character last
    exact Blank.not_isBlank_getLast_trim last

/-- **The tags of two texts with a comma between them** are those of the first and those of the
second. -/
theorem ofText_append (first second : String) :
    ofText (first ++ "," ++ second) = ofText first ++ ofText second := by
  have divided : (first ++ "," ++ second).toList = first.toList ++ ',' :: second.toList := by
    simp [String.toList_append]
  simp only [ofText, divided, pieces_append, List.map_append, List.filter_append]

/-- **A text without commas** has what trimming leaves of it as its only tag, if anything is
left. -/
theorem ofText_of_not_mem {text : String} (whole : ',' ∉ text.toList) :
    ofText text = if Blank.trimText text = "" then [] else [Blank.trimText text] := by
  rw [ofText, pieces_of_not_mem whole, List.map_singleton, Blank.trimText]
  cases Blank.trim text.toList with
  | nil => rfl
  | cons character rest =>
      have nonempty : String.ofList (character :: rest) ≠ "" := by
        intro empty
        have same := congrArg String.toList empty
        rw [String.toList_ofList] at same
        cases same
      rw [if_neg nonempty]
      rfl

/-- A tag is the only tag of itself. -/
theorem IsTag.ofText_eq {tag : String} (isTag : IsTag tag) : ofText tag = [tag] := by
  have kept : Blank.trimText tag = tag := by
    rw [Blank.trimText, Blank.trim_eq_self isTag.begins isTag.ends, String.ofList_toList]
  rw [ofText_of_not_mem isTag.noComma, kept, if_neg isTag.ne_empty]

/-- **Tags come back from the text in which commas join them.** -/
theorem ofText_intercalate {tags : List String} (areTags : ∀ tag ∈ tags, IsTag tag) :
    ofText (String.intercalate "," tags) = tags := by
  induction tags with
  | nil => rfl
  | cons tag others ih =>
      obtain ⟨isTag, areOthers⟩ := List.forall_mem_cons.mp areTags
      cases others with
      | nil =>
          rw [String.intercalate_singleton]
          exact isTag.ofText_eq
      | cons next rest =>
          rw [String.intercalate_cons_cons, ofText_append, isTag.ofText_eq, ih areOthers]
          rfl

end Tags

namespace Sticker

/-! ## Stickers -/

/-- The tags are the fifth field of a sticker. -/
theorem four_lt_fields : 4 < (Chat.fields .sticker).length := by decide

/-- The sticker with other tags. -/
def withTags (sticker : Sticker) (tags : String) : Sticker :=
  sticker.set ⟨4, four_lt_fields⟩ (.scalar tags)

theorem tags_withTags (sticker : Sticker) (tags : String) :
    (sticker.withTags tags).tags = tags := by
  have written : (sticker.withTags tags).get ⟨4, four_lt_fields⟩ = Val.scalar tags :=
    Record.get_set_same sticker ⟨4, four_lt_fields⟩ (.scalar tags)
  rw [Sticker.tags, written]
  rfl

theorem tagList_withTags (sticker : Sticker) (tags : String) :
    (sticker.withTags tags).tagList = Tags.ofText tags := by
  rw [tagList, tags_withTags]

/-- **The tags of a sticker.**  A comma between two texts keeps their tags apart and in order.
Every tag is a tag: not empty, without commas, and with no blank at either end.  Joining the tags
with commas loses nothing.  And a text without commas has one tag, namely what is left of it
without the blanks at its ends, or none if nothing is left. -/
theorem tagList_laws (sticker : Sticker) :
    (∀ first second : String,
      (sticker.withTags (first ++ "," ++ second)).tagList =
        (sticker.withTags first).tagList ++ (sticker.withTags second).tagList) ∧
    ∀ text : String,
      (∀ tag ∈ (sticker.withTags text).tagList, Tags.IsTag tag) ∧
      (sticker.withTags (String.intercalate "," (sticker.withTags text).tagList)).tagList =
        (sticker.withTags text).tagList ∧
      (',' ∉ text.toList →
        (sticker.withTags text).tagList =
          if Blank.trimText text = "" then [] else [Blank.trimText text]) := by
  simp only [tagList_withTags]
  refine ⟨Tags.ofText_append, fun text => ⟨?_, ?_, Tags.ofText_of_not_mem⟩⟩
  · intro tag isIn
    exact Tags.isTag_of_mem_ofText isIn
  · exact Tags.ofText_intercalate fun tag isIn => Tags.isTag_of_mem_ofText isIn

/-- A sticker that nothing is known of. -/
def blank : Sticker := Chat.blankEntity .sticker

/-- A sticker with two tags and a piece of ideographic blanks between them, and one with a single
tag. -/
theorem tagList_laws_wave :
    ("hello there" ∈ (blank.withTags " wave ,\u3000, hello there").tagList ∧
        Tags.IsTag "hello there") ∧
      ',' ∉ "\u00A0wave ".toList ∧ (blank.withTags "\u00A0wave ").tagList = ["wave"] := by
  obtain ⟨-, laws⟩ := tagList_laws blank
  obtain ⟨areTags, -, -⟩ := laws " wave ,\u3000, hello there"
  obtain ⟨-, -, single⟩ := laws "\u00A0wave "
  have isIn : "hello there" ∈ (blank.withTags " wave ,\u3000, hello there").tagList := by
    rw [tagList_withTags]
    decide +kernel
  have whole : ',' ∉ "\u00A0wave ".toList := by decide
  refine ⟨⟨isIn, areTags _ isIn⟩, whole, ?_⟩
  rw [single whole]
  decide +kernel

end Sticker

end ChatCodec
