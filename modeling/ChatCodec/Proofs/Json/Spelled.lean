import ChatCodec.Proofs.Json.Pieces
import ChatCodec.Proofs.Printing

/-!
# The tokens of printed JSON

Tokens spell a JSON value out (`Json.Spells`) if they are nested like it, with the marks of
the grammar between its parts, and show its scalars.  A lexer that has the compact form of
a value before it reads tokens that spell the value out (`Json.Value.isRead`), unless there
is a double in it.

What follows the form may be anything that does not go on with a number or a word, as a mark
does (`Scanned.Ends`).  So the lemma holds for the parts of a value too, and an induction over
the value proves it.
-/

namespace ChatCodec

set_option autoImplicit false

namespace Json

open Scanned (Ends Reads ends_of_punctuation?)

/-! ## Tokens that spell a value out -/

/-- The token is a scalar of that value. -/
structure Shows (lexeme : Lexeme) (atom : Atom) : Prop where
  isScalar : lexeme.token.isScalar = true
  reads : ∃ rest, Reads lexeme.token lexeme.source lexeme.lexer.output rest
  read : Atom.read lexeme.source = .ok atom

theorem Shows.shown {lexeme : Lexeme} {atom : Atom} (shows : Shows lexeme atom) :
    Atom.Shown atom lexeme.token lexeme.lexer.output := by
  obtain ⟨rest, reads⟩ := shows.reads
  exact Atom.shown_of_read reads shows.isScalar shows.read

mutual

/-- The tokens spell the value out. -/
inductive Spells : Tree Lexeme → Value → Prop where
  | atom {lexeme : Lexeme} {atom : Atom} (shows : Shows lexeme atom) :
      Spells (.leaf lexeme) atom.value
  | array {opening : Lexeme} {body : Body Lexeme} {items : Items}
      (begins : opening.token = .arrayStart) (inside : SpellsItems .opened body items) :
      Spells (.group opening body) (.array items)
  | object {opening : Lexeme} {body : Body Lexeme} {members : Members}
      (begins : opening.token = .objectStart) (inside : SpellsMembers .opened body members) :
      Spells (.group opening body) (.object members)

/-- The tokens spell the rest of an array out, from a stage on. -/
inductive SpellsItems : Stage → Body Lexeme → Items → Prop where
  | close {stage : Stage} {ending : Lexeme} (ends : stage = .opened ∨ stage = .filled)
      (closes : ending.token = .arrayEnd) : SpellsItems stage (.close ending) .nil
  | item {stage : Stage} {tree : Tree Lexeme} {rest : Body Lexeme} {head : Value} {tail : Items}
      (begins : stage ≠ .filled) (spells : Spells tree head)
      (following : SpellsItems .filled rest tail) :
      SpellsItems stage (.more tree rest) (.cons head tail)
  | comma {mark : Lexeme} {rest : Body Lexeme} {items : Items} (separates : mark.token = .comma)
      (following : SpellsItems .separated rest items) :
      SpellsItems .filled (.more (.leaf mark) rest) items

/-- The tokens spell the rest of an object out, from a stage on. -/
inductive SpellsMembers : Stage → Body Lexeme → Members → Prop where
  | close {stage : Stage} {ending : Lexeme} (ends : stage = .opened ∨ stage = .filled)
      (closes : ending.token = .objectEnd) : SpellsMembers stage (.close ending) .nil
  | member {stage : Stage} {name mark : Lexeme} {tree : Tree Lexeme} {rest : Body Lexeme}
      {key : String} {value : Value} {tail : Members}
      (begins : stage = .opened ∨ stage = .separated) (names : Shows name (.text key))
      (announces : mark.token = .colon) (spells : Spells tree value)
      (following : SpellsMembers .filled rest tail) :
      SpellsMembers stage (.more (.leaf name) (.more (.leaf mark) (.more tree rest)))
        (.cons key value tail)
  | comma {mark : Lexeme} {rest : Body Lexeme} {members : Members} (separates : mark.token = .comma)
      (following : SpellsMembers .separated rest members) :
      SpellsMembers .filled (.more (.leaf mark) rest) members

end

/-- Tokens that spell a value out begin like a value. -/
theorem Spells.isValue {tokens : Tree Lexeme} {value : Value} (spells : Spells tokens value) :
    tokens.head.token.isValue = true := by
  cases spells with
  | atom shows => rw [Tree.head, Token.isValue, shows.isScalar, Bool.true_or]
  | array begins inside => rw [Tree.head, begins]; rfl
  | object begins inside => rw [Tree.head, begins]; rfl

/-- The tokens of a scalar are one. -/
theorem Spells.exists_leaf {tokens : Tree Lexeme} (atom : Atom) (spells : Spells tokens atom.value) :
    ∃ lexeme, tokens = .leaf lexeme ∧ Shows lexeme atom := by
  generalize same : atom.value = value at spells
  cases spells with
  | @atom lexeme other shows =>
      have atomSame : atom = other := by cases atom <;> cases other <;> cases same <;> rfl
      exact ⟨lexeme, rfl, atomSame ▸ shows⟩
  | array begins inside => cases atom <;> cases same
  | object begins inside => cases atom <;> cases same

/-- The tokens of an array. -/
theorem Spells.exists_array {tokens : Tree Lexeme} {items : Items}
    (spells : Spells tokens (.array items)) :
    ∃ opening body, tokens = .group opening body ∧ opening.token = .arrayStart ∧
      SpellsItems .opened body items := by
  generalize same : Value.array items = value at spells
  cases spells with
  | @atom lexeme atom shows => cases atom <;> cases same
  | array begins inside =>
      cases same
      exact ⟨_, _, rfl, begins, inside⟩
  | object begins inside => cases same

/-- The tokens of an object. -/
theorem Spells.exists_object {tokens : Tree Lexeme} {members : Members}
    (spells : Spells tokens (.object members)) :
    ∃ opening body, tokens = .group opening body ∧ opening.token = .objectStart ∧
      SpellsMembers .opened body members := by
  generalize same : Value.object members = value at spells
  cases spells with
  | @atom lexeme atom shows => cases atom <;> cases same
  | array begins inside => cases same
  | object begins inside =>
      cases same
      exact ⟨_, _, rfl, begins, inside⟩

/-- The token `null` spells out nothing else than `null`. -/
theorem Spells.token_eq_null_iff {tokens : Tree Lexeme} {value : Value}
    (spells : Spells tokens value) : tokens.head.token = .null ↔ value = .null := by
  constructor
  · intro null
    cases spells with
    | @atom lexeme atom shows =>
        obtain ⟨rest, reads⟩ := shows.reads
        rw [Tree.head] at null
        rw [null] at reads
        have read := shows.read
        have alone := Atom.read_null []
        rw [List.append_nil] at alone
        rw [reads.eq_null, alone] at read
        cases read
        rfl
    | array begins inside => rw [Tree.head, begins] at null; cases null
    | object begins inside => rw [Tree.head, begins] at null; cases null
  · rintro rfl
    obtain ⟨lexeme, rfl, shows⟩ := Spells.exists_leaf .null spells
    have shown := shows.shown
    rw [Tree.head]
    generalize lexeme.token = token, lexeme.lexer.output = output at shown
    cases shown
    rfl

/-- Behind a comma there is a further member, and nothing else ends an object but its mark. -/
theorem SpellsMembers.exists_close {stage : Stage} {body : Body Lexeme}
    (spells : SpellsMembers stage body .nil) :
    (stage = .opened ∨ stage = .filled) ∧
      ∃ ending, ending.token = .objectEnd ∧ body = .close ending := by
  cases spells with
  | close ends closes => exact ⟨ends, _, closes, rfl⟩
  | comma separates following =>
      cases following with
      | close ends closes => rcases ends with same | same <;> cases same

/-- The tokens of a member, with the comma before it if it is not the first. -/
theorem SpellsMembers.exists_member {stage : Stage} {body : Body Lexeme} {key : String}
    {value : Value} {tail : Members} (spells : SpellsMembers stage body (.cons key value tail)) :
    ∃ name mark tree rest, Shows name (.text key) ∧ mark.token = .colon ∧ Spells tree value ∧
      SpellsMembers .filled rest tail ∧
        ((stage = .opened ∨ stage = .separated) ∧
            body = .more (.leaf name) (.more (.leaf mark) (.more tree rest)) ∨
          stage = .filled ∧ ∃ comma, comma.token = .comma ∧
            body = .more (.leaf comma) (.more (.leaf name) (.more (.leaf mark) (.more tree rest)))) := by
  cases spells with
  | member begins names announces spells following =>
      exact ⟨_, _, _, _, names, announces, spells, following, .inl ⟨begins, rfl⟩⟩
  | comma separates following =>
      cases following with
      | member begins names announces spells following =>
          exact ⟨_, _, _, _, names, announces, spells, following,
            .inr ⟨rfl, _, separates, rfl⟩⟩

/-- Behind a comma there is a further item. -/
theorem SpellsItems.exists_close {stage : Stage} {body : Body Lexeme}
    (spells : SpellsItems stage body .nil) :
    (stage = .opened ∨ stage = .filled) ∧
      ∃ ending, ending.token = .arrayEnd ∧ body = .close ending := by
  cases spells with
  | close ends closes => exact ⟨ends, _, closes, rfl⟩
  | comma separates following =>
      cases following with
      | close ends closes => rcases ends with same | same <;> cases same

/-- The tokens of an item, with the comma before it if it is not the first. -/
theorem SpellsItems.exists_item {stage : Stage} {body : Body Lexeme} {head : Value} {tail : Items}
    (spells : SpellsItems stage body (.cons head tail)) :
    ∃ tree rest, Spells tree head ∧ SpellsItems .filled rest tail ∧
      (stage ≠ .filled ∧ body = .more tree rest ∨
        stage = .filled ∧ ∃ comma, comma.token = .comma ∧
          body = .more (.leaf comma) (.more tree rest)) := by
  cases spells with
  | item begins spells following => exact ⟨_, _, spells, following, .inl ⟨begins, rfl⟩⟩
  | comma separates following =>
      cases following with
      | item begins spells following =>
          exact ⟨_, _, spells, following, .inr ⟨rfl, _, separates, rfl⟩⟩

mutual

/-- Tokens that spell a value out are nested. -/
theorem Spells.isNested : ∀ {tokens : Tree Lexeme} {value : Value}, Spells tokens value →
    tokens.IsNested fun lexeme => lexeme.token.role
  | _, _, .atom shows => by
      rw [Tree.IsNested]
      exact Token.role_of_isScalar shows.isScalar
  | _, _, .array begins inside => by
      rw [Tree.IsNested, begins]
      exact ⟨rfl, inside.isNested⟩
  | _, _, .object begins inside => by
      rw [Tree.IsNested, begins]
      exact ⟨rfl, inside.isNested⟩

theorem SpellsItems.isNested : ∀ {stage : Stage} {body : Body Lexeme} {items : Items},
    SpellsItems stage body items → body.IsNested fun lexeme => lexeme.token.role
  | _, _, _, .close _ closes => by
      rw [Body.IsNested, closes]
      rfl
  | _, _, _, .item _ spells following => by
      rw [Body.IsNested]
      exact ⟨spells.isNested, following.isNested⟩
  | _, _, _, .comma separates following => by
      rw [Body.IsNested, Tree.IsNested, separates]
      exact ⟨rfl, following.isNested⟩

theorem SpellsMembers.isNested : ∀ {stage : Stage} {body : Body Lexeme} {members : Members},
    SpellsMembers stage body members → body.IsNested fun lexeme => lexeme.token.role
  | _, _, _, .close _ closes => by
      rw [Body.IsNested, closes]
      rfl
  | _, _, _, .member _ names announces spells following => by
      rw [Body.IsNested, Body.IsNested, Body.IsNested, Tree.IsNested, Tree.IsNested, announces]
      exact ⟨Token.role_of_isScalar names.isScalar, rfl, spells.isNested, following.isNested⟩
  | _, _, _, .comma separates following => by
      rw [Body.IsNested, Tree.IsNested, separates]
      exact ⟨rfl, following.isNested⟩

end

/-! ## Reading a printed value -/

/-- The lexer reads tokens that spell the value out, and has `rest` before it then. -/
def ReadsValue (lexer : Lexer) (value : Value) (rest : Bytes) : Prop :=
  ∃ tokens last, Spells tokens value ∧ Lexer.Run lexer tokens.items last ∧ last.Faces rest

/-- The lexer reads tokens that spell the rest of an array out. -/
def ReadsItems (stage : Stage) (lexer : Lexer) (items : Items) (rest : Bytes) : Prop :=
  ∃ body last, SpellsItems stage body items ∧ Lexer.Run lexer body.items last ∧ last.Faces rest

/-- The lexer reads tokens that spell the rest of an object out. -/
def ReadsMembers (stage : Stage) (lexer : Lexer) (members : Members) (rest : Bytes) : Prop :=
  ∃ body last, SpellsMembers stage body members ∧ Lexer.Run lexer body.items last ∧
    last.Faces rest

variable {lexer : Lexer} {stage : Stage} {rest between : Bytes}

/-- A word that is read as a scalar. -/
theorem exists_shows {token : Token} {word output : Bytes} {atom : Atom}
    (faces : lexer.Faces (word ++ rest)) (reads : Reads token word output rest)
    (isScalar : token.isScalar = true) (read : Atom.read word = .ok atom) :
    ∃ lexeme last, Shows lexeme atom ∧ Lexer.Run lexer [lexeme] last ∧ last.Faces rest := by
  obtain ⟨lexeme, rfl, rfl, rfl, run, behind⟩ :=
    faces.exists_lexeme reads (Token.isFinal_of_isScalar isScalar)
  exact ⟨lexeme, lexeme.lexer, ⟨isScalar, ⟨rest, reads⟩, read⟩, run, behind⟩

theorem ReadsValue.of_reads {token : Token} {word output : Bytes} {atom : Atom}
    (faces : lexer.Faces (word ++ rest)) (reads : Reads token word output rest)
    (isScalar : token.isScalar = true) (read : Atom.read word = .ok atom) :
    ReadsValue lexer atom.value rest := by
  obtain ⟨lexeme, last, shows, run, behind⟩ := exists_shows faces reads isScalar read
  exact ⟨.leaf lexeme, last, .atom shows, run, behind⟩

/-- A printed text is read. -/
theorem exists_shows_text {text : String} (faces : lexer.Faces (quoted text ++ rest)) :
    ∃ lexeme last, Shows lexeme (.text text) ∧ Lexer.Run lexer [lexeme] last ∧
      last.Faces rest :=
  exists_shows faces (.text (TextScan.isText_escaped _) rest) rfl (Atom.read_quoted text)

/-! ### Items and members -/

theorem ReadsItems.close (ends : stage = .opened ∨ stage = .filled)
    (faces : lexer.Faces (Ascii.closeBracket :: rest)) : ReadsItems stage lexer .nil rest := by
  obtain ⟨lexeme, closes, run, behind⟩ := faces.exists_mark rfl
  exact ⟨.close lexeme, lexeme.lexer, .close ends closes, run, behind⟩

theorem ReadsItems.item {head : Value} {tail : Items} (begins : stage ≠ .filled)
    (reads : ReadsValue lexer head between)
    (following : ∀ {middle : Lexer}, middle.Faces between → ReadsItems .filled middle tail rest) :
    ReadsItems stage lexer (.cons head tail) rest := by
  obtain ⟨tree, middle, spells, run, behindHead⟩ := reads
  obtain ⟨body, last, spellsTail, runTail, behind⟩ := following behindHead
  exact ⟨.more tree body, last, .item begins spells spellsTail, run.append runTail, behind⟩

theorem ReadsItems.comma {items : Items} (faces : lexer.Faces (Ascii.comma :: between))
    (following : ∀ {middle : Lexer}, middle.Faces between →
      ReadsItems .separated middle items rest) : ReadsItems .filled lexer items rest := by
  obtain ⟨mark, separates, run, behindComma⟩ := faces.exists_mark rfl
  obtain ⟨body, last, spells, runRest, behind⟩ := following behindComma
  exact ⟨.more (.leaf mark) body, last, .comma separates spells, run.append runRest, behind⟩

theorem ReadsMembers.close (ends : stage = .opened ∨ stage = .filled)
    (faces : lexer.Faces (Ascii.closeBrace :: rest)) : ReadsMembers stage lexer .nil rest := by
  obtain ⟨lexeme, closes, run, behind⟩ := faces.exists_mark rfl
  exact ⟨.close lexeme, lexeme.lexer, .close ends closes, run, behind⟩

theorem ReadsMembers.member {key : String} {value : Value} {tail : Members} {inner : Bytes}
    (begins : stage = .opened ∨ stage = .separated)
    (faces : lexer.Faces (quoted key ++ Ascii.colon :: inner))
    (reads : ∀ {middle : Lexer}, middle.Faces inner → ReadsValue middle value between)
    (following : ∀ {middle : Lexer}, middle.Faces between →
      ReadsMembers .filled middle tail rest) :
    ReadsMembers stage lexer (.cons key value tail) rest := by
  obtain ⟨name, named, names, runName, atColon⟩ := exists_shows_text faces
  obtain ⟨mark, announces, runMark, atValue⟩ := atColon.exists_mark rfl
  obtain ⟨tree, middle, spells, runValue, behindValue⟩ := reads atValue
  obtain ⟨body, last, spellsTail, runTail, behind⟩ := following behindValue
  exact ⟨.more (.leaf name) (.more (.leaf mark) (.more tree body)), last,
    .member begins names announces spells spellsTail,
    runName.append (runMark.append (runValue.append runTail)), behind⟩

theorem ReadsMembers.comma {members : Members} (faces : lexer.Faces (Ascii.comma :: between))
    (following : ∀ {middle : Lexer}, middle.Faces between →
      ReadsMembers .separated middle members rest) : ReadsMembers .filled lexer members rest := by
  obtain ⟨mark, separates, run, behindComma⟩ := faces.exists_mark rfl
  obtain ⟨body, last, spells, runRest, behind⟩ := following behindComma
  exact ⟨.more (.leaf mark) body, last, .comma separates spells, run.append runRest, behind⟩

theorem ReadsValue.array {items : Items} (faces : lexer.Faces (Ascii.openBracket :: between))
    (following : ∀ {middle : Lexer}, middle.Faces between →
      ReadsItems .opened middle items rest) : ReadsValue lexer (.array items) rest := by
  obtain ⟨opening, begins, run, inside⟩ := faces.exists_mark rfl
  obtain ⟨body, last, spells, runBody, behind⟩ := following inside
  exact ⟨.group opening body, last, .array begins spells, run.append runBody, behind⟩

theorem ReadsValue.object {members : Members} (faces : lexer.Faces (Ascii.openBrace :: between))
    (following : ∀ {middle : Lexer}, middle.Faces between →
      ReadsMembers .opened middle members rest) : ReadsValue lexer (.object members) rest := by
  obtain ⟨opening, begins, run, inside⟩ := faces.exists_mark rfl
  obtain ⟨body, last, spells, runBody, behind⟩ := following inside
  exact ⟨.group opening body, last, .object begins spells, run.append runBody, behind⟩

/-! ### Values -/

mutual

/-- Whether no number of a value is a double. -/
def Value.isExact : Value → Bool
  | .number (.double _) => false
  | .array items => items.isExact
  | .object members => members.isExact
  | _ => true

/-- Whether no number of the items is a double. -/
def Items.isExact : Items → Bool
  | .nil => true
  | .cons head tail => head.isExact && tail.isExact

/-- Whether no number of the members is a double. -/
def Members.isExact : Members → Bool
  | .nil => true
  | .cons _ value tail => value.isExact && tail.isExact

end

/-- What follows an item ends its words. -/
theorem Items.ends_printTail (items : Items) (rest : Bytes) :
    Ends (items.printTail ++ Ascii.closeBracket :: rest) := by
  cases items with
  | nil => exact ends_of_punctuation? (show Scanned.punctuation? Ascii.closeBracket = _ from rfl) rest
  | cons head tail => exact ends_of_punctuation? (show Scanned.punctuation? Ascii.comma = _ from rfl) _

/-- What follows a member ends its words. -/
theorem Members.ends_printTail (members : Members) (rest : Bytes) :
    Ends (members.printTail ++ Ascii.closeBrace :: rest) := by
  cases members with
  | nil => exact ends_of_punctuation? (show Scanned.punctuation? Ascii.closeBrace = _ from rfl) rest
  | cons key value tail => exact ends_of_punctuation? (show Scanned.punctuation? Ascii.comma = _ from rfl) _

mutual

/-- **A lexer that has a printed value before it reads tokens that spell it out.** -/
theorem Value.isRead : ∀ {value : Value}, value.isExact = true → ∀ {lexer : Lexer} {rest : Bytes},
    Ends rest → lexer.Faces (value.print ++ rest) → ReadsValue lexer value rest
  | .null, _, lexer, rest, ends, faces => by
      rw [Value.print, Value.printBefore, List.append_nil] at faces
      have alone := Atom.read_null []
      rw [List.append_nil] at alone
      have reads := ReadsValue.of_reads faces (.null ends.2) rfl alone
      exact reads
  | .bool value, _, lexer, rest, ends, faces => by
      rw [Value.print, Value.printBefore, List.append_nil] at faces
      have alone := Atom.read_bool value []
      rw [List.append_nil] at alone
      have reads := ReadsValue.of_reads faces (.bool value ends.2) rfl alone
      exact reads
  | .number (.integer value fits), _, lexer, rest, ends, faces => by
      rw [Value.print, Value.printBefore, List.append_nil] at faces
      have reads := ReadsValue.of_reads faces
        (.number (NumberLiteral.ofBytes?_ofInt value) ends.1) rfl (Atom.read_ofInt fits)
      exact reads
  | .text value, _, lexer, rest, _, faces => by
      rw [Value.print, Value.printBefore, List.append_nil] at faces
      obtain ⟨lexeme, last, shows, run, behind⟩ := exists_shows_text faces
      exact ⟨.leaf lexeme, last, .atom shows, run, behind⟩
  | .array .nil, _, lexer, rest, _, faces => by
      rw [Value.print_array] at faces
      exact .array faces fun between => .close (.inl rfl) between
  | .array (.cons head tail), exact_, lexer, rest, _, faces => by
      rw [Value.isExact, Items.isExact, Bool.and_eq_true] at exact_
      rw [Value.print_array, Items.print_cons] at faces
      simp only [List.append_assoc, List.cons_append, List.nil_append] at faces
      apply ReadsValue.array faces
      intro next atHead
      exact .item (by decide) (head.isRead exact_.1 (tail.ends_printTail rest) atHead)
        fun behind => tail.isRead exact_.2 behind
  | .object .nil, _, lexer, rest, _, faces => by
      rw [Value.print_object] at faces
      exact .object faces fun between => .close (.inl rfl) between
  | .object (.cons key value tail), exact_, lexer, rest, _, faces => by
      rw [Value.isExact, Members.isExact, Bool.and_eq_true] at exact_
      rw [Value.print_object, Members.print_cons] at faces
      simp only [List.append_assoc, List.cons_append, List.nil_append] at faces
      apply ReadsValue.object faces
      intro next atKey
      exact .member (.inl rfl) atKey
        (fun atValue => value.isRead exact_.1 (tail.ends_printTail rest) atValue)
        fun behind => tail.isRead exact_.2 behind

/-- The items behind a first one are read. -/
theorem Items.isRead : ∀ {items : Items}, items.isExact = true → ∀ {lexer : Lexer} {rest : Bytes},
    lexer.Faces (items.printTail ++ Ascii.closeBracket :: rest) →
      ReadsItems .filled lexer items rest
  | .nil, _, lexer, rest, faces => .close (.inr rfl) faces
  | .cons head tail, exact_, lexer, rest, faces => by
      rw [Items.isExact, Bool.and_eq_true] at exact_
      simp only [Items.printTail, List.append_assoc, List.cons_append] at faces
      apply ReadsItems.comma faces
      intro next atHead
      exact .item (by decide) (head.isRead exact_.1 (tail.ends_printTail rest) atHead)
        fun behind => tail.isRead exact_.2 behind

/-- The members behind a first one are read. -/
theorem Members.isRead : ∀ {members : Members}, members.isExact = true →
    ∀ {lexer : Lexer} {rest : Bytes},
      lexer.Faces (members.printTail ++ Ascii.closeBrace :: rest) →
        ReadsMembers .filled lexer members rest
  | .nil, _, lexer, rest, faces => .close (.inr rfl) faces
  | .cons key value tail, exact_, lexer, rest, faces => by
      rw [Members.isExact, Bool.and_eq_true] at exact_
      simp only [Members.printTail, List.append_assoc, List.cons_append] at faces
      apply ReadsMembers.comma faces
      intro next atKey
      exact .member (.inr rfl) atKey
        (fun atValue => value.isRead exact_.1 (tail.ends_printTail rest) atValue)
        fun behind => tail.isRead exact_.2 behind

end

end Json

end ChatCodec
