import ChatCodec.Proofs.Lexer.Order
import ChatCodec.Proofs.Records
import ChatCodec.Proofs.Streaming.Loop

/-!
# What is noted

Decoding notes each key of an entity object that finds no field, and at the end the failure, if
there is one.  The keys of the entity objects of a value are read off its tokens and the shape it
is decoded into (`Tree.entityKeys`): a value that is skipped, or decoded into a scalar, has none.
They stand in the order of the document.

Decoding comes to them in this order, as far as it comes.  So what it notes are the unknown ones
among those that begin before the offset where it stops (`decodeDocument_events`).  The invariant
(`Outcome.Notes`) has two more parts, by which a first step may be followed by another: decoding
stops at one of the tokens of the value, and if it succeeds it has left all of them behind.  In the
first case nothing that is behind the value begins before the offset where it stops, in the second
everything in the value does.
-/

namespace ChatCodec

set_option autoImplicit false

variable {C : Catalog} {matching : KeyMatching}

/-! ## The keys of entity objects -/

/-- A key of a member of an entity object. -/
structure MemberKey (C : Catalog) where
  /-- The entity. -/
  entity : C.Name
  /-- The token of the key. -/
  key : Lexeme

namespace MemberKey

variable (member : MemberKey C)

/-- Where the key begins. -/
def offset : Nat := member.key.lexer.start

variable (matching) in
/-- The number of the field that the key finds. -/
def field? : Option Nat := Key.resolve (C.keys member.entity) member.key.lexer.output matching

/-- The note that the key is unknown. -/
def unknown : Event :=
  .unknownKey (C.title member.entity) (Utf8.decodeLossy member.key.lexer.output)

end MemberKey

/-- The shape of the field of a given number. -/
def Catalog.shapeAt (C : Catalog) (name : C.Name) (index : Nat) : Option C.Shape :=
  ((C.fields name)[index]?).map (·.shape)

/-- The keys in a value that has a body: those of its members or of its items, if the value is of
the form that the shape wants. -/
def groupKeys (opening : Lexeme) (members : C.Name → List (MemberKey C))
    (items : C.Shape → List (MemberKey C)) : C.Shape → List (MemberKey C)
  | .scalar _ => []
  | .option inner => groupKeys opening members items inner
  | .list inner => if opening.token = .arrayStart then items inner else []
  | .entity name => if opening.token = .objectStart then members name else []

section

variable (C matching)

mutual

/-- The keys of the entity objects in a value. -/
def Tree.entityKeys : Tree Lexeme → C.Shape → List (MemberKey C)
  | .leaf _, _ => []
  | .group opening body, shape =>
      groupKeys opening (fun name => body.memberKeys name .key none)
        (fun inner => body.itemKeys inner .item) shape

/-- The keys in the rest of an object: its own, and those in the values whose keys find a field.
`found` is the shape of the field that the key read last has found. -/
def Body.memberKeys : Body Lexeme → C.Name → MemberPlace → Option C.Shape → List (MemberKey C)
  | .close _, _, _, _ => []
  | .more tree rest, name, place, found =>
      match place with
      | .key =>
          if tree.head.token = .string then
            ⟨name, tree.head⟩ :: rest.memberKeys name .colon
              ((MemberKey.field? matching ⟨name, tree.head⟩).bind (C.shapeAt name))
          else []
      | .colon => if tree.head.token = .colon then rest.memberKeys name .value found else []
      | .value =>
          if tree.head.token.isValue then
            (match found with
              | some shape => tree.entityKeys shape
              | none => []) ++ rest.memberKeys name .separator none
          else []
      | .separator => if tree.head.token = .comma then rest.memberKeys name .key none else []

/-- The keys in the rest of an array. -/
def Body.itemKeys : Body Lexeme → C.Shape → ItemPlace → List (MemberKey C)
  | .close _, _, _ => []
  | .more tree rest, inner, place =>
      match place with
      | .item =>
          if tree.head.token.isValue then tree.entityKeys inner ++ rest.itemKeys inner .separator
          else []
      | .separator => if tree.head.token = .comma then rest.itemKeys inner .item else []

end

/-- The keys of the entity objects in a payload: those of its one object and of the entities in
it. -/
def payloadKeys (name : C.Name) (payload : Bytes) : List (MemberKey C) :=
  let first := (Lexer.ofBytes payload).scan
  if first.token = .objectStart then first.lexer.body.memberKeys C matching name .key none else []

end

/-! ## Keys among tokens -/

/-- The keys are string tokens among the lexemes, in the same order. -/
def Among (keys : List (MemberKey C)) (lexemes : List Lexeme) : Prop :=
  (keys.map (·.key)).Sublist (lexemes.filter (·.token == .string))

section

variable {keys others : List (MemberKey C)} {lexemes later : List Lexeme} {key : MemberKey C}

theorem Among.nil (lexemes : List Lexeme) : Among ([] : List (MemberKey C)) lexemes :=
  List.nil_sublist _

theorem Among.append (first : Among keys lexemes) (second : Among others later) :
    Among (keys ++ others) (lexemes ++ later) := by
  rw [Among, List.map_append, List.filter_append]
  exact List.Sublist.append first second

/-- Further lexemes may stand in front. -/
theorem Among.behind (among : Among keys later) (lexemes : List Lexeme) :
    Among keys (lexemes ++ later) :=
  (Among.nil lexemes).append among

theorem Among.cons (isIn : key.key ∈ lexemes) (isString : key.key.token = .string)
    (among : Among others later) : Among (key :: others) (lexemes ++ later) := by
  have one : Among [key] lexemes := by
    rw [Among, List.map_cons, List.map_nil, List.singleton_sublist]
    exact List.mem_filter.mpr ⟨isIn, beq_iff_eq.mpr isString⟩
  exact one.append among

theorem Among.mem (among : Among keys lexemes) (isIn : key ∈ keys) :
    key.key ∈ lexemes ∧ key.key.token.isFinal = false := by
  obtain ⟨inLexemes, isString⟩ :=
    List.mem_filter.mp (among.subset (List.mem_map_of_mem isIn))
  rw [beq_iff_eq] at isString
  exact ⟨inLexemes, by rw [isString]; rfl⟩

/-- **Keys among tokens that lie one behind another begin one behind another.** -/
theorem Among.pairwise_offset {offset : Nat} (among : Among keys lexemes)
    (rising : Rising offset lexemes) :
    keys.Pairwise fun first second => first.offset < second.offset := by
  have going : ∀ lexeme ∈ keys.map (·.key), lexeme.token.isFinal = false := by
    intro lexeme isIn
    obtain ⟨key, inKeys, rfl⟩ := List.mem_map.mp isIn
    exact (among.mem inKeys).2
  have all := List.pairwise_map.mp
    ((rising.sublist (among.trans List.filter_sublist)).pairwise_start going)
  exact all

end

theorem Tree.head_mem_items (tree : Tree Lexeme) : tree.head ∈ tree.items := by
  obtain ⟨others, same⟩ := tree.items_eq_cons
  rw [same]
  exact List.mem_cons_self

theorem groupKeys_among {opening : Lexeme} {lexemes : List Lexeme}
    {members : C.Name → List (MemberKey C)} {items : C.Shape → List (MemberKey C)}
    (membersAmong : ∀ name, Among (members name) lexemes)
    (itemsAmong : ∀ inner, Among (items inner) lexemes) :
    ∀ shape : C.Shape, Among (groupKeys opening members items shape) lexemes
  | .scalar _ => .nil _
  | .option inner => groupKeys_among membersAmong itemsAmong inner
  | .list inner => by
      rw [groupKeys]
      split
      · exact itemsAmong inner
      · exact .nil _
  | .entity name => by
      rw [groupKeys]
      split
      · exact membersAmong name
      · exact .nil _

mutual

theorem Tree.entityKeys_among : ∀ (tree : Tree Lexeme) (shape : C.Shape),
    Among (tree.entityKeys C matching shape) tree.items
  | .leaf _, _ => by
      rw [Tree.entityKeys]
      exact .nil _
  | .group opening body, shape => by
      rw [Tree.entityKeys]
      exact Among.behind (groupKeys_among (fun name => body.memberKeys_among name .key none)
        (fun inner => body.itemKeys_among inner .item) shape) [opening]

theorem Body.memberKeys_among : ∀ (body : Body Lexeme) (name : C.Name) (place : MemberPlace)
    (found : Option C.Shape), Among (body.memberKeys C matching name place found) body.items
  | .close _, _, _, _ => by
      rw [Body.memberKeys]
      exact .nil _
  | .more tree rest, name, place, found => by
      rw [Body.items]
      cases place with
      | key =>
          simp only [Body.memberKeys]
          split
          · next isKey => exact .cons tree.head_mem_items isKey (rest.memberKeys_among name .colon _)
          · exact .nil _
      | colon =>
          simp only [Body.memberKeys]
          split
          · exact Among.behind (rest.memberKeys_among name .value found) _
          · exact .nil _
      | value =>
          simp only [Body.memberKeys]
          split
          · refine .append ?_ (rest.memberKeys_among name .separator none)
            cases found with
            | some shape => exact tree.entityKeys_among shape
            | none => exact .nil _
          · exact .nil _
      | separator =>
          simp only [Body.memberKeys]
          split
          · exact Among.behind (rest.memberKeys_among name .key none) _
          · exact .nil _

theorem Body.itemKeys_among : ∀ (body : Body Lexeme) (inner : C.Shape) (place : ItemPlace),
    Among (body.itemKeys C matching inner place) body.items
  | .close _, _, _ => by
      rw [Body.itemKeys]
      exact .nil _
  | .more tree rest, inner, place => by
      rw [Body.items]
      cases place with
      | item =>
          simp only [Body.itemKeys]
          split
          · exact .append (tree.entityKeys_among inner) (rest.itemKeys_among inner .separator)
          · exact .nil _
      | separator =>
          simp only [Body.itemKeys]
          split
          · exact Among.behind (rest.itemKeys_among inner .item) _
          · exact .nil _

end

/-! ## Notes -/

variable (matching) in
/-- What is noted of keys when decoding stops at an offset. -/
def noted (stop : Nat) (keys : List (MemberKey C)) : List Event :=
  (keys.filter fun key => key.offset < stop ∧ key.field? matching = none).map (·.unknown)

theorem noted_append (stop : Nat) (keys others : List (MemberKey C)) :
    noted matching stop (keys ++ others) = noted matching stop keys ++ noted matching stop others := by
  rw [noted, List.filter_append, List.map_append]
  rfl

/-- Of keys that begin where decoding stops, or further on, nothing is noted. -/
theorem noted_eq_nil {stop : Nat} {keys : List (MemberKey C)}
    (beyond : ∀ key ∈ keys, stop ≤ key.offset) : noted matching stop keys = [] := by
  rw [noted, List.filter_eq_nil_iff.mpr, List.map_nil]
  intro key isIn
  have := beyond key isIn
  simp only [decide_eq_true_eq]
  omega

/-- All unknown keys are noted if they begin before decoding stops. -/
theorem noted_eq {stop : Nat} {keys : List (MemberKey C)}
    (before : ∀ key ∈ keys, key.offset < stop) :
    noted matching stop keys =
      (keys.filter fun key => key.field? matching = none).map (·.unknown) := by
  rw [noted]
  refine congrArg (List.map _) (List.filter_congr fun key isIn => ?_)
  simp only [before key isIn, true_and]

namespace Outcome

variable {Value Other : Type}

/-- **The invariant of decoding**: it stops at one of the lexemes, has left all of them behind if
it succeeds, and has noted the unknown ones among the keys it came to. -/
structure Notes (matching : KeyMatching) (lexemes : List Lexeme) (keys : List (MemberKey C))
    (outcome : Outcome Value) : Prop where
  stops : ∃ lexeme ∈ lexemes, outcome.lexer = lexeme.lexer
  passes : outcome.error = none →
    ∀ lexeme ∈ lexemes, lexeme.lexer.position ≤ outcome.lexer.position
  events_eq : outcome.events = noted matching outcome.lexer.position keys

variable {outcome : Outcome Value} {lexemes later : List Lexeme} {keys others : List (MemberKey C)}

/-- One token that holds no keys. -/
theorem Notes.one {lexeme : Lexeme} (quiet : outcome.events = [])
    (stops : outcome.lexer = lexeme.lexer) :
    outcome.Notes matching [lexeme] ([] : List (MemberKey C)) where
  stops := ⟨lexeme, List.mem_singleton_self lexeme, stops⟩
  passes _ := List.forall_mem_singleton.mpr (Nat.le_of_eq (by rw [stops]))
  events_eq := quiet

/-- A failure at one of the lexemes, before any key. -/
theorem Notes.fail {lexeme : Lexeme} (isIn : lexeme ∈ lexemes) (value : Value)
    (error : DecodeError) :
    (Outcome.fail value error lexeme.lexer).Notes matching lexemes ([] : List (MemberKey C)) where
  stops := ⟨lexeme, isIn, rfl⟩
  passes failed := by cases failed
  events_eq := rfl

theorem Notes.refuse {lexeme : Lexeme} (isIn : lexeme ∈ lexemes) (value : Value)
    (wanted : Wanted) :
    (Outcome.refuse value lexeme wanted).Notes matching lexemes ([] : List (MemberKey C)) :=
  .fail isIn value _

theorem Notes.map (notes : outcome.Notes matching lexemes keys) (wrap : Value → Other) :
    (outcome.map wrap).Notes matching lexemes keys :=
  ⟨notes.stops, notes.passes, notes.events_eq⟩

theorem Notes.replace (notes : outcome.Notes matching lexemes keys) (before : Other)
    (wrap : Value → Other) : (outcome.replace before wrap).Notes matching lexemes keys := by
  rw [Outcome.replace]
  split <;> exact notes.map _

/-- Another outcome that differs in its value, and fails wherever the first does. -/
theorem Notes.congr {other : Outcome Other} (notes : outcome.Notes matching lexemes keys)
    (lexer_eq : other.lexer = outcome.lexer) (events_eq : other.events = outcome.events)
    (succeeds : other.error = none → outcome.error = none) :
    other.Notes matching lexemes keys where
  stops := by
    rw [lexer_eq]
    exact notes.stops
  passes succeeded := by
    rw [lexer_eq]
    exact notes.passes (succeeds succeeded)
  events_eq := by
    rw [events_eq, lexer_eq]
    exact notes.events_eq

/-- Further lexemes in front, which decoding has left behind. -/
theorem Notes.behind {offset : Nat} (notes : outcome.Notes matching later keys)
    (rising : Rising offset (lexemes ++ later)) :
    outcome.Notes matching (lexemes ++ later) keys where
  stops := by
    obtain ⟨lexeme, isIn, same⟩ := notes.stops
    exact ⟨lexeme, List.mem_append_right _ isIn, same⟩
  passes succeeded := by
    obtain ⟨-, between, -⟩ := rising.of_append
    obtain ⟨last, isLast, same⟩ := notes.stops
    intro lexeme isIn
    rcases List.mem_append.mp isIn with inFront | isBehind
    · rw [same]
      exact ((between lexeme inFront).isBehind last isLast).ends
    · exact notes.passes succeeded lexeme isBehind
  events_eq := notes.events_eq

/-- **A key** that decoding comes to, and what follows it. -/
theorem Notes.key {offset : Nat} {key : MemberKey C} (isIn : key.key ∈ lexemes)
    (isString : key.key.token = .string) (notes : outcome.Notes matching later keys)
    (rising : Rising offset (lexemes ++ later)) :
    (match key.field? matching with
      | some _ => outcome
      | none => outcome.note key.unknown).Notes matching (lexemes ++ later) (key :: keys) := by
  have whole := notes.behind rising
  have before : key.offset < outcome.lexer.position := by
    obtain ⟨front, between, -⟩ := rising.of_append
    obtain ⟨last, isLast, same⟩ := notes.stops
    rw [same]
    exact Nat.lt_of_lt_of_le
      ((front.isBehind key.key isIn).begins (by rw [isString]; rfl)).2
      ((between key.key isIn).isBehind last isLast).ends
  cases found : key.field? matching with
  | some index =>
      refine ⟨whole.stops, whole.passes, notes.events_eq.trans ?_⟩
      rw [noted, noted, List.filter_cons_of_neg]
      simp only [found, reduceCtorEq, and_false, decide_false, Bool.false_eq_true,
        not_false_eq_true]
  | none =>
      refine ⟨whole.stops, whole.passes, ?_⟩
      show key.unknown :: outcome.events = noted matching outcome.lexer.position (key :: keys)
      rw [notes.events_eq, noted, noted, List.filter_cons_of_pos, List.map_cons]
      simp only [found, before, and_self, decide_true]

/-- **A step behind another.**  If the first fails, all further keys are beyond the offset where it
stops; if it succeeds, all of its own keys are before that of the second. -/
theorem Notes.follow {offset : Nat} {left : Value → Other} {next : Value → Lexer → Outcome Other}
    (notes : outcome.Notes matching lexemes keys) (among : Among keys lexemes)
    (amongBehind : Among others later) (rising : Rising offset (lexemes ++ later))
    (following : outcome.error = none →
      (next outcome.value outcome.lexer).Notes matching later others) :
    (outcome.follow left next).Notes matching (lexemes ++ later) (keys ++ others) := by
  obtain ⟨front, between, -⟩ := rising.of_append
  obtain ⟨value, events, error, lexer⟩ := outcome
  obtain ⟨⟨last, isLast, same⟩, passes, events_eq⟩ := notes
  cases error with
  | some error =>
      refine ⟨⟨last, List.mem_append_left _ isLast, same⟩, fun failed => (by cases failed), ?_⟩
      refine events_eq.trans ?_
      show _ = noted matching lexer.position (keys ++ others)
      have beyond : ∀ key ∈ others, lexer.position ≤ key.offset := by
        intro key isIn
        obtain ⟨isBehind, going⟩ := amongBehind.mem isIn
        rw [show lexer = last.lexer from same]
        exact (((between last isLast).isBehind key.key isBehind).begins going).1
      rw [noted_append, noted_eq_nil beyond, List.append_nil]
  | none =>
      have second := (following rfl).behind rising
      refine ⟨second.stops, second.passes, ?_⟩
      show events ++ _ = noted matching (next value lexer).lexer.position (keys ++ others)
      have inFront : ∀ key ∈ keys, key.offset < key.key.lexer.position := fun key isIn =>
        ((front.isBehind _ (among.mem isIn).1).begins (among.mem isIn).2).2
      have first : events = noted matching lexer.position keys := events_eq
      obtain ⟨lastBehind, isLastBehind, sameBehind⟩ := (following rfl).stops
      have further : ∀ key ∈ keys, key.offset < (next value lexer).lexer.position := by
        intro key isIn
        rw [show (next value lexer).lexer = lastBehind.lexer from sameBehind]
        exact Nat.lt_of_lt_of_le (inFront key isIn)
          ((between _ (among.mem isIn).1).isBehind lastBehind isLastBehind).ends
      have upTo : ∀ key ∈ keys, key.offset < lexer.position := fun key isIn =>
        Nat.lt_of_lt_of_le (inFront key isIn) (passes rfl _ (among.mem isIn).1)
      rw [noted_append, noted_eq further, ← noted_eq upTo, ← first, second.events_eq]

end Outcome

open Outcome (Notes)

/-! ## Values -/

variable {offset : Nat}

mutual

/-- **Skipping notes nothing**, and stops at one of the tokens. -/
theorem skipTree_notes : ∀ {tree : Tree Lexeme} {offset : Nat}, Rising offset tree.items →
    (skipTree tree).Notes matching tree.items ([] : List (MemberKey C))
  | .leaf lexeme, offset, _ => by
      rw [skipTree, Tree.items]
      split
      · exact .one rfl rfl
      · exact .refuse (List.mem_singleton_self lexeme) () _
  | .group opening body, offset, rising => by
      rw [Tree.items, ← List.singleton_append] at rising ⊢
      obtain ⟨-, -, inner⟩ := rising.of_append
      rw [skipTree]
      split
      · exact (skipMembers_notes inner .key).behind rising
      · exact (skipItems_notes inner .item).behind rising

theorem skipMembers_notes : ∀ {body : Body Lexeme} {offset : Nat}, Rising offset body.items →
    ∀ place, (skipMembers place body).Notes matching body.items ([] : List (MemberKey C))
  | .close ending, offset, _, place => by
      rw [skipMembers, Body.items]
      split
      · exact .one rfl rfl
      · exact .refuse (List.mem_singleton_self ending) () _
  | .more tree rest, offset, rising, place => by
      rw [Body.items] at rising ⊢
      obtain ⟨front, -, later⟩ := rising.of_append
      have refused : (Outcome.refuse () tree.head place.wanted).Notes matching
          (tree.items ++ rest.items) ([] : List (MemberKey C)) :=
        .refuse (List.mem_append_left _ tree.head_mem_items) () _
      cases place with
      | key =>
          simp only [skipMembers]
          split
          · exact (skipMembers_notes later .colon).behind rising
          · exact refused
      | colon =>
          simp only [skipMembers]
          split
          · exact (skipMembers_notes later .value).behind rising
          · exact refused
      | value =>
          simp only [skipMembers]
          split
          · exact (skipTree_notes front).follow (.nil _) (.nil _) rising
              fun _ => skipMembers_notes later .separator
          · exact refused
      | separator =>
          simp only [skipMembers]
          split
          · exact (skipMembers_notes later .key).behind rising
          · exact refused

theorem skipItems_notes : ∀ {body : Body Lexeme} {offset : Nat}, Rising offset body.items →
    ∀ place, (skipItems place body).Notes matching body.items ([] : List (MemberKey C))
  | .close ending, offset, _, place => by
      rw [skipItems, Body.items]
      split
      · exact .one rfl rfl
      · exact .refuse (List.mem_singleton_self ending) () _
  | .more tree rest, offset, rising, place => by
      rw [Body.items] at rising ⊢
      obtain ⟨front, -, later⟩ := rising.of_append
      have refused : (Outcome.refuse () tree.head place.wanted).Notes matching
          (tree.items ++ rest.items) ([] : List (MemberKey C)) :=
        .refuse (List.mem_append_left _ tree.head_mem_items) () _
      cases place with
      | item =>
          simp only [skipItems]
          split
          · exact (skipTree_notes front).follow (.nil _) (.nil _) rising
              fun _ => skipItems_notes later .separator
          · exact refused
      | separator =>
          simp only [skipItems]
          split
          · exact (skipItems_notes later .item).behind rising
          · exact refused

end

/-- **Opaque JSON notes nothing**, whatever keys are in it. -/
theorem decodeOpaque_notes {tree : Tree Lexeme} (rising : Rising offset tree.items)
    (before : Json.Value) :
    (decodeOpaque tree before).Notes matching tree.items ([] : List (MemberKey C)) := by
  have skipped : (skipTree tree).Notes matching tree.items ([] : List (MemberKey C)) :=
    skipTree_notes rising
  rw [decodeOpaque]
  cases outcome : skipTree tree with
  | mk value events error lexer =>
      rw [outcome] at skipped
      have quiet : events = [] := skipped.events_eq
      subst quiet
      cases error with
      | some error => exact skipped.congr rfl rfl fun failed => by cases failed
      | none =>
          rw [Outcome.follow]
          simp only
          split
          · exact skipped.congr rfl rfl fun _ => rfl
          · exact skipped.congr rfl rfl fun failed => by cases failed

/-- **A scalar notes nothing.** -/
theorem Scalar.decode_notes (kind : Scalar) (before : kind.Carrier) {tree : Tree Lexeme}
    (rising : Rising offset tree.items)
    (alone : tree.head.token.isScalar = true → tree.items = [tree.head]) :
    (kind.decode tree before).Notes matching tree.items ([] : List (MemberKey C)) := by
  by_cases opaqueJson : kind = .opaqueJson
  · subst opaqueJson
    exact decodeOpaque_notes rising before
  rw [Scalar.decode_of_ne opaqueJson]
  by_cases null : tree.head.token = .null
  · rw [if_pos null, alone (by rw [null]; rfl)]
    exact .one rfl rfl
  rw [if_neg null]
  by_cases accepted : kind.accepts tree.head.token = true
  · rw [if_pos accepted, alone (isScalar_of_accepts accepted)]
    cases Scalar.read tree.head.lexer tree.head.token kind with
    | ok value => exact .one rfl rfl
    | error error => exact .one rfl rfl
  · rw [if_neg accepted]
    exact .fail tree.head_mem_items before _

/-- A value of one token notes nothing. -/
theorem decodeLeaf_notes {lexeme : Lexeme} (rising : Rising offset [lexeme]) :
    ∀ (shape : C.Shape) (before : C.Value shape),
      (decodeLeaf C lexeme shape before).Notes matching [lexeme] ([] : List (MemberKey C))
  | .scalar kind, .scalar before => by
      rw [decodeLeaf]
      exact Notes.map (kind.decode_notes before (show Rising offset (Tree.leaf lexeme).items from
        rising) fun _ => rfl) _
  | .option inner, before => by
      rw [decodeLeaf]
      split
      · exact .one rfl rfl
      · exact (decodeLeaf_notes rising inner (C.blank inner)).replace before _
  | .list _, before => by
      rw [decodeLeaf]
      split <;> exact .one rfl rfl
  | .entity name, before => by
      rw [decodeLeaf]
      split <;> exact .one rfl rfl

/-- A value with a body notes what its members or its items do. -/
theorem decodeGroup_notes {opening : Lexeme} {body : Body Lexeme}
    (opens : opening.token.isOpening = true) (rising : Rising offset ([opening] ++ body.items))
    {members : (name : C.Name) → C.Entity name → Outcome (C.Entity name)}
    {items : (inner : C.Shape) → Outcome (C.Sequence inner)}
    {memberKeys : C.Name → List (MemberKey C)} {itemKeys : C.Shape → List (MemberKey C)}
    (membersNote : ∀ name record,
      (members name record).Notes matching body.items (memberKeys name))
    (itemsNote : ∀ inner, (items inner).Notes matching body.items (itemKeys inner)) :
    ∀ (shape : C.Shape) (before : C.Value shape),
      (decodeGroup C opening body members items shape before).Notes matching
        ([opening] ++ body.items) (groupKeys opening memberKeys itemKeys shape)
  | .scalar kind, .scalar before => by
      rw [decodeGroup, groupKeys]
      refine Notes.map (kind.decode_notes before
        (show Rising offset (Tree.group opening body).items from rising) fun scalar => ?_) _
      exact absurd (scalar.symm.trans (Token.isScalar_of_isOpening opens)) (by decide)
  | .option inner, before => by
      rw [decodeGroup, groupKeys]
      exact (decodeGroup_notes opens rising membersNote itemsNote inner
        (C.blank inner)).replace before _
  | .list inner, before => by
      rw [decodeGroup, groupKeys]
      split
      · exact ((itemsNote inner).behind rising).map _
      · exact .fail List.mem_cons_self before _
  | .entity name, .entity before => by
      rw [decodeGroup, groupKeys]
      split
      · exact ((membersNote name before).behind rising).map _
      · exact .fail List.mem_cons_self _ _

/-- Decoding into the field of a given number notes what the value does for the shape of the
field. -/
theorem Record.decodeAt_notes {tree : Tree Lexeme} (rising : Rising offset tree.items)
    {decode : (shape : C.Shape) → C.Value shape → Outcome (C.Value shape)}
    {keys : C.Shape → List (MemberKey C)}
    (notes : ∀ shape before, (decode shape before).Notes matching tree.items (keys shape))
    {name : C.Name} (index : Nat) (record : C.Entity name) :
    (record.decodeAt tree decode index).Notes matching tree.items
      (match C.shapeAt name index with
        | some shape => keys shape
        | none => []) := by
  rw [Catalog.shapeAt]
  by_cases inside : index < (C.fields name).length
  · rw [List.getElem?_eq_getElem inside, record.decodeAt_eq tree decode ⟨index, inside⟩]
    exact (notes _ _).map _
  · rw [List.getElem?_eq_none (Nat.le_of_not_lt inside),
      record.decodeAt_beyond tree decode index (Nat.le_of_not_lt inside)]
    exact Notes.map (skipTree_notes rising) _

/-! ## Documents -/

mutual

/-- **Decoding a value notes the unknown ones among its keys**, as far as it comes. -/
theorem decodeTree_notes : ∀ {tree : Tree Lexeme} {offset : Nat},
    tree.IsOpened (fun lexeme => lexeme.token.role) → Rising offset tree.items →
      ∀ (shape : C.Shape) (before : C.Value shape),
        (decodeTree C matching tree shape before).Notes matching tree.items
          (tree.entityKeys C matching shape)
  | .leaf lexeme, offset, _, rising, shape, before => by
      rw [decodeTree, Tree.entityKeys]
      exact decodeLeaf_notes rising shape before
  | .group opening body, offset, opened, rising, shape, before => by
      rw [Tree.IsOpened] at opened
      rw [decodeTree, Tree.entityKeys]
      rw [Tree.items, ← List.singleton_append] at rising ⊢
      obtain ⟨-, -, inner⟩ := rising.of_append
      exact decodeGroup_notes (Token.isOpening_of_role opened.1) rising
        (fun name record => decodeMembers_notes opened.2 inner name .key none record)
        (fun shape => decodeItems_notes opened.2 inner shape .item) shape before

/-- Decoding the rest of an object notes the unknown ones among its keys. -/
theorem decodeMembers_notes : ∀ {body : Body Lexeme} {offset : Nat},
    body.IsOpened (fun lexeme => lexeme.token.role) → Rising offset body.items →
      ∀ (name : C.Name) (place : MemberPlace) (current : Option Nat) (record : C.Entity name),
        (decodeMembers C matching body name place current record).Notes matching body.items
          (body.memberKeys C matching name place (current.bind (C.shapeAt name)))
  | .close ending, offset, _, _, name, place, current, record => by
      rw [decodeMembers, Body.memberKeys, Body.items]
      split
      · exact .one rfl rfl
      · exact .refuse (List.mem_singleton_self ending) record _
  | .more tree rest, offset, opened, rising, name, place, current, record => by
      rw [Body.IsOpened] at opened
      rw [Body.items] at rising ⊢
      obtain ⟨front, -, later⟩ := rising.of_append
      have refused : (Outcome.refuse record tree.head place.wanted).Notes matching
          (tree.items ++ rest.items) ([] : List (MemberKey C)) :=
        .refuse (List.mem_append_left _ tree.head_mem_items) record _
      cases place with
      | key =>
          simp only [decodeMembers, Body.memberKeys]
          by_cases isKey : tree.head.token = .string
          · rw [if_pos isKey, if_pos isKey]
            have behind := decodeMembers_notes opened.2 later name .colon
              (MemberKey.field? matching ⟨name, tree.head⟩) record
            have notes := @Notes.key C _ _ _ _ _ _ _ ⟨name, tree.head⟩ tree.head_mem_items isKey
              behind rising
            revert notes
            rw [MemberKey.field?]
            cases Key.resolve (C.keys name) tree.head.lexer.output matching with
            | some index => exact id
            | none => exact id
          · rw [if_neg isKey, if_neg isKey]
            exact refused
      | colon =>
          simp only [decodeMembers, Body.memberKeys]
          split
          · exact (decodeMembers_notes opened.2 later name .value current record).behind rising
          · exact refused
      | value =>
          simp only [decodeMembers, Body.memberKeys]
          split
          · cases current with
            | none =>
                exact Notes.follow (Notes.map (skipTree_notes front) fun _ => record) (.nil _)
                  (rest.memberKeys_among name .separator none) rising fun _ =>
                    decodeMembers_notes opened.2 later name .separator none _
            | some index =>
                refine Notes.follow (Record.decodeAt_notes front
                  (fun shape before => decodeTree_notes opened.1 front shape before) index record)
                  ?_ (rest.memberKeys_among name .separator none) rising fun _ =>
                    decodeMembers_notes opened.2 later name .separator none _
                split
                · exact tree.entityKeys_among _
                · exact .nil _
          · exact refused
      | separator =>
          simp only [decodeMembers, Body.memberKeys]
          split
          · exact (decodeMembers_notes opened.2 later name .key none record).behind rising
          · exact refused

/-- Decoding the rest of an array notes the unknown ones among its keys. -/
theorem decodeItems_notes : ∀ {body : Body Lexeme} {offset : Nat},
    body.IsOpened (fun lexeme => lexeme.token.role) → Rising offset body.items →
      ∀ (inner : C.Shape) (place : ItemPlace),
        (decodeItems C matching body inner place).Notes matching body.items
          (body.itemKeys C matching inner place)
  | .close ending, offset, _, _, inner, place => by
      rw [decodeItems, Body.itemKeys, Body.items]
      split
      · exact .one rfl rfl
      · exact .refuse (List.mem_singleton_self ending) _ _
  | .more tree rest, offset, opened, rising, inner, place => by
      rw [Body.IsOpened] at opened
      rw [Body.items] at rising ⊢
      obtain ⟨front, -, later⟩ := rising.of_append
      have refused : (Outcome.refuse (.nil : C.Sequence inner) tree.head place.wanted).Notes matching
          (tree.items ++ rest.items) ([] : List (MemberKey C)) :=
        .refuse (List.mem_append_left _ tree.head_mem_items) _ _
      cases place with
      | item =>
          simp only [decodeItems, Body.itemKeys]
          split
          · exact (decodeTree_notes opened.1 front inner (C.blank inner)).follow
              (tree.entityKeys_among inner) (rest.itemKeys_among inner .separator) rising fun _ =>
                (decodeItems_notes opened.2 later inner .separator).map _
          · exact refused
      | separator =>
          simp only [decodeItems, Body.itemKeys]
          split
          · exact (decodeItems_notes opened.2 later inner .item).behind rising
          · exact refused

end

/-- Opaque JSON notes nothing, whatever its tokens are. -/
theorem events_decodeOpaque (tree : Tree Lexeme) (before : Json.Value) :
    (decodeOpaque tree before).events = [] := by
  rw [decodeOpaque]
  refine Outcome.events_follow (events_skipTree tree) fun _ ending => ?_
  simp only
  split <;> rfl

/-- The end of a payload notes nothing, and is behind the value in front of it. -/
theorem finishWith_events {Value : Type} (value : Value) (lexer : Lexer) :
    (finishWith value lexer).events = [] ∧
      lexer.position ≤ (finishWith value lexer).lexer.position := by
  rw [finishWith, Lexer.finish]
  have behind := lexer.isBehind_scan.ends
  by_cases ended : lexer.scan.token = .eof
  · simp only [if_pos ended]
    exact ⟨rfl, behind⟩
  · simp only [if_neg ended]
    exact ⟨rfl, behind⟩

/-- **The end of a payload adds nothing** to what the value in front of it has noted. -/
theorem noted_finishWith {Value : Type} {outcome : Outcome Value} {keys : List (MemberKey C)}
    (events_eq : outcome.events = noted matching outcome.lexer.position keys)
    (upTo : outcome.error = none → ∀ key ∈ keys, key.offset < outcome.lexer.position) :
    (outcome.follow id finishWith).events =
        noted matching (outcome.follow id finishWith).lexer.position keys ∧
      ((outcome.follow id finishWith).error = none →
        ∀ key ∈ keys, key.offset < (outcome.follow id finishWith).lexer.position) := by
  obtain ⟨value, events, error, lexer⟩ := outcome
  cases error with
  | some error => exact ⟨events_eq, fun failed => by cases failed⟩
  | none =>
      obtain ⟨quiet, further⟩ := finishWith_events value lexer
      have before : ∀ key ∈ keys, key.offset < (finishWith value lexer).lexer.position :=
        fun key isIn => Nat.lt_of_lt_of_le (upTo rfl key isIn) further
      refine ⟨?_, fun _ => before⟩
      have here : events = noted matching lexer.position keys := events_eq
      show events ++ (finishWith value lexer).events =
        noted matching (finishWith value lexer).lexer.position keys
      rw [quiet, List.append_nil, here, noted_eq before, noted_eq (upTo rfl)]

/-- An object that comes next notes the unknown ones among the keys of the payload, as far as
decoding comes, and past all of them if it succeeds. -/
theorem decodeObject_events (name : C.Name) (payload : Bytes) :
    let outcome := decodeObject C matching (C.blankEntity name) (Lexer.ofBytes payload)
    outcome.events = noted matching outcome.lexer.position (payloadKeys C matching name payload) ∧
      (outcome.error = none →
        ∀ key ∈ payloadKeys C matching name payload, key.offset < outcome.lexer.position) := by
  rw [decodeObject, payloadKeys]
  by_cases isStart : (Lexer.ofBytes payload).scan.token = .objectStart
  · simp only [if_pos isStart, decodeFrom]
    have rising := (Lexer.ofBytes payload).scan.lexer.rising_body
    have opened := (Body.isOpened_levels (fun lexeme => lexeme.token.role)
      (Lexer.ofBytes payload).scan.lexer.stream.last
      (Lexer.ofBytes payload).scan.lexer.stream.lexemes).1
    have notes := @decodeMembers_notes C matching _ _ opened rising name .key none
      (C.blankEntity name)
    have among := @Body.memberKeys_among C matching (Lexer.ofBytes payload).scan.lexer.body name
      .key none
    refine ⟨notes.events_eq, fun succeeded key isIn => ?_⟩
    obtain ⟨inBody, going⟩ := among.mem isIn
    exact Nat.lt_of_lt_of_le ((rising.isBehind _ inBody).begins going).2
      (notes.passes succeeded _ inBody)
  · simp only [if_neg isStart]
    exact ⟨rfl, fun failed => by cases failed⟩

/-- **What decoding a document notes.**  The keys of the entity objects of the payload stand in the
order of their offsets.  Of those that begin before the offset where decoding stops, each that
finds no field is noted with the name of its entity, in this order; then the failure is noted, if
decoding failed.  If it did not, all unknown keys of the payload are noted, and nothing else.
Values that are skipped, and opaque JSON, note nothing. -/
theorem decodeDocument_events (C : Catalog) (matching : KeyMatching) (name : C.Name)
    (payload : Bytes) :
    let outcome := decodeDocument C matching name payload
    let keys := payloadKeys C matching name payload
    keys.Pairwise (fun first second => first.offset < second.offset) ∧
      outcome.events =
        (keys.filter fun key =>
            key.offset < outcome.lexer.position ∧ key.field? matching = none).map (·.unknown) ++
          (match outcome.error with
            | none => []
            | some error => [.failed (C.title name) error]) ∧
      (outcome.error = none →
        outcome.events = (keys.filter fun key => key.field? matching = none).map (·.unknown)) ∧
      (∀ tree, (skipTree tree).events = []) ∧
      ∀ tree before, (decodeOpaque tree before).events = [] := by
  have ordered : (payloadKeys C matching name payload).Pairwise
      fun first second => first.offset < second.offset := by
    rw [payloadKeys]
    split
    · exact (Body.memberKeys_among _ name .key none).pairwise_offset (Lexer.rising_body _)
    · exact .nil
  obtain ⟨events, upTo⟩ := @decodeObject_events C matching name payload
  rw [decodeDocument]
  generalize decodeObject C matching (C.blankEntity name) (Lexer.ofBytes payload) = object
    at events upTo
  generalize payloadKeys C matching name payload = keys at events upTo ordered
  have whole := noted_finishWith events upTo
  generalize object.follow id finishWith = outcome at whole
  refine ⟨ordered, ?_, ?_, events_skipTree, events_decodeOpaque⟩
  · cases error : outcome.error with
    | none =>
        simp only
        rw [whole.1, error]
        exact (List.append_nil _).symm
    | some reason =>
        simp only
        rw [whole.1]
        rfl
  · cases error : outcome.error with
    | none =>
        intro _
        simp only
        rw [whole.1, noted_eq (whole.2 error)]
    | some reason =>
        simp only
        exact fun failed => by cases failed

/-- The member that is skipped is noted, and the key in its value is not. -/
example : (decodeDocument Chat .exact .emoji
    (bytesOf "\x7b\"x\":\x7b\"y\":1\x7d,\"name\":\"A\"\x7d")).events =
      [.unknownKey "Emoji" "x"] := by
  decide +kernel

end ChatCodec
