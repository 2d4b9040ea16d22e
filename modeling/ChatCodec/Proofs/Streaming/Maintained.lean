import ChatCodec.Streaming.Decode

/-!
# What decoding maintains

Decoding changes a value scalar by scalar.  A condition on scalars is maintained
(`Scalar.IsMaintained`) if blank scalars meet it, and if decoding into a scalar that meets it
leaves one that does.  Then all scalars of a value meet it (`Val.all`) that decoding leaves in
place of a value of which this was true (`decodeTree_all`).  In particular they do in whatever
a payload is decoded to (`decodeDocument_all`).

Nothing is assumed of the tokens, and nothing of how decoding ends: what a failure leaves
behind meets the condition too.  This is what carries the induction, since an outcome has a
value in any case.
-/

namespace ChatCodec

set_option autoImplicit false

/-! ## Conditions on all scalars of a value -/

section

variable {Name : Type} {fields : Name → List (Field Name)}
  (test : (kind : Scalar) → kind.Carrier → Bool)

mutual

/-- Whether all scalars of a value meet a condition. -/
def Val.all : {shape : Shape Name} → Val fields shape → Bool
  | _, @Val.scalar _ _ kind value => test kind value
  | _, .none => true
  | _, .some value => value.all
  | _, .list items => items.all
  | _, .entity record => record.all

/-- Whether all scalars of the items meet a condition. -/
def Sequence.all : {inner : Shape Name} → Sequence fields inner → Bool
  | _, .nil => true
  | _, .cons head tail => head.all && tail.all

/-- Whether all scalars of the fields meet a condition. -/
def Record.all : {list : List (Field Name)} → Record fields list → Bool
  | _, .nil => true
  | _, .cons head tail => head.all && tail.all

end

theorem Sequence.all_nil {inner : Shape Name} :
    (Sequence.nil : Sequence fields inner).all test = true := by
  rw [Sequence.all]

end

/-- A condition that blank scalars meet, and that decoding a scalar maintains. -/
structure Scalar.IsMaintained (test : (kind : Scalar) → kind.Carrier → Bool) : Prop where
  blank : ∀ kind, test kind kind.blank = true
  decode : ∀ {kind : Scalar} (tree : Tree Lexeme) {before : kind.Carrier},
    test kind before = true → test kind (kind.decode tree before).value = true

/-! ## Outcomes -/

namespace Outcome

variable {Value Other : Type}

/-- A value is replaced or kept. -/
theorem value_replace (outcome : Outcome Value) (before : Other) (wrap : Value → Other) :
    (outcome.replace before wrap).value = before ∨
      (outcome.replace before wrap).value = wrap outcome.value := by
  rw [replace]
  cases outcome.error with
  | none => exact .inr rfl
  | some error => exact .inl rfl

/-- Two steps leave what the second one does, or what is made of what the first one left. -/
theorem value_follow (outcome : Outcome Value) (left : Value → Other)
    (next : Value → Lexer → Outcome Other) :
    (outcome.follow left next).value = left outcome.value ∨
      (outcome.follow left next).value = (next outcome.value outcome.lexer).value := by
  rw [follow]
  cases outcome.error with
  | none => exact .inr rfl
  | some error => exact .inl rfl

end Outcome

section

variable {C : Catalog} {test : (kind : Scalar) → kind.Carrier → Bool}

/-! ## Blank values -/

section

variable {records : (name : C.Name) → Option (C.Entity name)}

/-- The scalars of a blank value meet the condition if those of blank entities do. -/
theorem all_of_blankValue? (maintained : Scalar.IsMaintained test)
    (all : ∀ name record, records name = some record → record.all test = true) :
    ∀ {shape : C.Shape} {value : C.Value shape},
      blankValue? C.fields records shape = some value → value.all test = true
  | .scalar kind, _, found => by
      cases found
      exact maintained.blank kind
  | .option _, _, found => by
      cases found
      rfl
  | .list _, _, found => by
      cases found
      exact Sequence.all_nil test
  | .entity name, _, found => by
      obtain ⟨record, foundRecord, rfl⟩ := Option.map_eq_some_iff.mp found
      exact all name record foundRecord

theorem all_of_blankRecord? (maintained : Scalar.IsMaintained test)
    (all : ∀ name record, records name = some record → record.all test = true) :
    ∀ {list : List (Field C.Name)} {record : C.Record list},
      blankRecord? C.fields records list = some record → record.all test = true
  | [], _, found => by
      cases found
      rw [Record.all]
  | field :: list, _, found => by
      obtain ⟨head, tail, foundHead, foundTail, rfl⟩ :=
        (blankRecord?_cons_eq_some_iff C.fields).mp found
      rw [Record.all, all_of_blankValue? maintained all foundHead,
        all_of_blankRecord? maintained all foundTail]
      rfl

end

theorem all_of_blankEntity? (maintained : Scalar.IsMaintained test) :
    ∀ {depth : Nat} {name : C.Name} {record : C.Entity name},
      blankEntity? C.fields depth name = some record → record.all test = true
  | _ + 1, _, _, found =>
      all_of_blankRecord? maintained
        (fun _ _ inner => all_of_blankEntity? maintained inner) found

/-- The scalars of the blank record of an entity meet the condition. -/
theorem Catalog.all_blankEntity (maintained : Scalar.IsMaintained test) (name : C.Name) :
    (C.blankEntity name).all test = true :=
  all_of_blankEntity? maintained (Option.some_get (C.grounded name)).symm

theorem Catalog.all_blank (maintained : Scalar.IsMaintained test) :
    ∀ shape : C.Shape, (C.blank shape).all test = true
  | .scalar kind => maintained.blank kind
  | .option _ => rfl
  | .list _ => Sequence.all_nil test
  | .entity name => C.all_blankEntity maintained name

/-! ## Decoding -/

/-- Decoding into one field leaves the others. -/
theorem Record.all_decodeAt {tree : Tree Lexeme}
    {decode : (shape : C.Shape) → C.Value shape → Outcome (C.Value shape)}
    (keeps : ∀ {shape : C.Shape} {before : C.Value shape}, before.all test = true →
      (decode shape before).value.all test = true) :
    ∀ {list : List (Field C.Name)} {index : Nat} {before : C.Record list},
      before.all test = true → (before.decodeAt tree decode index).value.all test = true
  | [], _, .nil, all => by
      rw [Record.decodeAt]
      exact all
  | _ :: _, 0, .cons head tail, all => by
      rw [Record.all, Bool.and_eq_true] at all
      rw [Record.decodeAt, Outcome.map, Record.all, keeps all.1, all.2]
      rfl
  | _ :: _, index + 1, .cons head tail, all => by
      rw [Record.all, Bool.and_eq_true] at all
      rw [Record.decodeAt, Outcome.map, Record.all, all.1, Record.all_decodeAt keeps all.2]
      rfl

theorem decodeLeaf_all (maintained : Scalar.IsMaintained test) (lexeme : Lexeme) :
    ∀ {shape : C.Shape} {before : C.Value shape}, before.all test = true →
      (decodeLeaf C lexeme shape before).value.all test = true
  | .scalar kind, .scalar before, all => by
      rw [Val.all] at all
      rw [decodeLeaf, Outcome.map, Val.all]
      exact maintained.decode _ all
  | .option inner, before, all => by
      rw [decodeLeaf]
      split
      · rw [Outcome.done, Val.all]
      · rcases Outcome.value_replace (decodeLeaf C lexeme inner (C.blank inner)) before .some with
          kept | replaced
        · rw [kept]
          exact all
        · rw [replaced, Val.all]
          exact decodeLeaf_all maintained lexeme (C.all_blank maintained inner)
  | .list _, before, all => by
      rw [decodeLeaf]
      split
      · rw [Outcome.done, Val.all]
        exact Sequence.all_nil test
      · exact all
  | .entity _, before, all => by
      rw [decodeLeaf]
      split <;> exact all

theorem decodeGroup_all (maintained : Scalar.IsMaintained test) {opening : Lexeme}
    {body : Body Lexeme} {members : (name : C.Name) → C.Entity name → Outcome (C.Entity name)}
    {items : (inner : C.Shape) → Outcome (C.Sequence inner)}
    (membersKeep : ∀ {name : C.Name} {before : C.Entity name}, before.all test = true →
      (members name before).value.all test = true)
    (itemsMeet : ∀ inner, (items inner).value.all test = true) :
    ∀ {shape : C.Shape} {before : C.Value shape}, before.all test = true →
      (decodeGroup C opening body members items shape before).value.all test = true
  | .scalar kind, .scalar before, all => by
      rw [Val.all] at all
      rw [decodeGroup, Outcome.map, Val.all]
      exact maintained.decode _ all
  | .option inner, before, all => by
      rw [decodeGroup]
      rcases Outcome.value_replace
          (decodeGroup C opening body members items inner (C.blank inner)) before .some with
        kept | replaced
      · rw [kept]
        exact all
      · rw [replaced, Val.all]
        exact decodeGroup_all maintained membersKeep itemsMeet (C.all_blank maintained inner)
  | .list inner, before, all => by
      rw [decodeGroup]
      split
      · rw [Outcome.map, Val.all]
        exact itemsMeet inner
      · exact all
  | .entity name, .entity before, all => by
      rw [decodeGroup]
      split
      · rw [Val.all] at all
        rw [Outcome.map, Val.all]
        exact membersKeep all
      · exact all

variable {matching : KeyMatching}

mutual

/-- **Decoding maintains the condition** on the scalars of the value that it writes into. -/
theorem decodeTree_all (maintained : Scalar.IsMaintained test) :
    ∀ (tree : Tree Lexeme) {shape : C.Shape} {before : C.Value shape}, before.all test = true →
      (decodeTree C matching tree shape before).value.all test = true
  | .leaf lexeme, _, _, all => by
      rw [decodeTree]
      exact decodeLeaf_all maintained lexeme all
  | .group _ body, _, _, all => by
      rw [decodeTree]
      exact decodeGroup_all maintained (fun all => decodeMembers_all maintained body all)
        (fun _ => decodeItems_all maintained body) all

/-- Decoding members does. -/
theorem decodeMembers_all (maintained : Scalar.IsMaintained test) :
    ∀ (body : Body Lexeme) {name : C.Name} {place : MemberPlace} {current : Option Nat}
      {before : C.Entity name}, before.all test = true →
        (decodeMembers C matching body name place current before).value.all test = true
  | .close ending, _, _, _, _, all => by
      rw [decodeMembers]
      split <;> exact all
  | .more tree rest, _, .key, _, _, all => by
      rw [decodeMembers]
      split
      · dsimp only
        split
        · exact decodeMembers_all maintained rest all
        · exact decodeMembers_all maintained rest all
      · exact all
  | .more tree rest, _, .colon, _, _, all => by
      rw [decodeMembers]
      split
      · exact decodeMembers_all maintained rest all
      · exact all
  | .more tree rest, name, .value, current, before, all => by
      have written : ∀ outcome : Outcome (C.Entity name), outcome.value.all test = true →
          (outcome.follow id fun record _ =>
            decodeMembers C matching rest name .separator none record).value.all test = true := by
        intro outcome first
        rcases outcome.value_follow id
            (fun record _ => decodeMembers C matching rest name .separator none record) with
          failed | behind
        · rw [failed]
          exact first
        · rw [behind]
          exact decodeMembers_all maintained rest first
      rw [decodeMembers.eq_def]
      dsimp only
      split
      · cases current with
        | some index =>
            exact written _ (Record.all_decodeAt (fun all => decodeTree_all maintained tree all) all)
        | none => exact written _ all
      · exact all
  | .more tree rest, _, .separator, _, _, all => by
      rw [decodeMembers]
      split
      · exact decodeMembers_all maintained rest all
      · exact all

/-- The items that are decoded meet the condition. -/
theorem decodeItems_all (maintained : Scalar.IsMaintained test) :
    ∀ (body : Body Lexeme) {inner : C.Shape} {place : ItemPlace},
      (decodeItems C matching body inner place).value.all test = true
  | .close ending, _, _ => by
      rw [decodeItems]
      split
      · exact Sequence.all_nil test
      · exact Sequence.all_nil test
  | .more tree rest, inner, .item => by
      rw [decodeItems]
      split
      · have head := decodeTree_all maintained tree (C.all_blank maintained inner)
        rcases (decodeTree C matching tree inner (C.blank inner)).value_follow
            (fun _ => Sequence.nil) (fun head _ =>
              (decodeItems C matching rest inner .separator).map fun tail => .cons head tail) with
          failed | behind
        · rw [failed]
          exact Sequence.all_nil test
        · rw [behind, Outcome.map, Sequence.all, head, decodeItems_all maintained rest]
          rfl
      · exact Sequence.all_nil test
  | .more tree rest, _, .separator => by
      rw [decodeItems]
      split
      · exact decodeItems_all maintained rest
      · exact Sequence.all_nil test

end

theorem decodeObject_all (maintained : Scalar.IsMaintained test) {name : C.Name}
    {before : C.Entity name} (lexer : Lexer) (all : before.all test = true) :
    (decodeObject C matching before lexer).value.all test = true := by
  rw [decodeObject]
  split
  · exact decodeMembers_all maintained _ all
  · exact all

/-- **The scalars of what a payload is decoded to meet the condition.** -/
theorem decodeDocument_all (maintained : Scalar.IsMaintained test) {name : C.Name}
    {payload : Bytes} {record : C.Entity name}
    (decoded : (decodeDocument C matching name payload).result = .ok record) :
    record.all test = true := by
  have object : (decodeObject C matching (C.blankEntity name)
      (Lexer.ofBytes payload)).value.all test = true :=
    decodeObject_all maintained _ (C.all_blankEntity maintained name)
  have whole : (decodeDocument C matching name payload).value.all test = true := by
    rw [decodeDocument]
    have finished := (decodeObject C matching (C.blankEntity name)
      (Lexer.ofBytes payload)).value_follow id finishWith
    split <;> rcases finished with same | same <;> exact same ▸ object
  rw [Outcome.result] at decoded
  split at decoded <;> cases decoded
  exact whole

end

end ChatCodec
