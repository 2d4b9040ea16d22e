import ChatCodec.Proofs.Json.Opaque
import ChatCodec.Proofs.Json.Spelled

/-!
# Spelled values are read back

The strict reader reads a value from tokens that spell it out if as many brackets may be open
as the value has inside one another (`Json.Value.depth`).  It puts the keys of objects in order
(`Json.Spells.readValue_arranged`), and so it reads the value itself if they are in order already
(`Json.Value.isSorted`, `Json.Spells.readValue_eq`).  Whatever it has read before meets both
conditions (`Json.kept_of_readValue`).

The streaming decoder therefore takes opaque JSON back as it was
(`decodeOpaque_of_spells`).
-/

namespace ChatCodec

set_option autoImplicit false

namespace Json

/-! ## Members in order -/

namespace Members

/-- The keys of members, in order. -/
def keys : Members → List String
  | .nil => []
  | .cons key _ tail => key :: tail.keys

/-- Members behind others. -/
def append : Members → Members → Members
  | .nil, others => others
  | .cons key value tail, others => .cons key value (tail.append others)

theorem append_nil (members : Members) : members.append .nil = members := by
  generalize empty : Members.nil = others
  fun_induction Members.append members others with
  | case1 => exact empty.symm
  | case2 key value tail _ ih => exact congrArg (Members.cons key value) (ih empty)

theorem append_assoc : ∀ (first second third : Members),
    (first.append second).append third = first.append (second.append third)
  | .nil, _, _ => rfl
  | .cons key value tail, second, third =>
      congrArg (Members.cons key value) (tail.append_assoc second third)

theorem keys_append : ∀ (first second : Members),
    (first.append second).keys = first.keys ++ second.keys
  | .nil, _ => rfl
  | .cons key _ tail, second => congrArg (key :: ·) (tail.keys_append second)

/-- A key behind all others is inserted at the end. -/
theorem insert_eq_append {key : String} {value : Value} : ∀ {members : Members},
    (∀ other ∈ members.keys, other < key) →
      members.insert key value = members.append (.cons key value .nil)
  | .nil, _ => rfl
  | .cons other old tail, behind => by
      have before : other < key := behind other List.mem_cons_self
      have differs : key ≠ other := fun same => String.lt_irrefl other (same ▸ before)
      have notBefore : ¬ key < other := String.lt_asymm before
      rw [insert, if_neg differs, if_neg notBefore,
        insert_eq_append fun further isIn => behind further (List.mem_cons_of_mem other isIn)]
      rfl

/-- The keys after an insertion. -/
theorem mem_keys_insert {key further : String} {value : Value} : ∀ {members : Members},
    further ∈ (members.insert key value).keys → further = key ∨ further ∈ members.keys
  | .nil, isIn => .inl (List.mem_singleton.mp isIn)
  | .cons other old tail, isIn => by
      rw [insert] at isIn
      split at isIn
      · rcases List.mem_cons.mp isIn with same | behind
        · exact .inl same
        · exact .inr (List.mem_cons_of_mem other behind)
      · split at isIn
        · exact List.mem_cons.mp isIn
        · rcases List.mem_cons.mp isIn with rfl | behind
          · exact .inr List.mem_cons_self
          · exact (mem_keys_insert behind).imp_right (List.mem_cons_of_mem other)

/-- Insertion keeps the keys in order. -/
theorem pairwise_keys_insert {key : String} {value : Value} : ∀ {members : Members},
    members.keys.Pairwise (· < ·) → (members.insert key value).keys.Pairwise (· < ·)
  | .nil, _ => List.pairwise_singleton _ _
  | .cons other old tail, sorted => by
      obtain ⟨first, rest⟩ := List.pairwise_cons.mp sorted
      rw [insert]
      split
      · next same =>
          rw [same]
          exact sorted
      · next differs =>
          split
          · next before =>
              refine List.pairwise_cons.mpr ⟨fun further isIn => ?_, sorted⟩
              rcases List.mem_cons.mp isIn with rfl | behind
              · exact before
              · exact String.lt_trans before (first further behind)
          · next notBefore =>
              refine List.pairwise_cons.mpr ⟨fun further isIn => ?_, pairwise_keys_insert rest⟩
              rcases mem_keys_insert isIn with rfl | behind
              · apply String.not_le.mp
                intro reverse
                apply differs
                exact String.le_antisymm reverse (String.not_lt.mp notBefore)
              · exact first further behind

end Members

/-! ## Conditions on a value -/

mutual

/-- How many brackets of a value are open inside one another. -/
def Value.depth : Value → Nat
  | .array items => items.depth + 1
  | .object members => members.depth + 1
  | _ => 0

/-- The depth of the deepest item. -/
def Items.depth : Items → Nat
  | .nil => 0
  | .cons head tail => max head.depth tail.depth

/-- The depth of the deepest member. -/
def Members.depth : Members → Nat
  | .nil => 0
  | .cons _ value tail => max value.depth tail.depth

end

mutual

/-- Whether the keys of every object are in order, without one that occurs twice. -/
def Value.isSorted : Value → Bool
  | .array items => items.isSorted
  | .object members => decide (members.keys.Pairwise (· < ·)) && members.isSorted
  | _ => true

/-- Whether the keys of every object in the items are in order. -/
def Items.isSorted : Items → Bool
  | .nil => true
  | .cons head tail => head.isSorted && tail.isSorted

/-- Whether the keys of every object in the values of the members are in order. -/
def Members.isSorted : Members → Bool
  | .nil => true
  | .cons _ value tail => value.isSorted && tail.isSorted

end

theorem Members.isSorted_insert {key : String} {value : Value} (sorted : value.isSorted = true) :
    ∀ {members : Members}, members.isSorted = true → (members.insert key value).isSorted = true
  | .nil, _ => by
      rw [Members.insert, Members.isSorted, sorted]
      rfl
  | .cons other old tail, all => by
      have parts := all
      rw [Members.isSorted, Bool.and_eq_true] at parts
      rw [Members.insert]
      split
      · rw [Members.isSorted, sorted, parts.2]
        rfl
      · split
        · rw [Members.isSorted, sorted, all]
          rfl
        · rw [Members.isSorted, parts.1, Members.isSorted_insert sorted parts.2]
          rfl

theorem Members.depth_insert {key : String} {value : Value} {bound : Nat}
    (shallow : value.depth ≤ bound) : ∀ {members : Members}, members.depth ≤ bound →
      (members.insert key value).depth ≤ bound
  | .nil, _ => by
      rw [Members.insert, Members.depth, Members.depth]
      omega
  | .cons other old tail, all => by
      have parts := all
      rw [Members.depth] at parts
      rw [Members.insert]
      split
      · rw [Members.depth]
        omega
      · split
        · rw [Members.depth]
          omega
        · have behind : (Members.insert key value tail).depth ≤ bound :=
            Members.depth_insert shallow (by omega)
          rw [Members.depth]
          omega

/-- Members as the strict reader keeps them: nested no deeper than allowed, and with keys in
order, here and further inside. -/
structure Members.IsKept (allowed : Nat) (members : Members) : Prop where
  shallow : members.depth ≤ allowed
  keys : members.keys.Pairwise (· < ·)
  sorted : members.isSorted = true

theorem Members.IsKept.nil (allowed : Nat) : Members.nil.IsKept allowed :=
  ⟨Nat.zero_le _, List.Pairwise.nil, rfl⟩

theorem Members.IsKept.insert {allowed : Nat} {members : Members} (kept : members.IsKept allowed)
    {value : Value} (read : value.depth ≤ allowed ∧ value.isSorted = true) (key : String) :
    (members.insert key value).IsKept allowed :=
  ⟨depth_insert read.1 kept.shallow, pairwise_keys_insert kept.keys,
    isSorted_insert read.2 kept.sorted⟩

mutual

/-- **What the strict reader reads is nested no deeper than allowed and has its keys in
order.** -/
theorem kept_of_readValue : ∀ {tree : Tree Piece} {allowed : Nat} {value : Value},
    readValue allowed tree = .ok value → value.depth ≤ allowed ∧ value.isSorted = true
  | .leaf (.scalar source), _, value, read => by
      obtain ⟨atom, -, rfl⟩ := map_eq_ok_iff.mp read
      cases atom <;> exact ⟨Nat.zero_le _, rfl⟩
  | .leaf (.mark token), _, _, read => by cases read
  | .leaf .eof, _, _, read => by cases read
  | .leaf (.broken fault), _, _, read => by cases read
  | .group opening body, _, value, read => by
      by_cases object : opening = .mark .objectStart
      · subst object
        obtain ⟨allowed, rfl, members, inside, rfl⟩ := readValue_object.mp read
        have kept := kept_of_readMembers inside (.nil allowed)
        rw [Value.depth, Value.isSorted, decide_eq_true kept.keys, kept.sorted]
        exact ⟨Nat.succ_le_succ kept.shallow, rfl⟩
      · obtain ⟨_, rfl, items, inside, rfl⟩ := (readValue_array object).mp read
        have kept := kept_of_readItems inside
        rw [Value.depth, Value.isSorted]
        exact ⟨Nat.succ_le_succ kept.1, kept.2⟩

theorem kept_of_readMembers : ∀ {body : Body Piece} {allowed : Nat} {stage : Stage}
    {key : String} {before members : Members},
      readMembers allowed stage key before body = .ok members → before.IsKept allowed →
        members.IsKept allowed
  | .close ending, _, _, _, _, _, read, kept => by
      obtain ⟨-, rfl⟩ := readMembers_close.mp read
      exact kept
  | .more tree rest, _, stage, _, _, _, read, kept => by
      cases stage with
      | opened =>
          obtain ⟨_, -, _, -, behind⟩ := (readMembers_key (.inl rfl)).mp read
          exact kept_of_readMembers behind kept
      | separated =>
          obtain ⟨_, -, _, -, behind⟩ := (readMembers_key (.inr rfl)).mp read
          exact kept_of_readMembers behind kept
      | named => exact kept_of_readMembers (readMembers_colon.mp read).2 kept
      | announced =>
          obtain ⟨value, readHere, behind⟩ := readMembers_value.mp read
          exact kept_of_readMembers behind (kept.insert (kept_of_readValue readHere) _)
      | filled => exact kept_of_readMembers (readMembers_comma.mp read).2 kept

theorem kept_of_readItems : ∀ {body : Body Piece} {allowed : Nat} {stage : Stage}
    {items : Items}, readItems allowed stage body = .ok items →
      items.depth ≤ allowed ∧ items.isSorted = true
  | .close ending, _, _, _, read => by
      obtain ⟨-, rfl⟩ := readItems_close.mp read
      exact ⟨Nat.zero_le _, rfl⟩
  | .more tree rest, _, stage, _, read => by
      by_cases filled : stage = .filled
      · subst filled
        exact kept_of_readItems (readItems_comma.mp read).2
      · obtain ⟨head, readHead, tail, readTail, rfl⟩ := (readItems_item filled).mp read
        have first := kept_of_readValue readHead
        have behind := kept_of_readItems readTail
        rw [Items.depth, Items.isSorted, first.2, behind.2]
        exact ⟨Nat.max_le.mpr ⟨first.1, behind.1⟩, rfl⟩

end

/-! ## Keys put in order -/

mutual

/-- The value with its members inserted into its objects by their keys. -/
def Value.arranged : Value → Value
  | .array items => .array items.arranged
  | .object members => .object (members.arrangedInto .nil)
  | value => value

/-- The items with the keys of their objects put in order. -/
def Items.arranged : Items → Items
  | .nil => .nil
  | .cons head tail => .cons head.arranged tail.arranged

/-- The members inserted one after another into those before them. -/
def Members.arrangedInto : Members → Members → Members
  | .nil, before => before
  | .cons key value tail, before => tail.arrangedInto (before.insert key value.arranged)

end

mutual

/-- **A value whose keys are in order stays as it is.** -/
theorem Value.arranged_of_isSorted : ∀ {value : Value}, value.isSorted = true →
    value.arranged = value
  | .null, _ => rfl
  | .bool _, _ => rfl
  | .number _, _ => rfl
  | .text _, _ => rfl
  | .array items, sorted => by
      rw [Value.isSorted] at sorted
      rw [Value.arranged, items.arranged_of_isSorted sorted]
  | .object members, sorted => by
      rw [Value.isSorted, Bool.and_eq_true, decide_eq_true_eq] at sorted
      have inOrder : (Members.nil.append members).keys.Pairwise (· < ·) := sorted.1
      rw [Value.arranged, members.arrangedInto_of_isSorted sorted.2 inOrder]
      rfl

theorem Items.arranged_of_isSorted : ∀ {items : Items}, items.isSorted = true →
    items.arranged = items
  | .nil, _ => rfl
  | .cons head tail, sorted => by
      rw [Items.isSorted, Bool.and_eq_true] at sorted
      rw [Items.arranged, head.arranged_of_isSorted sorted.1, tail.arranged_of_isSorted sorted.2]

/-- Members whose keys come behind the others in order are put behind them. -/
theorem Members.arrangedInto_of_isSorted : ∀ {members before : Members},
    members.isSorted = true → (before.append members).keys.Pairwise (· < ·) →
      members.arrangedInto before = before.append members
  | .nil, before, _, _ => before.append_nil.symm
  | .cons key value tail, before, sorted, keys => by
      rw [Members.isSorted, Bool.and_eq_true] at sorted
      have inserted : before.insert key value = before.append (.cons key value .nil) := by
        apply Members.insert_eq_append
        intro other isIn
        rw [Members.keys_append, List.pairwise_append] at keys
        exact keys.2.2 other isIn key List.mem_cons_self
      have whole : (before.append (.cons key value .nil)).append tail =
          before.append (.cons key value tail) := Members.append_assoc _ _ _
      rw [Members.arrangedInto, value.arranged_of_isSorted sorted.1, inserted,
        tail.arrangedInto_of_isSorted sorted.2 (by rw [whole]; exact keys), whole]

end

/-! ## Reading what is spelled out -/

open Piece (Matches)

/-- A token that shows a text, and the piece that matches it. -/
theorem Shows.exists_text {lexeme : Lexeme} {key : String} (shows : Shows lexeme (.text key)) :
    lexeme.token = .string ∧ lexeme.lexer.output = bytesOf key ∧
      ∀ {piece : Piece}, Matches piece lexeme →
        ∃ bytes, piece = .scalar (Ascii.quote :: bytes) ∧ readText bytes = .ok key := by
  have captured : lexeme.token = .string ∧ lexeme.lexer.output = bytesOf key := by
    have shown := shows.shown
    revert shown
    generalize lexeme.token = token, lexeme.lexer.output = output
    intro shown
    cases shown with
    | text same => exact ⟨rfl, same.symm⟩
  refine ⟨captured.1, captured.2, fun matching => ?_⟩
  obtain ⟨rest, same, reads⟩ := matching.exists_rest shows.isScalar
  rw [captured.1] at reads
  obtain ⟨body, units, source, isText, -⟩ := reads.exists_body
  have read := shows.read
  rw [source, Atom.read_text] at read
  obtain ⟨text, readBody, textSame⟩ := map_eq_ok_iff.mp read
  cases textSame
  exact ⟨body ++ rest, by rw [same, source, List.cons_append],
    by rw [readText_append isText, readBody]⟩

mutual

/-- **The strict reader reads a value from tokens that spell it out**, with the keys of its
objects put in order. -/
theorem Spells.readValue_arranged : ∀ {tokens : Tree Lexeme} {value : Value},
    Spells tokens value → ∀ {tree : Tree Piece}, tree.Related Matches tokens →
      ∀ {allowed : Nat}, value.depth ≤ allowed → readValue allowed tree = .ok value.arranged
  | _, _, @Spells.atom _ atom shows, _, .leaf same, allowed, _ => by
      obtain ⟨rest, rfl, reads⟩ := same.exists_rest shows.isScalar
      have plain : atom.value.arranged = atom.value := by cases atom <;> rfl
      rw [readValue, Atom.read_append reads shows.isScalar, shows.read, plain]
      rfl
  | _, _, .array begins inside, _, .group same inner, allowed, shallow => by
      obtain rfl := same.eq_mark_of_token begins rfl rfl
      rw [Value.depth] at shallow
      exact (readValue_array (by decide)).mpr
        ⟨allowed - 1, by omega, _, inside.readItems_arranged inner (by omega), rfl⟩
  | _, _, .object begins inside, _, .group same inner, allowed, shallow => by
      obtain rfl := same.eq_mark_of_token begins rfl rfl
      rw [Value.depth] at shallow
      exact readValue_object.mpr
        ⟨allowed - 1, by omega, _, inside.readMembers_arranged inner .nil (by omega), rfl⟩

theorem SpellsItems.readItems_arranged : ∀ {stage : Stage} {body : Body Lexeme} {items : Items},
    SpellsItems stage body items → ∀ {pieces : Body Piece}, pieces.Related Matches body →
      ∀ {allowed : Nat}, items.depth ≤ allowed →
        readItems allowed stage pieces = .ok items.arranged
  | _, _, _, .close ends closes, _, .close same, _, _ => by
      exact readItems_close.mpr ⟨⟨same.eq_mark_of_token closes rfl rfl, ends⟩, rfl⟩
  | _, _, _, .item begins spells following, _, .more alike rest, _, shallow => by
      rw [Items.depth] at shallow
      exact (readItems_item begins).mpr
        ⟨_, spells.readValue_arranged alike (by omega), _,
          following.readItems_arranged rest (by omega), rfl⟩
  | _, _, _, .comma separates following, _, .more (.leaf same) rest, _, shallow => by
      exact readItems_comma.mpr
        ⟨same.eq_mark_of_token separates rfl rfl, following.readItems_arranged rest shallow⟩

/-- The members are read into those before them. -/
theorem SpellsMembers.readMembers_arranged : ∀ {stage : Stage} {body : Body Lexeme}
    {members : Members}, SpellsMembers stage body members →
      ∀ {pieces : Body Piece}, pieces.Related Matches body → ∀ {allowed : Nat} {key : String}
        (before : Members), members.depth ≤ allowed →
          readMembers allowed stage key before pieces = .ok (members.arrangedInto before)
  | _, _, _, .close ends closes, _, .close same, _, _, _, _ => by
      exact readMembers_close.mpr ⟨⟨same.eq_mark_of_token closes rfl rfl, ends⟩, rfl⟩
  | _, _, _, @SpellsMembers.member _ _ _ _ _ key value _ begins names announces spells following,
      _, related, _, _, _, shallow => by
      obtain ⟨_, _, rfl, sameName, related⟩ := related.exists_leaf
      obtain ⟨_, _, rfl, sameMark, related⟩ := related.exists_leaf
      obtain ⟨_, _, rfl, alike, rest⟩ := related.exists_more
      rw [Members.depth] at shallow
      obtain ⟨bytes, named, read⟩ := names.exists_text.2.2 sameName
      refine (readMembers_key begins).mpr ⟨bytes, named, key, read, ?_⟩
      refine readMembers_colon.mpr ⟨sameMark.eq_mark_of_token announces rfl rfl, ?_⟩
      refine readMembers_value.mpr ⟨_, spells.readValue_arranged alike (by omega), ?_⟩
      exact following.readMembers_arranged rest _ (by omega)
  | _, _, _, .comma separates following, _, .more (.leaf same) rest, _, _, before, shallow => by
      exact readMembers_comma.mpr
        ⟨same.eq_mark_of_token separates rfl rfl,
          following.readMembers_arranged rest before shallow⟩

end

/-- The strict reader reads a value whose keys are in order as it is. -/
theorem Spells.readValue_eq {tokens : Tree Lexeme} {value : Value} (spells : Spells tokens value)
    {tree : Tree Piece} (alike : tree.Related Matches tokens) {allowed : Nat}
    (shallow : value.depth ≤ allowed) (sorted : value.isSorted = true) :
    readValue allowed tree = .ok value := by
  rw [spells.readValue_arranged alike shallow, Value.arranged_of_isSorted sorted]

end Json

/-- **Opaque JSON is decoded to the value that its tokens spell out.** -/
theorem decodeOpaque_of_spells {lexer last : Lexer} {tokens : Tree Lexeme} {value : Json.Value}
    (spells : Json.Spells tokens value) (run : Lexer.Run lexer tokens.items last)
    (shallow : value.depth ≤ Json.nestingLimit) (sorted : value.isSorted = true)
    (before : Json.Value) : decodeOpaque tokens before = .done value last := by
  obtain ⟨tree, alike, -⟩ := Json.Value.ofDocument_rawTo spells.isNested run
  have read := spells.readValue_eq alike shallow sorted
  have nested : tree.IsNested Json.Piece.role :=
    alike.flip.isNested (fun _ _ same => same.role_eq.symm) spells.isNested
  exact decodeOpaque_of_readValue run alike (Json.inOrder_of_readValue nested.isOpened read)
    (Nat.le_refl _) read before

end ChatCodec
