import Mathlib.Data.List.Forall2
import ChatCodec.Nesting

/-!
# Grouping and flattening

Flattening a nested value gives the stretch of the stream that it was made of.  A value
is nested (`Tree.IsNested`) if its brackets are: what stands by itself is a leaf, and every
group is opened by an opening item and ended by a closing one.

* Grouping a stream that begins with the items of a nested value finds that value and goes
  on behind it (`Tree.levels_items`).
* Whenever grouping has found a nested value, the stream began with its items
  (`Tree.eq_items_of_levels`).
* Nested or not, all levels together have the items of the stream (`Body.items_levels`).

A stream whose items are related one by one to those of a value is made of the items of
a related value (`Tree.exists_related`), and what is related to a nested value is nested.

Of the bodies of any stream at least this is certain, that every group is opened by an
opening item (`Body.isOpened_levels`).
-/

namespace ChatCodec

set_option autoImplicit false

variable {α β : Type}

/-! ## Flattening -/

mutual

/-- The items of a value, in order. -/
def Tree.items : Tree α → List α
  | .leaf item => [item]
  | .group opening body => opening :: body.items

/-- The items of a body, in order, and the one that ends it. -/
def Body.items : Body α → List α
  | .close ending => [ending]
  | .more head rest => head.items ++ rest.items

end

theorem Tree.items_eq_cons (tree : Tree α) : ∃ others, tree.items = tree.head :: others := by
  cases tree with
  | leaf item => exact ⟨[], rfl⟩
  | group opening body => exact ⟨body.items, rfl⟩

/-- The last item of a value. -/
def Tree.last : Tree α → α
  | .leaf item => item
  | .group _ body => body.ending

mutual

/-- What stands by itself is a leaf, and every group is opened and closed. -/
def Tree.IsNested (role : α → Role) : Tree α → Prop
  | .leaf item => role item = .stands
  | .group opening body => role opening = .opens ∧ body.IsNested role

/-- The values of a body are nested, and the item that ends it closes. -/
def Body.IsNested (role : α → Role) : Body α → Prop
  | .close ending => role ending = .closes
  | .more head rest => head.IsNested role ∧ rest.IsNested role

end

section

variable {role : α → Role} {last : α}

mutual

/-- **Grouping finds a nested value at the front of a stream.** -/
theorem Tree.levels_items : ∀ {tree : Tree α}, tree.IsNested role → ∀ (rest : List α),
    Body.levels role last (tree.items ++ rest) =
      (.more tree (Body.levels role last rest).1, (Body.levels role last rest).2)
  | .leaf item, nested, rest => by
      rw [Tree.IsNested] at nested
      rw [Tree.items, List.singleton_append, Body.levels, nested]
  | .group opening body, nested, rest => by
      rw [Tree.IsNested] at nested
      rw [Tree.items, List.cons_append, Body.levels, nested.1, Body.levels_items nested.2 rest]
      rfl

/-- Grouping finds a nested body at the front of a stream, and behind it the level around. -/
theorem Body.levels_items : ∀ {body : Body α}, body.IsNested role → ∀ (rest : List α),
    Body.levels role last (body.items ++ rest) =
      (body, (Body.levels role last rest).1 :: (Body.levels role last rest).2)
  | .close ending, nested, rest => by
      rw [Body.IsNested] at nested
      rw [Body.items, List.singleton_append, Body.levels, nested]
  | .more head tail, nested, rest => by
      rw [Body.IsNested] at nested
      rw [Body.items, List.append_assoc, Tree.levels_items nested.1,
        Body.levels_items nested.2 rest]

end

/-! ## Reading off the stream -/

mutual

/-- **A nested value that grouping has found was at the front of the stream.** -/
theorem Tree.eq_items_of_levels (open_ : role last ≠ .closes) :
    ∀ {tree : Tree α} {rest : Body α} {outer : List (Body α)} {items : List α},
      tree.IsNested role → Body.levels role last items = (.more tree rest, outer) →
        ∃ others, items = tree.items ++ others ∧ Body.levels role last others = (rest, outer)
  | .leaf item, rest, outer, [], nested, found => by
      cases found
  | .leaf item, rest, outer, first :: others, nested, found => by
      rw [Body.levels] at found
      cases part : role first with
      | closes => rw [part] at found; cases found
      | opens => rw [part] at found; cases found
      | stands =>
          rw [part] at found
          cases found
          exact ⟨others, rfl, rfl⟩
  | .group opening body, rest, outer, [], nested, found => by
      cases found
  | .group opening body, rest, outer, first :: others, nested, found => by
      rw [Tree.IsNested] at nested
      rw [Body.levels] at found
      cases part : role first with
      | closes => rw [part] at found; cases found
      | stands => rw [part] at found; cases found
      | opens =>
          rw [part] at found
          cases found
          obtain ⟨behind, same, outside⟩ := Body.eq_items_of_levels open_ nested.2
            (rfl : Body.levels role last others = (_, (Body.levels role last others).2))
          exact ⟨behind, congrArg (opening :: ·) same, by rw [outside]; rfl⟩

/-- A nested body that grouping has found was at the front of the stream. -/
theorem Body.eq_items_of_levels (open_ : role last ≠ .closes) :
    ∀ {body : Body α} {outer : List (Body α)} {items : List α},
      body.IsNested role → Body.levels role last items = (body, outer) →
        ∃ others, items = body.items ++ others ∧
          outer = (Body.levels role last others).1 :: (Body.levels role last others).2
  | .close ending, outer, [], nested, found => by
      cases found
      exact absurd nested open_
  | .close ending, outer, first :: others, nested, found => by
      rw [Body.levels] at found
      cases part : role first with
      | closes =>
          rw [part] at found
          cases found
          exact ⟨others, rfl, rfl⟩
      | opens => rw [part] at found; cases found
      | stands => rw [part] at found; cases found
  | .more head tail, outer, items, nested, found => by
      rw [Body.IsNested] at nested
      obtain ⟨others, rfl, foundTail⟩ := Tree.eq_items_of_levels open_ nested.1 found
      obtain ⟨behind, rfl, outside⟩ := Body.eq_items_of_levels open_ nested.2 foundTail
      exact ⟨behind, (List.append_assoc _ _ _).symm, outside⟩

end

/-- A stream is at its end where grouping finds an item that does not close. -/
theorem Body.eq_nil_of_levels_close {items : List α} {ending : α} {outer : List (Body α)}
    (found : levels role last items = (.close ending, outer)) (open_ : role ending ≠ .closes) :
    items = [] ∧ ending = last := by
  cases items with
  | nil =>
      cases found
      exact ⟨rfl, rfl⟩
  | cons first others =>
      rw [levels] at found
      cases part : role first with
      | closes =>
          rw [part] at found
          cases found
          exact absurd part open_
      | opens => rw [part] at found; cases found
      | stands => rw [part] at found; cases found

/-- **Grouping brings in nothing and leaves out nothing.**  The items of the bodies, from the
innermost level outwards, are those of the stream; only the last item may be there several times,
since it ends every level that is still open. -/
theorem Body.items_levels (items : List α) :
    ∃ count, (levels role last items).1.items ++ (levels role last items).2.flatMap Body.items =
      items ++ List.replicate count last := by
  induction items with
  | nil => exact ⟨1, rfl⟩
  | cons first rest ih =>
      obtain ⟨count, same⟩ := ih
      rw [levels]
      cases role first with
      | closes =>
          refine ⟨count, ?_⟩
          simp only [Body.items, List.flatMap_cons, same, List.cons_append, List.nil_append]
      | stands =>
          refine ⟨count, ?_⟩
          simp only [Body.items, Tree.items, List.cons_append, List.nil_append, same]
      | opens =>
          cases around : (levels role last rest).2 with
          | nil =>
              rw [around, List.flatMap_nil, List.append_nil] at same
              refine ⟨count + 1, ?_⟩
              simp only [Body.items, Tree.items, List.headD_nil, List.tail_nil, List.flatMap_nil,
                List.append_nil, List.cons_append, same, List.replicate_succ', List.append_assoc]
          | cons behind further =>
              rw [around, List.flatMap_cons] at same
              refine ⟨count, ?_⟩
              simp only [Body.items, Tree.items, List.headD_cons, List.tail_cons,
                List.cons_append, List.append_assoc, same]

end

/-! ## Related streams -/

mutual

/-- Two values of the same form whose items are related one by one. -/
inductive Tree.Related (related : α → β → Prop) : Tree α → Tree β → Prop where
  | leaf {first : α} {second : β} (same : related first second) :
      Tree.Related related (.leaf first) (.leaf second)
  | group {first : α} {second : β} {body : Body α} {body' : Body β} (same : related first second)
      (alike : Body.Related related body body') :
      Tree.Related related (.group first body) (.group second body')

/-- Two bodies of the same form whose items are related one by one. -/
inductive Body.Related (related : α → β → Prop) : Body α → Body β → Prop where
  | close {first : α} {second : β} (same : related first second) :
      Body.Related related (.close first) (.close second)
  | more {head : Tree α} {head' : Tree β} {rest : Body α} {rest' : Body β}
      (alike : Tree.Related related head head') (following : Body.Related related rest rest') :
      Body.Related related (.more head rest) (.more head' rest')

end

section

variable {related : α → β → Prop}

mutual

/-- **A stream that is related to the items of a value has the same form.** -/
theorem Tree.exists_related : ∀ {tree : Tree β} {items : List α},
    List.Forall₂ related items tree.items →
      ∃ other : Tree α, items = other.items ∧ other.Related related tree
  | .leaf item, items, all => by
      rw [Tree.items] at all
      cases all with
      | cons same none =>
          cases none
          exact ⟨.leaf _, rfl, .leaf same⟩
  | .group opening body, items, all => by
      rw [Tree.items] at all
      cases all with
      | cons same inner =>
          obtain ⟨other, rfl, alike⟩ := Body.exists_related inner
          exact ⟨.group _ other, rfl, .group same alike⟩

theorem Body.exists_related : ∀ {body : Body β} {items : List α},
    List.Forall₂ related items body.items →
      ∃ other : Body α, items = other.items ∧ other.Related related body
  | .close ending, items, all => by
      rw [Body.items] at all
      cases all with
      | cons same none =>
          cases none
          exact ⟨.close _, rfl, .close same⟩
  | .more head rest, items, all => by
      rw [Body.items] at all
      obtain ⟨front, frontSame, alike⟩ :=
        Tree.exists_related (List.forall₂_take_append items _ _ all)
      obtain ⟨back, backSame, following⟩ :=
        Body.exists_related (List.forall₂_drop_append items _ _ all)
      refine ⟨.more front back, ?_, .more alike following⟩
      rw [Body.items, ← frontSame, ← backSame, List.take_append_drop]

end

mutual

theorem Tree.Related.flip : ∀ {tree : Tree α} {other : Tree β}, tree.Related related other →
    other.Related (flip related) tree
  | _, _, .leaf same => .leaf same
  | _, _, .group same alike => .group same alike.flip

theorem Body.Related.flip : ∀ {body : Body α} {other : Body β}, body.Related related other →
    other.Related (flip related) body
  | _, _, .close same => .close same
  | _, _, .more alike following => .more alike.flip following.flip

end

/-- **Related streams are grouped to related bodies**, at every level. -/
theorem Body.related_levels {role : α → Role} {role' : β → Role} {last : α} {last' : β}
    (alike : ∀ first second, related first second → role first = role' second)
    (ends : related last last') {items : List α} {items' : List β}
    (all : List.Forall₂ related items items') :
    Body.Related related (levels role last items).1 (levels role' last' items').1 ∧
      List.Forall₂ (Body.Related related) (levels role last items).2
        (levels role' last' items').2 := by
  induction all with
  | nil => exact ⟨.close ends, .nil⟩
  | @cons first second behind behind' same _ ih =>
      rw [levels, levels, ← alike _ _ same]
      revert ih
      generalize levels role last behind = following
      generalize levels role' last' behind' = following'
      obtain ⟨body, around⟩ := following
      obtain ⟨body', around'⟩ := following'
      rintro ⟨inner, outer⟩
      cases role first with
      | closes => exact ⟨.close same, .cons inner outer⟩
      | stands => exact ⟨.more (.leaf same) inner, outer⟩
      | opens =>
          cases outer with
          | nil => exact ⟨.more (.group same inner) (.close ends), .nil⟩
          | cons next further => exact ⟨.more (.group same inner) next, further⟩

variable {role : α → Role} {role' : β → Role}

mutual

/-- What is related to a nested value is nested. -/
theorem Tree.Related.isNested
    (alike : ∀ first second, related first second → role first = role' second) :
    ∀ {tree : Tree α} {other : Tree β}, tree.Related related other → tree.IsNested role →
      other.IsNested role'
  | _, _, .leaf same, nested => by
      rw [Tree.IsNested] at nested ⊢
      rw [← alike _ _ same, nested]
  | _, _, .group same inner, nested => by
      rw [Tree.IsNested] at nested ⊢
      exact ⟨by rw [← alike _ _ same, nested.1], inner.isNested alike nested.2⟩

theorem Body.Related.isNested
    (alike : ∀ first second, related first second → role first = role' second) :
    ∀ {body : Body α} {other : Body β}, body.Related related other → body.IsNested role →
      other.IsNested role'
  | _, _, .close same, nested => by
      rw [Body.IsNested] at nested ⊢
      rw [← alike _ _ same, nested]
  | _, _, .more head following, nested => by
      rw [Body.IsNested] at nested ⊢
      exact ⟨head.isNested alike nested.1, following.isNested alike nested.2⟩

end

theorem Tree.Related.head {tree : Tree α} {tree' : Tree β} (alike : tree.Related related tree') :
    related tree.head tree'.head := by
  cases alike with
  | leaf same => exact same
  | group same _ => exact same

theorem Body.Related.exists_more {body : Body α} {head' : Tree β} {rest' : Body β}
    (alike : body.Related related (.more head' rest')) :
    ∃ head rest, body = .more head rest ∧ head.Related related head' ∧ rest.Related related rest' := by
  cases alike with
  | more alike following => exact ⟨_, _, rfl, alike, following⟩

theorem Body.Related.exists_leaf {body : Body α} {second : β} {rest' : Body β}
    (alike : body.Related related (.more (.leaf second) rest')) :
    ∃ first rest, body = .more (.leaf first) rest ∧ related first second ∧
      rest.Related related rest' := by
  obtain ⟨_, rest, rfl, head, following⟩ := alike.exists_more
  cases head with
  | leaf same => exact ⟨_, rest, rfl, same, following⟩

end

/-! ## Groups of any stream -/

mutual

/-- Every group of a value is opened by an opening item. -/
def Tree.IsOpened (role : α → Role) : Tree α → Prop
  | .leaf _ => True
  | .group opening body => role opening = .opens ∧ body.IsOpened role

/-- Every group of a body is opened by an opening item. -/
def Body.IsOpened (role : α → Role) : Body α → Prop
  | .close _ => True
  | .more head rest => head.IsOpened role ∧ rest.IsOpened role

end

mutual

/-- The groups of a nested value are opened. -/
theorem Tree.IsNested.isOpened {role : α → Role} : ∀ {tree : Tree α}, tree.IsNested role →
    tree.IsOpened role
  | .leaf _, _ => by
      rw [Tree.IsOpened]
      trivial
  | .group opening body, nested => by
      rw [Tree.IsNested] at nested
      rw [Tree.IsOpened]
      exact ⟨nested.1, nested.2.isOpened⟩

theorem Body.IsNested.isOpened {role : α → Role} : ∀ {body : Body α}, body.IsNested role →
    body.IsOpened role
  | .close _, _ => by
      rw [Body.IsOpened]
      trivial
  | .more head rest, nested => by
      rw [Body.IsNested] at nested
      rw [Body.IsOpened]
      exact ⟨nested.1.isOpened, nested.2.isOpened⟩

end

/-- **Groups are opened by opening items**, whatever the stream. -/
theorem Body.isOpened_levels (role : α → Role) (last : α) (items : List α) :
    (levels role last items).1.IsOpened role ∧
      ∀ body ∈ (levels role last items).2, body.IsOpened role := by
  induction items with
  | nil =>
      refine ⟨?_, fun body isIn => by cases isIn⟩
      rw [levels, Body.IsOpened]
      trivial
  | cons first rest ih =>
      obtain ⟨inner, outer⟩ := ih
      rw [levels]
      cases part : role first with
      | closes =>
          refine ⟨?_, ?_⟩
          · simp only [Body.IsOpened]
          · intro body isIn
            rcases List.mem_cons.mp isIn with rfl | further
            · exact inner
            · exact outer body further
      | stands =>
          refine ⟨?_, outer⟩
          simp only [Body.IsOpened, Tree.IsOpened]
          exact ⟨trivial, inner⟩
      | opens =>
          cases levels' : (levels role last rest).2 with
          | nil =>
              refine ⟨?_, fun body isIn => by cases isIn⟩
              simp only [Body.IsOpened, Tree.IsOpened, List.headD_nil]
              exact ⟨⟨part, inner⟩, trivial⟩
          | cons around further =>
              rw [levels'] at outer
              refine ⟨?_, fun body isIn => outer body (List.mem_cons_of_mem around isIn)⟩
              simp only [Body.IsOpened, Tree.IsOpened, List.headD_cons]
              exact ⟨⟨part, inner⟩, outer around List.mem_cons_self⟩

end ChatCodec
