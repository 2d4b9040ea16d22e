import Mathlib.Data.List.Nodup
import ChatCodec.Entity.Catalog
import ChatCodec.Key
import ChatCodec.Proofs.Text.Utf8

/-!
# Finding fields by their keys

The keys of an entity are distinct, and none is empty (`Catalog.HasKeys`).  A key is then
found where it stands, under either matching (`Key.resolve_get`), and exact matching finds
what looking for an equal name finds (`Key.resolve_exact`).

The letters of the keys of an entity are distinct too, and every key has some
(`Catalog.HasLetters`).  So lenient matching comes down to the letters of a key, although it looks
for the key itself first (`Key.resolve_lenient`).  Where no field has the letters of a key but by
being named like it, the two matchings find the same (`Key.IsSettled`).
-/

namespace ChatCodec

set_option autoImplicit false

namespace Key

variable {names : List String}

theorem matchesExact_iff {name key : String} :
    matchesExact name (bytesOf key) = true ↔ name = key := by
  rw [matchesExact, beq_iff_eq]
  exact ⟨Utf8.encode_inj, congrArg bytesOf⟩

theorem bytesOf_ne_nil {key : String} (notEmpty : key ≠ "") : bytesOf key ≠ [] :=
  fun empty => notEmpty (Utf8.encode_inj empty)

/-- **Exact matching looks for an equal name.** -/
theorem resolve_exact (named : "" ∉ names) (key : String) :
    resolve names (bytesOf key) .exact = names.findIdx? (· == key) := by
  have alike : (fun name => matchesExact name (bytesOf key)) = fun name => name == key := by
    funext name
    rw [Bool.eq_iff_iff, matchesExact_iff, beq_iff_eq]
  rw [resolve, alike]
  by_cases empty : key = ""
  · subst empty
    have nowhere : names.findIdx? (· == "") = none := by
      rw [List.findIdx?_eq_none_iff]
      intro name isIn
      rw [beq_eq_false_iff_ne]
      rintro rfl
      exact named isIn
    rw [nowhere]
    rfl
  · rw [if_neg (bytesOf_ne_nil empty)]
    cases names.findIdx? (· == key) <;> rfl

/-- **A key is found where it stands**, whatever the matching. -/
theorem resolve_get (distinct : names.Nodup) (named : "" ∉ names) (index : Fin names.length)
    (matching : KeyMatching) :
    resolve names (bytesOf (names.get index)) matching = some index.val := by
  have notEmpty : names.get index ≠ "" := fun empty => named (empty ▸ names.get_mem index)
  have found : names.findIdx? (matchesExact · (bytesOf (names.get index))) = some index.val := by
    rw [List.findIdx?_eq_some_iff_getElem]
    refine ⟨index.isLt, matchesExact_iff.mpr rfl, fun other before sameKey => ?_⟩
    have same := (List.Nodup.getElem_inj_iff distinct).mp (matchesExact_iff.mp sameKey)
    omega
  rw [resolve.eq_def, if_neg (bytesOf_ne_nil notEmpty), found]

/-- A key with which no field shares its letters without being named like it, or the empty
key. -/
def IsSettled (names : List String) (key : Bytes) : Prop :=
  (∃ name ∈ names, bytesOf name = key) ∨ key = [] ∨
    ∀ name ∈ names, letters (bytesOf name) ≠ letters key

instance (names : List String) (key : Bytes) : Decidable (IsSettled names key) := by
  unfold IsSettled; infer_instance

/-- **A settled key finds the same under either matching.** -/
theorem IsSettled.resolve_eq {key : Bytes} (settled : IsSettled names key)
    (matching other : KeyMatching) : resolve names key matching = resolve names key other := by
  have same : resolve names key .exact = resolve names key .lenient := by
    rw [resolve, resolve]
    by_cases empty : key = []
    · rw [if_pos empty, if_pos empty]
    rw [if_neg empty, if_neg empty]
    cases found : names.findIdx? (matchesExact · key) with
    | some index => rfl
    | none =>
        rw [List.findIdx?_eq_none_iff] at found
        refine (List.findIdx?_eq_none_iff.mpr fun name isIn => ?_).symm
        rcases settled with ⟨same, sameIn, rfl⟩ | isEmpty | differs
        · have differs := found same sameIn
          rw [matchesExact, beq_self_eq_true] at differs
          cases differs
        · exact absurd isEmpty empty
        · exact beq_eq_false_iff_ne.mpr (differs name isIn)
  cases matching <;> cases other <;> first | rfl | exact same | exact same.symm

/-- **Lenient matching is a matter of letters**, if the letters of all names are distinct and
every name has some. -/
theorem resolve_lenient (distinct : (names.map fun name => letters (bytesOf name)).Nodup)
    (lettered : ∀ name ∈ names, letters (bytesOf name) ≠ []) (key : Bytes) :
    resolve names key .lenient = names.findIdx? (matchesFolded · key) := by
  rw [resolve]
  by_cases empty : key = []
  · subst empty
    rw [if_pos rfl, eq_comm, List.findIdx?_eq_none_iff]
    exact fun name isIn => beq_eq_false_iff_ne.mpr (lettered name isIn)
  rw [if_neg empty]
  cases found : names.findIdx? (matchesExact · key) with
  | none => rfl
  | some index =>
      obtain ⟨inside, matched, -⟩ := List.findIdx?_eq_some_iff_getElem.mp found
      have same : bytesOf names[index] = key := beq_iff_eq.mp matched
      rw [eq_comm, List.findIdx?_eq_some_iff_getElem]
      refine ⟨inside, beq_iff_eq.mpr (by rw [same]), fun other before folded => ?_⟩
      have sameLetters : letters (bytesOf names[other]) = letters (bytesOf names[index]) := by
        rw [same]
        exact beq_iff_eq.mp folded
      have sameName : names[other] = names[index] :=
        List.inj_on_of_nodup_map distinct (List.getElem_mem _) (List.getElem_mem _) sameLetters
      have here := (List.Nodup.getElem_inj_iff distinct.of_map).mp sameName
      omega

end Key

/-- The streaming decoder looks up the fields of every entity by the names that they are
declared with, which are distinct and not empty. -/
structure Catalog.HasKeys (C : Catalog) : Prop where
  keys_eq : ∀ name, C.keys name = C.names name
  distinct : ∀ name, (C.names name).Nodup
  named : ∀ name, "" ∉ C.names name

/-- The fields of every entity are looked up by names that differ in their letters. -/
structure Catalog.HasLetters (C : Catalog) : Prop where
  distinct : ∀ name, ((C.keys name).map fun key => Key.letters (bytesOf key)).Nodup
  lettered : ∀ name, ∀ key ∈ C.keys name, Key.letters (bytesOf key) ≠ []

/-- The entities of the chat service have letters. -/
theorem Chat.hasLetters : Chat.HasLetters where
  distinct := by intro name; cases name <;> decide +kernel
  lettered := by intro name; cases name <;> decide +kernel

/-- The entities of the chat service have keys. -/
theorem Chat.hasKeys : Chat.HasKeys where
  keys_eq := by intro name; cases name <;> decide +kernel
  distinct := by intro name; cases name <;> decide +kernel
  named := by intro name; cases name <;> decide +kernel

end ChatCodec
