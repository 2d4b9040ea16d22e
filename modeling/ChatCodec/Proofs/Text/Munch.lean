import ChatCodec.Text.Ascii

/-!
# Longest runs

White space, numbers and words are read as the longest run of bytes of a class.  A run of
such bytes is the longest if what follows stops the class, that is, does not go on with a
byte of it (`Ascii.Stops`).
-/

namespace ChatCodec

set_option autoImplicit false

namespace Ascii

/-- The bytes do not begin with a byte of the class. -/
def Stops (inClass : UInt8 → Bool) (rest : Bytes) : Prop :=
  ∀ byte ∈ rest.head?, inClass byte = false

variable {inClass : UInt8 → Bool} {run rest : Bytes}

theorem stops_nil : Stops inClass [] := fun _ isIn => by cases isIn

theorem stops_cons {byte : UInt8} : Stops inClass (byte :: rest) ↔ inClass byte = false := by
  simp only [Stops, List.head?_cons, Option.mem_some_iff, forall_eq']

theorem Stops.ne {byte other : UInt8} (stops : Stops (· == other) (byte :: rest)) :
    byte ≠ other := by
  have stopped := stops_cons.mp stops
  exact beq_eq_false_iff_ne.mp stopped

theorem stops_of_ne {byte other : UInt8} (differs : byte ≠ other) :
    Stops (· == other) (byte :: rest) :=
  stops_cons.mpr (beq_eq_false_iff_ne.mpr differs)

/-- What stops a class stops every class within it. -/
theorem Stops.mono {narrow : UInt8 → Bool} (stops : Stops inClass rest)
    (within : ∀ byte, narrow byte = true → inClass byte = true) : Stops narrow rest := by
  intro byte isIn
  rw [← Bool.not_eq_true]
  intro inNarrow
  exact absurd (within byte inNarrow) (by rw [stops byte isIn]; decide)

theorem stops_dropWhile (bytes : Bytes) : Stops inClass (bytes.dropWhile inClass) := by
  intro byte isIn
  have stopped := List.head?_dropWhile_not inClass bytes
  rw [Option.mem_def.mp isIn] at stopped
  exact stopped

theorem takeWhile_append (all : ∀ byte ∈ run, inClass byte = true) (stops : Stops inClass rest) :
    (run ++ rest).takeWhile inClass = run := by
  rw [List.takeWhile_append_of_pos all]
  cases rest with
  | nil => rw [List.takeWhile_nil, List.append_nil]
  | cons byte rest =>
      rw [List.takeWhile_cons_of_neg (by rw [stops_cons.mp stops]; decide), List.append_nil]

theorem dropWhile_append (all : ∀ byte ∈ run, inClass byte = true) (stops : Stops inClass rest) :
    (run ++ rest).dropWhile inClass = rest := by
  rw [List.dropWhile_append_of_pos all]
  cases rest with
  | nil => rfl
  | cons byte rest =>
      rw [List.dropWhile_cons_of_neg (by rw [stops_cons.mp stops]; decide)]

theorem all_of_mem_takeWhile {bytes : Bytes} :
    ∀ byte ∈ bytes.takeWhile inClass, inClass byte = true := by
  have all : (bytes.takeWhile inClass).all inClass = true := List.all_takeWhile
  rwa [List.all_eq_true] at all

end Ascii

end ChatCodec
