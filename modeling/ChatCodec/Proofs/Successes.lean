/-!
# Successes

When a computation that may fail, and that is put together from others, succeeds: each part
succeeds, and the results of the parts make the result of the whole.
-/

namespace ChatCodec

set_option autoImplicit false

variable {Fault Value Other : Type}

theorem map_eq_ok_iff {computation : Except Fault Value} {wrap : Value → Other} {result : Other} :
    computation.map wrap = .ok result ↔ ∃ value, computation = .ok value ∧ wrap value = result := by
  cases computation with
  | ok value => simp only [Except.map, Except.ok.injEq, exists_eq_left']
  | error fault => simp only [Except.map, reduceCtorEq, false_and, exists_false]

theorem bind_eq_ok_iff {computation : Except Fault Value} {next : Value → Except Fault Other}
    {result : Other} :
    (computation >>= next) = .ok result ↔
      ∃ value, computation = .ok value ∧ next value = .ok result := by
  cases computation with
  | ok value =>
      simp only [bind, Except.bind, Except.ok.injEq, exists_eq_left']
  | error fault =>
      simp only [bind, Except.bind, reduceCtorEq, false_and, exists_false]

/-- One computation behind another that has no result of its own. -/
theorem andThen_eq_ok_iff {first : Except Fault Unit} {second : Except Fault Value}
    {value : Value} :
    (first >>= fun _ => second) = .ok value ↔ first = .ok () ∧ second = .ok value := by
  rw [bind_eq_ok_iff]
  exact ⟨fun ⟨_, passed, following⟩ => ⟨passed, following⟩,
    fun ⟨passed, following⟩ => ⟨(), passed, following⟩⟩

theorem ite_error_eq_ok_iff {condition : Prop} [Decidable condition]
    {computation : Except Fault Value} {fault : Fault} {value : Value} :
    (if condition then computation else .error fault) = .ok value ↔
      condition ∧ computation = .ok value := by
  by_cases holds : condition
  · rw [if_pos holds]
    simp only [holds, true_and]
  · rw [if_neg holds]
    simp only [holds, false_and, reduceCtorEq]

theorem error_ite_eq_ok_iff {condition : Prop} [Decidable condition]
    {computation : Except Fault Value} {fault : Fault} {value : Value} :
    (if condition then .error fault else computation) = .ok value ↔
      ¬ condition ∧ computation = .ok value := by
  rw [← ite_not]
  exact ite_error_eq_ok_iff

theorem mapError_eq_ok_iff {Wrapped : Type} {computation : Except Fault Value}
    {wrap : Fault → Wrapped} {value : Value} :
    computation.mapError wrap = .ok value ↔ computation = .ok value := by
  cases computation with
  | ok result =>
      show Except.ok result = Except.ok value ↔ _
      rw [Except.ok.injEq, Except.ok.injEq]
  | error fault =>
      show Except.error (wrap fault) = Except.ok value ↔ _
      simp only [reduceCtorEq]

end ChatCodec
