import ChatCodec.Error

/-!
# Outcomes of decoding

Decoding writes into a value that is already there.  Its outcome therefore always
has a value, the value as decoding left it; beside that there are the events that
were noted on the way, the error that stopped decoding if one did, and the lexer as
it stands afterwards.

`Outcome.follow` puts one step behind another: the second step takes place only if
the first did not fail.
-/

namespace ChatCodec

set_option autoImplicit false

/-- Something worth noting that happened while decoding. -/
inductive Event where
  /-- An entity has no field with that key, so the member was skipped. -/
  | unknownKey (entity key : String)
  /-- A payload of an entity could not be decoded. -/
  | failed (entity : String) (error : DecodeError)
  deriving DecidableEq, Repr

/-- The outcome of decoding into a value. -/
structure Outcome (Value : Type) where
  /-- The value as decoding left it. -/
  value : Value
  events : List Event
  error : Option DecodeError
  lexer : Lexer

namespace Outcome

variable {Value Other : Type}

/-- Decoding ended well. -/
def done (value : Value) (lexer : Lexer) : Outcome Value := ⟨value, [], none, lexer⟩

/-- Decoding stopped. -/
def fail (value : Value) (error : DecodeError) (lexer : Lexer) : Outcome Value :=
  ⟨value, [], some error, lexer⟩

/-- The outcome for a value that the written one is a part of. -/
def map (wrap : Value → Other) (outcome : Outcome Value) : Outcome Other :=
  ⟨wrap outcome.value, outcome.events, outcome.error, outcome.lexer⟩

/-- The outcome with one more event at its beginning. -/
def note (event : Event) (outcome : Outcome Value) : Outcome Value :=
  ⟨outcome.value, event :: outcome.events, outcome.error, outcome.lexer⟩

/-- The outcome for a value that is replaced only if decoding ended well. -/
def replace (before : Other) (wrap : Value → Other) (outcome : Outcome Value) : Outcome Other :=
  match outcome.error with
  | none => outcome.map wrap
  | some _ => outcome.map fun _ => before

/-- The outcome of a second step behind the first.  If the first one failed, `left`
makes a value of what it left. -/
def follow (outcome : Outcome Value) (left : Value → Other)
    (next : Value → Lexer → Outcome Other) : Outcome Other :=
  match outcome.error with
  | none =>
      let following := next outcome.value outcome.lexer
      ⟨following.value, outcome.events ++ following.events, following.error, following.lexer⟩
  | some _ => outcome.map left

/-- The value, if decoding ended well. -/
def result (outcome : Outcome Value) : Except DecodeError Value :=
  match outcome.error with
  | none => .ok outcome.value
  | some error => .error error

theorem result_eq_ok_iff {outcome : Outcome Value} {value : Value} :
    outcome.result = .ok value ↔ outcome.error = none ∧ outcome.value = value := by
  rw [result]
  cases outcome.error with
  | none => simp only [Except.ok.injEq, true_and]
  | some error => simp only [reduceCtorEq, false_and]

theorem result_eq_error_iff {outcome : Outcome Value} {error : DecodeError} :
    outcome.result = .error error ↔ outcome.error = some error := by
  rw [result]
  cases outcome.error with
  | none => simp only [reduceCtorEq]
  | some other => simp only [Except.error.injEq, Option.some.injEq]

end Outcome

end ChatCodec
