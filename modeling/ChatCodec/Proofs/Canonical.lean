import ChatCodec.Proofs.Faithful
import ChatCodec.Proofs.Streaming.Maintained
import ChatCodec.Proofs.Streaming.Skipping

/-!
# Decoded values are canonical

What decoding reads it puts into one form.  The code of an enumeration is given its name if it
has one, and opaque JSON comes from the strict reader, which bounds its depth and keeps the
keys of its objects in order.  Values in this form are canonical (`Scalar.isCanonical`).  Blank
scalars are, and decoding maintains it (`Scalar.isMaintained_isCanonical`), so payloads are
decoded to canonical values only, whatever they hold (`decodeDocument_isCanonical`).

A canonical value is told by its JSON form if it is also stable (`Val.isFaithful_of_isCanonical`):
no timestamp in it is a leap second, and no opaque JSON in it holds a double.
-/

namespace ChatCodec

set_option autoImplicit false

/-! ## Scalars -/

/-- Whether a scalar has the form that decoding gives to scalars. -/
def Scalar.isCanonical : (kind : Scalar) → kind.Carrier → Bool
  | opaqueJson, value => decide (value.depth ≤ Json.nestingLimit) && value.isSorted
  | code kind, value => decide (kind.IsProper value)
  | _, _ => true

/-- Whether a scalar is neither a leap second nor opaque JSON with a double in it. -/
def Scalar.isStable : (kind : Scalar) → kind.Carrier → Bool
  | opaqueJson, value => value.isExact
  | timestamp, value => decide (value.micros < 1000000)
  | _, _ => true

/-- **The JSON value of a canonical and stable scalar tells which scalar it is.** -/
theorem Scalar.isFaithful_of_isCanonical {kind : Scalar} {value : kind.Carrier}
    (canonical : kind.isCanonical value = true) (stable : kind.isStable value = true) :
    kind.isFaithful value = true := by
  cases kind with
  | opaqueJson =>
      rw [isCanonical, Bool.and_eq_true] at canonical
      rw [isStable] at stable
      rw [isFaithful, stable, canonical.1, canonical.2]
      rfl
  | timestamp => exact stable
  | code kind => exact canonical
  | _ => rfl

/-- The blank value of an enumeration is proper. -/
theorem CodeKind.isProper_blank (kind : CodeKind) : kind.IsProper kind.blank := by
  cases kind <;> decide

/-- The value of a code is proper. -/
theorem CodeKind.isProper_of_ofCode? {kind : CodeKind} {code : UInt8} {value : kind.Carrier}
    (found : kind.ofCode? code = some value) : kind.IsProper value := by
  rw [← ofCode?_code_iff, code_of_ofCode? found]
  exact found

theorem CodeKind.isProper_of_read? {kind : CodeKind} {bytes : Bytes} {value : kind.Carrier}
    (found : kind.read? bytes = some value) : kind.IsProper value := by
  obtain ⟨number, -, within⟩ := Option.bind_eq_some_iff.mp found
  split at within
  · exact isProper_of_ofCode? within
  · cases within

/-- What the strict reader makes of a document is canonical. -/
theorem Json.Value.isCanonical_of_ofDocument {document : Bytes} {value : Json.Value}
    (read : ofDocument document = .ok value) : Scalar.opaqueJson.isCanonical value = true := by
  obtain ⟨tree, -, readValue⟩ := readDocument_eq_ok_iff.mp read
  have kept := kept_of_readValue readValue
  rw [Scalar.isCanonical, decide_eq_true kept.1, kept.2]
  rfl

/-- The scalar that is read from a token is canonical. -/
theorem Scalar.isCanonical_of_read {lexer : Lexer} {token : Token} {kind : Scalar}
    {value : kind.Carrier} (found : Scalar.read lexer token kind = .ok value) :
    kind.isCanonical value = true := by
  cases kind with
  | code kind =>
      rw [read] at found
      cases accepted : kind.read? lexer.output with
      | some value =>
          rw [accepted] at found
          cases found
          exact decide_eq_true (CodeKind.isProper_of_read? accepted)
      | none =>
          rw [accepted] at found
          cases found
  | opaqueJson => cases found
  | _ => rfl

theorem decodeOpaque_isCanonical (tree : Tree Lexeme) {before : Json.Value}
    (canonical : Scalar.opaqueJson.isCanonical before = true) :
    Scalar.opaqueJson.isCanonical (decodeOpaque tree before).value = true := by
  rw [decodeOpaque, Outcome.follow]
  split
  · dsimp only
    split
    · next read => exact Json.Value.isCanonical_of_ofDocument read
    · exact canonical
  · exact canonical

/-- **Decoding scalars maintains that they are canonical.** -/
theorem Scalar.isMaintained_isCanonical : Scalar.IsMaintained Scalar.isCanonical where
  blank kind := by
    cases kind with
    | code kind => exact decide_eq_true kind.isProper_blank
    | _ => rfl
  decode {kind} tree before canonical := by
    by_cases opaqueJson : kind = .opaqueJson
    · subst opaqueJson
      exact decodeOpaque_isCanonical tree canonical
    · rw [Scalar.decode_of_ne opaqueJson]
      split
      · exact canonical
      · split
        · split
          · next accepted => exact isCanonical_of_read accepted
          · exact canonical
        · exact canonical

/-! ## Values -/

section

variable {Name : Type} {fields : Name → List (Field Name)}

mutual

/-- **The JSON form of a canonical and stable value tells which value it is.** -/
theorem Val.isFaithful_of_isCanonical : ∀ {shape : Shape Name} {value : Val fields shape},
    value.all Scalar.isCanonical = true → value.all Scalar.isStable = true →
      value.isFaithful = true
  | _, @Val.scalar _ _ kind value, canonical, stable => by
      rw [Val.all] at canonical stable
      rw [Val.isFaithful]
      exact Scalar.isFaithful_of_isCanonical canonical stable
  | _, .none, _, _ => by rw [Val.isFaithful]
  | _, .some value, canonical, stable => by
      rw [Val.all] at canonical stable
      rw [Val.isFaithful]
      exact value.isFaithful_of_isCanonical canonical stable
  | _, .list items, canonical, stable => by
      rw [Val.all] at canonical stable
      rw [Val.isFaithful]
      exact items.isFaithful_of_isCanonical canonical stable
  | _, .entity record, canonical, stable => by
      rw [Val.all] at canonical stable
      rw [Val.isFaithful]
      exact record.isFaithful_of_isCanonical canonical stable

theorem Sequence.isFaithful_of_isCanonical : ∀ {inner : Shape Name} {items : Sequence fields inner},
    items.all Scalar.isCanonical = true → items.all Scalar.isStable = true →
      items.isFaithful = true
  | _, .nil, _, _ => by rw [Sequence.isFaithful]
  | _, .cons head tail, canonical, stable => by
      rw [Sequence.all, Bool.and_eq_true] at canonical stable
      rw [Sequence.isFaithful, head.isFaithful_of_isCanonical canonical.1 stable.1,
        tail.isFaithful_of_isCanonical canonical.2 stable.2]
      rfl

theorem Record.isFaithful_of_isCanonical : ∀ {list : List (Field Name)}
    {record : Record fields list}, record.all Scalar.isCanonical = true →
      record.all Scalar.isStable = true → record.isFaithful = true
  | _, .nil, _, _ => by rw [Record.isFaithful]
  | _, .cons head tail, canonical, stable => by
      rw [Record.all, Bool.and_eq_true] at canonical stable
      rw [Record.isFaithful, head.isFaithful_of_isCanonical canonical.1 stable.1,
        tail.isFaithful_of_isCanonical canonical.2 stable.2]
      rfl

end

end

/-- **Payloads are decoded to canonical values only.** -/
theorem decodeDocument_isCanonical {C : Catalog} {matching : KeyMatching} {name : C.Name}
    {payload : Bytes} {record : C.Entity name}
    (decoded : (decodeDocument C matching name payload).result = .ok record) :
    record.all Scalar.isCanonical = true :=
  decodeDocument_all Scalar.isMaintained_isCanonical decoded

end ChatCodec
