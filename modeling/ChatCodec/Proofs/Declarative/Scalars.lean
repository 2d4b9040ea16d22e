import ChatCodec.Proofs.Declarative.Steps
import ChatCodec.Proofs.Streaming.Returns
import ChatCodec.Proofs.Streaming.Skipping

/-!
# Scalars for both decoders

The declarative reader is handed the value of a scalar, and the streaming decoder has what
the lexer has captured of it.  Whatever the former accepts, the latter decodes to the same
scalar (`Scalar.decode_returns`): integers through their digits, identifiers through digits
or a text, timestamps through a text.  A `null` is accepted for an identifier only, and
leaves it unset on either side.
-/

namespace ChatCodec

set_option autoImplicit false

open Json.Atom (Shown)
open Declarative (scalarOf)

/-! ## Reading what was captured -/

theorem readBool?_boolWord (value : Bool) : readBool? (boolWord value) = some value := by
  cases value <;> decide

theorem Lexer.outputText_of_output {lexer : Lexer} {text : String}
    (captured : lexer.output = bytesOf text) : lexer.outputText = .ok text := by
  rw [outputText, captured, Utf8.decode_encode]

/-- An integer of a type is read from its digits. -/
theorem Width.read?_of_shown {width : Width} {value : Int} {fits : Json.IsWord value}
    {sized : Sized width} {token : Token} {output : Bytes}
    (shown : Shown (.number (.integer value fits)) token output)
    (inRange : Sized.ofInt? width value = some sized) : width.read? output = some sized := by
  obtain rfl := Sized.ofInt?_eq_some_iff.mp inRange
  obtain ⟨low, high⟩ := sized.isIn
  cases shown with
  | integer natural signed =>
      rw [Width.read?]
      by_cases isSigned : width.isSigned = true
      · obtain ⟨least, greatest⟩ := width.isSigned_within isSigned
        rw [if_pos isSigned, signed (by omega) (by omega), Option.bind_some, inRange]
      · have positive : 0 ≤ sized.value := by
          rw [← width.low_of_not_isSigned isSigned]
          exact low
        rw [if_neg isSigned, natural positive, Option.bind_some, Int.toNat_of_nonneg positive,
          inRange]

/-! ## Scalars -/

/-- The natural numbers among the integers are read from their digits. -/
theorem readNatural?_of_shown {value : Int} {fits : Json.IsWord value} {token : Token}
    {output : Bytes} (shown : Shown (.number (.integer value fits)) token output)
    (positive : 0 ≤ value) :
    token = .integer ∧ Decimal.readNatural? output = some value.toNat := by
  cases shown with
  | integer natural signed => exact ⟨rfl, natural positive⟩

theorem Id.ofVisit_text {resource : Resource} (content : String) :
    ofVisit (.text content) =
      match Decimal.readNatural? (bytesOf content) with
      | some number => .ok (⟨UInt64.ofNat number⟩ : Id resource)
      | none => .error (.invalidValue (.text content) wanted) := rfl

theorem Id.ofVisit_natural {resource : Resource} (value : UInt64) :
    ofVisit (.natural value) = .ok (⟨value⟩ : Id resource) := rfl

theorem Id.ofVisit_signed_of_neg {resource : Resource} {value : Int} (negative : ¬ 0 ≤ value) :
    (ofVisit (.signed value) : Except _ (Id resource)) =
      .error (.invalidValue (.integer value) wanted) :=
  if_neg negative

section

variable {lexer : Lexer} {token : Token} {atom : Json.Atom}

/-- An identifier that is accepted is read, or it is `null` and unset. -/
theorem Id.read_of_shown {resource : Resource} {value : Id resource}
    (shown : Shown atom token lexer.output) (accepted : scalarOf (.id resource) atom = .ok value) :
    token = .null ∧ value = unset ∨
      token ≠ .null ∧ (Scalar.id resource).accepts token = true ∧
        Scalar.read lexer token (.id resource) = .ok value := by
  rw [Declarative.scalarOf_id, mapError_eq_ok_iff] at accepted
  rw [Scalar.read]
  generalize lexer.output = output at shown ⊢
  cases atom with
  | null =>
      cases shown
      cases accepted
      exact .inl ⟨rfl, rfl⟩
  | bool truth => cases accepted
  | text content =>
      cases shown with
      | text same =>
          rw [Declarative.visitOf, ofVisit_text] at accepted
          cases digits : Decimal.readNatural? (bytesOf content) with
          | none => rw [digits] at accepted; cases accepted
          | some number =>
              rw [digits] at accepted
              cases accepted
              refine .inr ⟨by decide, rfl, ?_⟩
              rw [read?, ← same, digits]
              rfl
  | number number =>
      cases number with
      | double bits => cases accepted
      | integer number fits =>
          rw [Declarative.visitOf] at accepted
          by_cases positive : 0 ≤ number
          · rw [if_pos positive, ofVisit_natural] at accepted
            cases accepted
            obtain ⟨rfl, digits⟩ := readNatural?_of_shown shown positive
            refine .inr ⟨by decide, rfl, ?_⟩
            rw [read?, digits]
            rfl
          · rw [if_neg positive, ofVisit_signed_of_neg positive] at accepted
            cases accepted

/-- A scalar is read from a token that is no `null` and suits it. -/
def Scalar.IsReadFrom (lexer : Lexer) (token : Token) (kind : Scalar) (value : kind.Carrier) :
    Prop :=
  token ≠ .null ∧ kind.accepts token = true ∧ Scalar.read lexer token kind = .ok value

/-- An integer that is accepted is read from its digits. -/
theorem Scalar.integer_of_shown {width : Width} {value : Sized width}
    (shown : Shown atom token lexer.output) (accepted : scalarOf (.integer width) atom = .ok value) :
    IsReadFrom lexer token (.integer width) value := by
  generalize captured : lexer.output = output at shown
  cases atom with
  | number number =>
      cases number with
      | double bits => cases accepted
      | integer number fits =>
          rw [scalarOf] at accepted
          cases inRange : Sized.ofInt? width number with
          | none => rw [inRange] at accepted; cases accepted
          | some sized =>
              rw [inRange] at accepted
              cases accepted
              have digits := Width.read?_of_shown shown inRange
              cases shown
              refine ⟨by decide, rfl, ?_⟩
              rw [read, captured, digits, Lexer.orMalformed]
  | _ => cases accepted

/-- A timestamp that is accepted is read from its text. -/
theorem Scalar.timestamp_of_shown {value : Timestamp} (shown : Shown atom token lexer.output)
    (accepted : scalarOf .timestamp atom = .ok value) : IsReadFrom lexer token .timestamp value := by
  generalize captured : lexer.output = output at shown
  rw [Declarative.scalarOf_timestamp, mapError_eq_ok_iff] at accepted
  cases atom with
  | text content =>
      cases shown with
      | text same =>
          rw [Declarative.visitOf, Declarative.timestampOf] at accepted
          cases parsed : Timestamp.parse (bytesOf content) with
          | error fault => rw [parsed] at accepted; cases accepted
          | ok timestamp =>
              rw [parsed] at accepted
              cases accepted
              refine ⟨by decide, rfl, ?_⟩
              rw [read, Lexer.readTimestamp,
                Lexer.outputText_of_output (captured.trans same.symm), captured, ← same]
              simp only [parsed]
  | number number =>
      cases number with
      | double bits => cases accepted
      | integer number fits =>
          rw [Declarative.visitOf] at accepted
          split at accepted <;> cases accepted
  | _ => cases accepted

/-- Flags that are accepted are read from their digits. -/
theorem Scalar.flags_of_shown {value : MessageFlags} (shown : Shown atom token lexer.output)
    (accepted : scalarOf .flags atom = .ok value) : IsReadFrom lexer token .flags value := by
  cases atom with
  | number number =>
      cases number with
      | double bits => cases accepted
      | integer number fits =>
          rw [scalarOf, ite_error_eq_ok_iff] at accepted
          obtain ⟨positive, same⟩ := accepted
          obtain ⟨rfl, digits⟩ := readNatural?_of_shown shown positive
          cases same
          refine ⟨by decide, rfl, ?_⟩
          rw [read, MessageFlags.read?, digits]
          rfl
  | _ => cases accepted

/-- A code that is accepted is read from its digits. -/
theorem Scalar.code_of_shown {kind : CodeKind} {value : kind.Carrier}
    (shown : Shown atom token lexer.output) (accepted : scalarOf (.code kind) atom = .ok value) :
    IsReadFrom lexer token (.code kind) value := by
  cases atom with
  | number number =>
      cases number with
      | double bits => cases accepted
      | integer number fits =>
          rw [scalarOf, ite_error_eq_ok_iff] at accepted
          obtain ⟨⟨positive, small⟩, same⟩ := accepted
          obtain ⟨rfl, digits⟩ := readNatural?_of_shown shown positive
          cases known : kind.ofCode? (UInt8.ofNat number.toNat) with
          | none => rw [known] at same; cases same
          | some code =>
              rw [known] at same
              cases same
              refine ⟨by decide, rfl, ?_⟩
              rw [read, CodeKind.read?, digits, Option.bind_some, if_pos (by omega), known]
              rfl
  | _ => cases accepted

/-- **A scalar that is accepted is read**, except opaque JSON and a `null` for an identifier. -/
theorem Scalar.read_of_shown {kind : Scalar} {value : kind.Carrier} (notOpaque : kind ≠ .opaqueJson)
    (shown : Shown atom token lexer.output) (accepted : scalarOf kind atom = .ok value) :
    token = .null ∧ value = kind.blank ∨ IsReadFrom lexer token kind value := by
  cases kind with
  | opaqueJson => exact absurd rfl notOpaque
  | id resource => exact Id.read_of_shown shown accepted
  | bool =>
      generalize captured : lexer.output = output at shown
      cases shown with
      | bool truth =>
          cases accepted
          refine .inr ⟨by decide, rfl, ?_⟩
          rw [read, captured, readBool?_boolWord, Lexer.orMalformed]
      | _ => cases accepted
  | text =>
      generalize captured : lexer.output = output at shown
      cases shown with
      | text same =>
          cases accepted
          exact .inr ⟨by decide, rfl, Lexer.outputText_of_output (captured.trans same.symm)⟩
      | _ => cases accepted
  | integer width => exact .inr (integer_of_shown shown accepted)
  | timestamp => exact .inr (timestamp_of_shown shown accepted)
  | flags => exact .inr (flags_of_shown shown accepted)
  | code kind => exact .inr (code_of_shown shown accepted)

end

/-- **A scalar that the declarative reader accepts is decoded** from what was captured of
it, into a blank one. -/
theorem Scalar.decode_returns {kind : Scalar} (notOpaque : kind ≠ .opaqueJson) {lexeme : Lexeme}
    {atom : Json.Atom} {value : kind.Carrier} (shown : Shown atom lexeme.token lexeme.lexer.output)
    (accepted : scalarOf kind atom = .ok value) :
    (kind.decode (.leaf lexeme) kind.blank).Returns value lexeme.lexer := by
  rw [decode_of_ne notOpaque]
  rcases read_of_shown notOpaque shown accepted with ⟨null, rfl⟩ | ⟨notNull, suits, isRead⟩
  · rw [Tree.head, if_pos null]
    exact .done _ _
  · rw [Tree.head, if_neg notNull, if_pos suits, isRead]
    exact .done _ _

end ChatCodec
