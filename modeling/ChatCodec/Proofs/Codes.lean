import ChatCodec.Code.Basic

/-!
# Codes of enumerations

The value of a code has that code (`CodeKind.code_of_ofCode?`).  The other way round, a value
is the value of its code unless it holds a code without a name that some value has a name for
(`CodeKind.ofCode?_code_iff`).
-/

namespace ChatCodec

set_option autoImplicit false

namespace CodeKind

/-- The code that a value holds without a name. -/
def unnamed? : (kind : CodeKind) → kind.Carrier → Option UInt8
  | channel, .unknown code => some code
  | message, .unknown code => some code
  | interaction, .unknown code => some code
  | stickerFormat, .unknown code => some code
  | _, _ => none

/-- Whether some value has a name for the code. -/
def HasName (kind : CodeKind) (code : UInt8) : Prop :=
  ∃ value, kind.unnamed? value = none ∧ kind.code value = code

/-- Whether a value holds no code without a name that has one. -/
def IsProper (kind : CodeKind) (value : kind.Carrier) : Prop :=
  ∀ code, kind.unnamed? value = some code → ¬ kind.HasName code

variable {kind : CodeKind}

/-- A value with a name is the value of its code. -/
theorem ofCode?_code_of_named {value : kind.Carrier} (named : kind.unnamed? value = none) :
    kind.ofCode? (kind.code value) = some value := by
  cases kind with
  | channel => cases value <;> first | rfl | cases named
  | message => cases value <;> first | rfl | cases named
  | interaction => cases value <;> first | rfl | cases named
  | stickerFormat => cases value <;> first | rfl | cases named
  | sticker => cases value <;> rfl
  | activity => cases value <;> rfl

/-- **The value of a code has that code.** -/
theorem code_of_ofCode? {code : UInt8} {value : kind.Carrier}
    (found : kind.ofCode? code = some value) : kind.code value = code := by
  have literal : ∀ {number : Nat}, code.toNat = number → UInt8.ofNat number = code := by
    rintro number rfl
    exact UInt8.ofNat_toNat
  cases kind with
  | channel =>
      cases found
      rw [CodeKind.code, ChannelType.ofCode]
      split <;> first | rfl | exact literal ‹_›
  | message =>
      cases found
      rw [CodeKind.code, MessageType.ofCode]
      split <;> first | rfl | exact literal ‹_›
  | interaction =>
      cases found
      rw [CodeKind.code, InteractionType.ofCode]
      split <;> first | rfl | exact literal ‹_›
  | stickerFormat =>
      cases found
      rw [CodeKind.code, StickerFormatType.ofCode]
      split <;> first | rfl | exact literal ‹_›
  | sticker =>
      rw [ofCode?, StickerType.ofCode?] at found
      split at found <;> cases found <;> exact literal ‹_›
  | activity =>
      rw [ofCode?, MessageActivityType.ofCode?] at found
      split at found <;> cases found <;> exact literal ‹_›

/-- A value without a name is determined by its code, and its kind has a value for every
code. -/
theorem unnamed_unique {value : kind.Carrier} {code : UInt8}
    (unnamed : kind.unnamed? value = some code) :
    kind.code value = code ∧ (kind.ofCode? code).isSome = true ∧
      ∀ other, kind.unnamed? other = some code → other = value := by
  cases kind with
  | channel =>
      cases value <;> cases unnamed
      exact ⟨rfl, rfl, fun other same => by cases other <;> cases same; rfl⟩
  | message =>
      cases value <;> cases unnamed
      exact ⟨rfl, rfl, fun other same => by cases other <;> cases same; rfl⟩
  | interaction =>
      cases value <;> cases unnamed
      exact ⟨rfl, rfl, fun other same => by cases other <;> cases same; rfl⟩
  | stickerFormat =>
      cases value <;> cases unnamed
      exact ⟨rfl, rfl, fun other same => by cases other <;> cases same; rfl⟩
  | sticker => cases unnamed
  | activity => cases unnamed

/-- **A value is the value of its code** unless it holds a code without a name that has
one. -/
theorem ofCode?_code_iff {value : kind.Carrier} :
    kind.ofCode? (kind.code value) = some value ↔ kind.IsProper value := by
  constructor
  · rintro found code unnamed ⟨other, named, sameCode⟩
    have foundOther := ofCode?_code_of_named named
    rw [sameCode, ← (unnamed_unique unnamed).1, found] at foundOther
    cases foundOther
    rw [named] at unnamed
    cases unnamed
  · intro proper
    cases unnamed : kind.unnamed? value with
    | none => exact ofCode?_code_of_named unnamed
    | some code =>
        obtain ⟨sameCode, total, unique⟩ := unnamed_unique unnamed
        obtain ⟨other, found⟩ := Option.isSome_iff_exists.mp total
        have otherCode := code_of_ofCode? found
        rw [sameCode, found]
        cases otherUnnamed : kind.unnamed? other with
        | none => exact absurd ⟨other, otherUnnamed, otherCode⟩ (proper code unnamed)
        | some further =>
            rw [← (unnamed_unique otherUnnamed).1, otherCode] at otherUnnamed
            rw [unique other otherUnnamed]

instance (kind : CodeKind) (value : kind.Carrier) : Decidable (kind.IsProper value) :=
  decidable_of_iff _ ofCode?_code_iff

end CodeKind

end ChatCodec
