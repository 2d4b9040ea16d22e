import ChatCodec.Proofs.Lexer.Parting
import ChatCodec.Proofs.Streaming.Skipping

/-!
# Decoding copies of the same tokens

An error says what went wrong and where.  What it says apart from the offset is its report
(`DecodeError.report`).  Two outcomes agree (`Outcome.Agrees`) if they have the same value and
the same report, and if, where they are successes, their lexers are alike.  If it is known how
the offsets of the tokens are related, so are those of the errors (`Outcome.AgreesAt`).

Skipping looks at a token and at what was captured for it.  So does decoding, unless there is
opaque JSON in the shape, for which the bytes of a whole value count (`Catalog.Holds`).  Where two
streams of tokens do not differ in the former (`Alikeness`), and if need be in the latter
(`SameRaw`), skipping and decoding agree (`skipTree_agreesAt`, `decodeTree_agreesAt`).  Tokens
that are copies of each other in two payloads differ in neither (`Parting.alikeness`,
`Parting.sameRaw`), and their offsets differ by a constant (`Parting.moves`).
-/

namespace ChatCodec

set_option autoImplicit false

/-! ## Reports -/

/-- What an error says, apart from where. -/
structure Report where
  cause : Cause
  token : Token
  output : Option String
  deriving DecidableEq, Repr

/-- What an error says, apart from where. -/
def DecodeError.report (error : DecodeError) : Report := ⟨error.cause, error.token, error.output⟩

/-- The error at a place that many bytes further on. -/
def DecodeError.movedBy (error : DecodeError) (distance : Nat) : DecodeError :=
  { error with offset := distance + error.offset }

namespace Outcome

variable {Value Other : Type}

/-- The value, if decoding ended well, and otherwise what the error says. -/
def reported (outcome : Outcome Value) : Except Report Value :=
  outcome.result.mapError DecodeError.report

theorem reported_eq (outcome : Outcome Value) :
    outcome.reported =
      match outcome.error.map DecodeError.report with
      | none => .ok outcome.value
      | some report => .error report := by
  rw [reported, result]
  cases outcome.error <;> rfl

/-- The outcomes have the same value and the same report, and their lexers are alike if they
are successes. -/
structure Agrees (alike : Lexer → Lexer → Prop) (outcome outcome' : Outcome Value) : Prop where
  value_eq : outcome'.value = outcome.value
  report_eq : outcome'.error.map DecodeError.report = outcome.error.map DecodeError.report
  alike : outcome.error = none → alike outcome.lexer outcome'.lexer

namespace Agrees

variable {alike : Lexer → Lexer → Prop} {outcome outcome' : Outcome Value}

theorem reported_eq (agrees : outcome.Agrees alike outcome') :
    outcome'.reported = outcome.reported := by
  rw [outcome.reported_eq, outcome'.reported_eq, agrees.value_eq, agrees.report_eq]

theorem error_eq_none_iff (agrees : outcome.Agrees alike outcome') :
    outcome'.error = none ↔ outcome.error = none := by
  rw [← Option.map_eq_none_iff (f := DecodeError.report), agrees.report_eq, Option.map_eq_none_iff]

theorem error_ne_none (agrees : outcome.Agrees alike outcome') {error : DecodeError}
    (failed : outcome.error = some error) : ∃ error', outcome'.error = some error' := by
  have reports := agrees.report_eq
  rw [failed] at reports
  obtain ⟨error', failed', -⟩ := Option.map_eq_some_iff.mp reports
  exact ⟨error', failed'⟩

theorem done (value : Value) {lexer lexer' : Lexer} (same : alike lexer lexer') :
    (Outcome.done value lexer).Agrees alike (.done value lexer') :=
  ⟨rfl, rfl, fun _ => same⟩

theorem fail (value : Value) {error error' : DecodeError} (same : error'.report = error.report)
    (lexer lexer' : Lexer) :
    (Outcome.fail value error lexer).Agrees alike (.fail value error' lexer') :=
  ⟨rfl, congrArg some same, fun succeeded => by cases succeeded⟩

theorem map (agrees : outcome.Agrees alike outcome') (wrap : Value → Other) :
    (outcome.map wrap).Agrees alike (outcome'.map wrap) :=
  ⟨congrArg wrap agrees.value_eq, agrees.report_eq, agrees.alike⟩

/-- What is noted does not matter. -/
theorem note (agrees : outcome.Agrees alike outcome') (event event' : Event) :
    (outcome.note event).Agrees alike (outcome'.note event') :=
  ⟨agrees.value_eq, agrees.report_eq, agrees.alike⟩

theorem replace (agrees : outcome.Agrees alike outcome') (before : Other) (wrap : Value → Other) :
    (outcome.replace before wrap).Agrees alike (outcome'.replace before wrap) := by
  rw [Outcome.replace, Outcome.replace]
  cases ended : outcome.error with
  | none =>
      rw [agrees.error_eq_none_iff.mpr ended]
      exact agrees.map wrap
  | some error =>
      obtain ⟨error', failed'⟩ := agrees.error_ne_none ended
      rw [failed']
      exact agrees.map _

/-- Second steps agree if they do so for lexers that are alike. -/
theorem follow {alike' : Lexer → Lexer → Prop} (agrees : outcome.Agrees alike outcome')
    {left : Value → Other} {next next' : Value → Lexer → Outcome Other}
    (following : outcome.error = none → alike outcome.lexer outcome'.lexer →
      (next outcome.value outcome.lexer).Agrees alike' (next' outcome.value outcome'.lexer)) :
    (outcome.follow left next).Agrees alike' (outcome'.follow left next') := by
  rw [Outcome.follow, Outcome.follow]
  cases ended : outcome.error with
  | none =>
      have behind := following ended (agrees.alike ended)
      rw [agrees.error_eq_none_iff.mpr ended, agrees.value_eq]
      exact ⟨behind.value_eq, behind.report_eq, behind.alike⟩
  | some error =>
      obtain ⟨error', failed'⟩ := agrees.error_ne_none ended
      rw [failed']
      exact ⟨congrArg left agrees.value_eq, agrees.report_eq,
        fun succeeded => by cases ended.symm.trans succeeded⟩

/-- Behind a success an outcome agrees with its second step. -/
theorem of_follow (succeeded : outcome.error = none) (left : Value → Other)
    (next : Value → Lexer → Outcome Other) :
    (next outcome.value outcome.lexer).Agrees Eq (outcome.follow left next) := by
  rw [Outcome.follow, succeeded]
  exact ⟨rfl, rfl, fun _ => rfl⟩

/-- Of the lexers of successes more may be known than that they are alike. -/
theorem mono {alike' : Lexer → Lexer → Prop} (agrees : outcome.Agrees alike outcome')
    (weaker : outcome.error = none → alike outcome.lexer outcome'.lexer →
      alike' outcome.lexer outcome'.lexer) : outcome.Agrees alike' outcome' :=
  ⟨agrees.value_eq, agrees.report_eq, fun succeeded => weaker succeeded (agrees.alike succeeded)⟩

theorem refl (outcome : Outcome Value) : outcome.Agrees Eq outcome :=
  ⟨rfl, rfl, fun _ => rfl⟩

theorem trans {third : Outcome Value} (agrees : outcome.Agrees alike outcome')
    (same : outcome'.Agrees Eq third) : outcome.Agrees alike third where
  value_eq := same.value_eq.trans agrees.value_eq
  report_eq := same.report_eq.trans agrees.report_eq
  alike succeeded := same.alike (agrees.error_eq_none_iff.mpr succeeded) ▸ agrees.alike succeeded

/-- Outcomes agree whatever was noted. -/
theorem noted (outcome : Outcome Value) (event : Event) : outcome.Agrees Eq (outcome.note event) :=
  ⟨rfl, rfl, fun _ => rfl⟩

end Agrees

/-! ## Offsets -/

/-- The outcomes agree, and where they are failures, the offsets of their errors are related. -/
structure AgreesAt (moved : Nat → Nat → Prop) (alike : Lexer → Lexer → Prop)
    (outcome outcome' : Outcome Value) : Prop extends Agrees alike outcome outcome' where
  moves : ∀ error error', outcome.error = some error → outcome'.error = some error' →
    moved error.offset error'.offset

namespace AgreesAt

variable {moved : Nat → Nat → Prop} {alike : Lexer → Lexer → Prop}
  {outcome outcome' : Outcome Value}

theorem done (value : Value) {lexer lexer' : Lexer} (same : alike lexer lexer') :
    (Outcome.done value lexer).AgreesAt moved alike (.done value lexer') :=
  ⟨.done value same, fun _ _ failed => by cases failed⟩

theorem fail (value : Value) {error error' : DecodeError} (same : error'.report = error.report)
    (place : moved error.offset error'.offset) (lexer lexer' : Lexer) :
    (Outcome.fail value error lexer).AgreesAt moved alike (.fail value error' lexer') := by
  refine ⟨.fail value same lexer lexer', fun _ _ failed failed' => ?_⟩
  cases failed
  cases failed'
  exact place

theorem map (agrees : outcome.AgreesAt moved alike outcome') (wrap : Value → Other) :
    (outcome.map wrap).AgreesAt moved alike (outcome'.map wrap) :=
  ⟨agrees.toAgrees.map wrap, agrees.moves⟩

theorem note (agrees : outcome.AgreesAt moved alike outcome') (event event' : Event) :
    (outcome.note event).AgreesAt moved alike (outcome'.note event') :=
  ⟨agrees.toAgrees.note event event', agrees.moves⟩

theorem error_replace (outcome : Outcome Value) (before : Other) (wrap : Value → Other) :
    (outcome.replace before wrap).error = outcome.error := by
  rw [Outcome.replace]
  split <;> rfl

theorem replace (agrees : outcome.AgreesAt moved alike outcome') (before : Other)
    (wrap : Value → Other) :
    (outcome.replace before wrap).AgreesAt moved alike (outcome'.replace before wrap) := by
  refine ⟨agrees.toAgrees.replace before wrap, ?_⟩
  rw [error_replace, error_replace]
  exact agrees.moves

/-- Second steps agree if they do so for lexers that are alike. -/
theorem follow {alike' : Lexer → Lexer → Prop} (agrees : outcome.AgreesAt moved alike outcome')
    {left : Value → Other} {next next' : Value → Lexer → Outcome Other}
    (following : outcome.error = none → alike outcome.lexer outcome'.lexer →
      (next outcome.value outcome.lexer).AgreesAt moved alike'
        (next' outcome.value outcome'.lexer)) :
    (outcome.follow left next).AgreesAt moved alike' (outcome'.follow left next') := by
  refine ⟨agrees.toAgrees.follow fun succeeded land => (following succeeded land).toAgrees, ?_⟩
  rw [Outcome.follow, Outcome.follow]
  cases ended : outcome.error with
  | none =>
      have behind := following ended (agrees.alike ended)
      rw [agrees.error_eq_none_iff.mpr ended, agrees.value_eq]
      exact behind.moves
  | some error =>
      obtain ⟨error', failed'⟩ := agrees.error_ne_none ended
      have moves := agrees.moves
      rw [ended, failed'] at moves
      rw [failed']
      simp only [Outcome.map, ended, failed']
      exact moves

/-- **Outcomes that agree at a distance** have the same result, with the error moved. -/
theorem result_eq (agrees : outcome.AgreesAt moved alike outcome') {distance : Nat}
    (apart : ∀ offset offset', moved offset offset' → offset' = distance + offset) :
    outcome'.result = outcome.result.mapError (·.movedBy distance) := by
  cases ended : outcome.error with
  | none =>
      rw [result, result, ended, agrees.error_eq_none_iff.mpr ended, agrees.value_eq]
      rfl
  | some error =>
      obtain ⟨error', failed⟩ := agrees.error_ne_none ended
      have place := apart _ _ (agrees.moves error error' ended failed)
      have reports := agrees.report_eq
      rw [ended, failed] at reports
      rw [result_eq_error_iff.mpr failed, result_eq_error_iff.mpr ended]
      obtain ⟨cause, offset, token, output⟩ := error
      obtain ⟨cause', offset', token', output'⟩ := error'
      cases Option.some.inj reports
      cases place
      rfl

end AgreesAt

/-! ## Outcomes and results -/

/-- The outcome has that result, and if it is a success, it leaves the lexer at such a place. -/
structure Yields (outcome : Outcome Value) (result : Except Report Value)
    (lands : Lexer → Prop) : Prop where
  reported_eq : outcome.reported = result
  lands : outcome.error = none → lands outcome.lexer

namespace Yields

variable {outcome outcome' : Outcome Value} {result : Except Report Value} {lands : Lexer → Prop}

theorem done (value : Value) {lexer : Lexer} (land : lands lexer) :
    (Outcome.done value lexer).Yields (.ok value) lands :=
  ⟨rfl, fun _ => land⟩

/-- A good result is that of a success. -/
theorem succeeds {value : Value} (yields : outcome.Yields (.ok value) lands) :
    outcome.error = none ∧ outcome.value = value ∧ lands outcome.lexer := by
  obtain ⟨reported, land⟩ := yields
  rw [outcome.reported_eq] at reported
  cases ended : outcome.error with
  | none =>
      rw [ended] at reported
      exact ⟨rfl, Except.ok.inj reported, land ended⟩
  | some error =>
      rw [ended] at reported
      cases reported

theorem of_agrees (yields : outcome.Yields result lands) (same : outcome.Agrees Eq outcome') :
    outcome'.Yields result lands := by
  refine ⟨same.reported_eq.trans yields.reported_eq, fun succeeded => ?_⟩
  have first := same.error_eq_none_iff.mp succeeded
  exact same.alike first ▸ yields.lands first

/-- **One step behind another** yields one result behind the other. -/
theorem follow (yields : outcome.Yields result lands) {left : Value → Other}
    {next : Value → Lexer → Outcome Other} {following : Value → Except Report Other}
    {landsNext : Lexer → Prop}
    (yieldsNext : ∀ value lexer, lands lexer →
      (next value lexer).Yields (following value) landsNext) :
    (outcome.follow left next).Yields (result >>= following) landsNext := by
  obtain ⟨reported, land⟩ := yields
  obtain ⟨value, events, error, lexer⟩ := outcome
  cases error with
  | none =>
      subst reported
      obtain ⟨reportedNext, landNext⟩ := yieldsNext value lexer (land rfl)
      exact ⟨reportedNext, landNext⟩
  | some error =>
      subst reported
      exact ⟨rfl, fun succeeded => by cases succeeded⟩

end Yields

/-- The outcome has that result, errors with their offsets included, and if it is a success, it
leaves the lexer at such a place. -/
structure Gives (outcome : Outcome Value) (result : Except DecodeError Value)
    (lands : Lexer → Prop) : Prop where
  result_eq : outcome.result = result
  lands : outcome.error = none → lands outcome.lexer

namespace Gives

variable {outcome : Outcome Value} {result : Except DecodeError Value} {lands : Lexer → Prop}

theorem done (value : Value) {lexer : Lexer} (land : lands lexer) :
    (Outcome.done value lexer).Gives (.ok value) lands :=
  ⟨rfl, fun _ => land⟩

theorem map (gives : outcome.Gives result lands) (wrap : Value → Other) :
    (outcome.map wrap).Gives (result.map wrap) lands := by
  obtain ⟨rfl, land⟩ := gives
  refine ⟨?_, land⟩
  obtain ⟨value, events, error, lexer⟩ := outcome
  cases error <;> rfl

/-- One step behind another gives one result behind the other. -/
theorem follow (gives : outcome.Gives result lands) {left : Value → Other}
    {next : Value → Lexer → Outcome Other} {following : Value → Except DecodeError Other}
    {landsNext : Lexer → Prop}
    (givesNext : ∀ value lexer, lands lexer →
      (next value lexer).Gives (following value) landsNext) :
    (outcome.follow left next).Gives (result >>= following) landsNext := by
  obtain ⟨rfl, land⟩ := gives
  obtain ⟨value, events, error, lexer⟩ := outcome
  cases error with
  | none =>
      obtain ⟨result_eq, landNext⟩ := givesNext value lexer (land rfl)
      exact ⟨result_eq, landNext⟩
  | some error => exact ⟨rfl, fun succeeded => by cases succeeded⟩

end Gives

/-- What agrees with an outcome yields what this one reports. -/
theorem Agrees.yields {alike : Lexer → Lexer → Prop} {lands : Lexer → Prop}
    {outcome outcome' : Outcome Value} (agrees : outcome.Agrees alike outcome')
    (land : outcome.error = none → alike outcome.lexer outcome'.lexer → lands outcome'.lexer) :
    outcome'.Yields outcome.reported lands where
  reported_eq := agrees.reported_eq
  lands succeeded := by
    have first := agrees.error_eq_none_iff.mp succeeded
    exact land first (agrees.alike first)

end Outcome

/-! ## Tokens that decoding cannot tell apart -/

/-- Similar lexemes have the same token, with the same captured bytes and the same fault, and
leave lexers that are alike. -/
structure Alikeness (similar : Lexeme → Lexeme → Prop) (alike : Lexer → Lexer → Prop) : Prop where
  token_eq : ∀ {lexeme lexeme'}, similar lexeme lexeme' → lexeme'.token = lexeme.token
  output_eq : ∀ {lexeme lexeme'}, similar lexeme lexeme' → lexeme'.lexer.output = lexeme.lexer.output
  fault_eq : ∀ {lexeme lexeme'}, similar lexeme lexeme' → lexeme'.lexer.fault = lexeme.lexer.fault
  lands : ∀ {lexeme lexeme'}, similar lexeme lexeme' → lexeme.token ≠ .error →
    alike lexeme.lexer lexeme'.lexer

/-- The bytes from similar lexemes to lexers that are alike are the same. -/
def SameRaw (similar : Lexeme → Lexeme → Prop) (alike : Lexer → Lexer → Prop) : Prop :=
  ∀ {lexeme lexeme' lexer lexer'}, similar lexeme lexeme' → alike lexer lexer' →
    lexeme'.lexer.rawTo lexer' = lexeme.lexer.rawTo lexer

/-- The offsets at which similar lexemes begin are related. -/
def Moves (similar : Lexeme → Lexeme → Prop) (moved : Nat → Nat → Prop) : Prop :=
  ∀ ⦃lexeme lexeme'⦄, similar lexeme lexeme' → moved lexeme.lexer.start lexeme'.lexer.start

/-- Of offsets nothing need be known. -/
theorem Moves.anywhere {similar : Lexeme → Lexeme → Prop} : Moves similar fun _ _ => True :=
  fun _ _ _ => trivial

/-- A value of the shape may have scalars of that kind in it. -/
inductive Catalog.Holds (C : Catalog) (kind : Scalar) : C.Shape → Prop where
  | scalar : Holds C kind (.scalar kind)
  | option {inner : C.Shape} (inside : Holds C kind inner) : Holds C kind (.option inner)
  | list {inner : C.Shape} (inside : Holds C kind inner) : Holds C kind (.list inner)
  | entity {name : C.Name} {field : Field C.Name} (isIn : field ∈ C.fields name)
      (inside : Holds C kind field.shape) : Holds C kind (.entity name)

/-- Copies of the same tokens are alike. -/
theorem Parting.alikeness (p : Parting) : Alikeness p.Copies p.Faces where
  token_eq copies := copies.token_eq
  output_eq copies := copies.output_eq
  fault_eq copies := copies.fault_eq
  lands copies := copies.faces

theorem Parting.sameRaw (p : Parting) : SameRaw p.Copies p.Faces :=
  fun copies faces => copies.rawTo_eq faces

/-- **Copied tokens are as far apart as the places of the parting**, counted from its end. -/
theorem Parting.moves (p : Parting) :
    Moves p.Copies fun offset offset' =>
      offset' + p.rest'.length + p.length = offset + p.rest.length + p.length' := by
  intro lexeme lexeme' copies
  obtain ⟨front, same, same', place, place'⟩ := copies.fromStart
  rw [same, List.length_append] at place
  rw [same', List.length_append] at place'
  omega

/-! ## Errors of similar tokens -/

section

variable {similar : Lexeme → Lexeme → Prop} {alike : Lexer → Lexer → Prop}
  {moved : Nat → Nat → Prop}

theorem Lexer.report_errorAt {lexer lexer' : Lexer} (same : lexer'.output = lexer.output)
    (cause : Cause) (found : Token) :
    (lexer'.errorAt cause found).report = (lexer.errorAt cause found).report := by
  rw [errorAt, errorAt, same]
  rfl

/-- A token that is refused is refused where it begins. -/
theorem Lexeme.offset_refuse (lexeme : Lexeme) (wanted : Wanted) :
    (lexeme.refuse wanted).offset = lexeme.lexer.start := by
  rw [refuse]
  split <;> rfl

variable (A : Alikeness similar alike) (M : Moves similar moved) {lexeme lexeme' : Lexeme}

include A M

theorem Alikeness.refuseAt (same : similar lexeme lexeme') {Value : Type} (value : Value)
    (wanted : Wanted) :
    (Outcome.refuse value lexeme wanted).AgreesAt moved alike (.refuse value lexeme' wanted) := by
  apply Outcome.AgreesAt.fail
  · rw [Lexeme.refuse, Lexeme.refuse, A.token_eq same]
    split
    · rw [Lexer.faultError, Lexer.faultError, A.fault_eq same, A.output_eq same]
      rfl
    · exact Lexer.report_errorAt (A.output_eq same) _ _
  · rw [Lexeme.offset_refuse, Lexeme.offset_refuse]
    exact M same

omit M in
/-- Tokens are refused alike wherever they are. -/
theorem Alikeness.refuse (same : similar lexeme lexeme') {Value : Type} (value : Value)
    (wanted : Wanted) :
    (Outcome.refuse value lexeme wanted).Agrees alike (.refuse value lexeme' wanted) :=
  (A.refuseAt Moves.anywhere same value wanted).toAgrees

theorem Alikeness.mismatchAt (same : similar lexeme lexeme') {Value : Type} (value : Value)
    (wanted : String) :
    (Outcome.fail value (lexeme.lexer.mismatch wanted lexeme.token) lexeme.lexer).AgreesAt moved
      alike (.fail value (lexeme'.lexer.mismatch wanted lexeme.token) lexeme'.lexer) :=
  .fail value (Lexer.report_errorAt (A.output_eq same) _ _) (M same) _ _

/-! ## Skipping -/

mutual

/-- **Skipping values of similar tokens agrees.** -/
theorem skipTree_agreesAt : ∀ {tree tree' : Tree Lexeme}, tree.Related similar tree' →
    (skipTree tree).AgreesAt moved alike (skipTree tree')
  | .leaf lexeme, _, .leaf same => by
      rw [skipTree, skipTree, A.token_eq same]
      by_cases scalar : lexeme.token.isScalar = true
      · rw [if_pos scalar, if_pos scalar]
        exact .done () (A.lands same fun error => by rw [error] at scalar; cases scalar)
      · rw [if_neg scalar, if_neg scalar]
        exact A.refuseAt M same () .value
  | .group opening body, _, .group same inner => by
      rw [skipTree, skipTree, A.token_eq same]
      split
      · exact skipMembers_agreesAt inner .key
      · exact skipItems_agreesAt inner .item

theorem skipMembers_agreesAt : ∀ {body body' : Body Lexeme}, body.Related similar body' →
    ∀ (place : MemberPlace), (skipMembers place body).AgreesAt moved alike (skipMembers place body')
  | .close ending, _, .close same, place => by
      rw [skipMembers, skipMembers, A.token_eq same]
      by_cases ends : ending.token = .objectEnd ∧ place.mayEnd = true
      · rw [if_pos ends, if_pos ends]
        exact .done () (A.lands same fun error => by rw [error] at ends; cases ends.1)
      · rw [if_neg ends, if_neg ends]
        exact A.refuseAt M same () place.wanted
  | .more tree rest, _, .more head following, place => by
      rw [skipMembers.eq_def, skipMembers.eq_def]
      simp only [A.token_eq head.head]
      cases place with
      | key =>
          simp only
          split
          · exact skipMembers_agreesAt following .colon
          · exact A.refuseAt M head.head () _
      | colon =>
          simp only
          split
          · exact skipMembers_agreesAt following .value
          · exact A.refuseAt M head.head () _
      | value =>
          simp only
          split
          · exact (skipTree_agreesAt head).follow fun _ _ =>
              skipMembers_agreesAt following .separator
          · exact A.refuseAt M head.head () _
      | separator =>
          simp only
          split
          · exact skipMembers_agreesAt following .key
          · exact A.refuseAt M head.head () _

theorem skipItems_agreesAt : ∀ {body body' : Body Lexeme}, body.Related similar body' →
    ∀ (place : ItemPlace), (skipItems place body).AgreesAt moved alike (skipItems place body')
  | .close ending, _, .close same, place => by
      rw [skipItems, skipItems, A.token_eq same]
      by_cases ends : ending.token = .arrayEnd
      · rw [if_pos ends, if_pos ends]
        exact .done () (A.lands same fun error => by rw [error] at ends; cases ends)
      · rw [if_neg ends, if_neg ends]
        exact A.refuseAt M same () place.wanted
  | .more tree rest, _, .more head following, place => by
      rw [skipItems.eq_def, skipItems.eq_def]
      simp only [A.token_eq head.head]
      cases place with
      | item =>
          simp only
          split
          · exact (skipTree_agreesAt head).follow fun _ _ => skipItems_agreesAt following .separator
          · exact A.refuseAt M head.head () _
      | separator =>
          simp only
          split
          · exact skipItems_agreesAt following .item
          · exact A.refuseAt M head.head () _

end

/-! ## Decoding -/

omit A M in
theorem Lexer.orMalformed_report {lexer lexer' : Lexer} (same : lexer'.output = lexer.output)
    {Value : Type} (title : String) (token : Token) (value : Option Value) :
    (lexer'.orMalformed title token value).mapError DecodeError.report =
      (lexer.orMalformed title token value).mapError DecodeError.report := by
  cases value with
  | some value => rfl
  | none => exact congrArg Except.error (report_errorAt same _ _)

omit A M in
theorem Lexer.outputText_report {lexer lexer' : Lexer} (same : lexer'.output = lexer.output) :
    lexer'.outputText.mapError DecodeError.report =
      lexer.outputText.mapError DecodeError.report := by
  rw [outputText, outputText, same]
  split <;> rfl

omit A M in
theorem Lexer.readTimestamp_report {lexer lexer' : Lexer} (same : lexer'.output = lexer.output)
    (token : Token) :
    (lexer'.readTimestamp token).mapError DecodeError.report =
      (lexer.readTimestamp token).mapError DecodeError.report := by
  rw [readTimestamp, readTimestamp, outputText, outputText, same]
  cases Utf8.decode lexer.output with
  | none => rfl
  | some text =>
      cases Timestamp.parse lexer.output with
      | ok value => rfl
      | error error => exact congrArg Except.error (report_errorAt same _ _)

omit A M in
/-- A scalar is read from what was captured. -/
theorem Scalar.read_report {lexer lexer' : Lexer} (same : lexer'.output = lexer.output)
    (token : Token) (kind : Scalar) :
    (Scalar.read lexer' token kind).mapError DecodeError.report =
      (Scalar.read lexer token kind).mapError DecodeError.report := by
  cases kind with
  | text => exact Lexer.outputText_report same
  | timestamp => exact Lexer.readTimestamp_report same token
  | opaqueJson =>
      rw [read, read]
      exact Lexer.orMalformed_report same _ _ _
  | _ =>
      rw [read, read, same]
      exact Lexer.orMalformed_report same _ _ _

omit A M in
/-- A scalar that cannot be read is refused where its token begins. -/
theorem Scalar.offset_of_read {lexer : Lexer} {token : Token} {kind : Scalar}
    {error : DecodeError} (refused : Scalar.read lexer token kind = .error error) :
    error.offset = lexer.start := by
  have malformed : ∀ {Value : Type} {title : String} {value : Option Value},
      lexer.orMalformed title token value = .error error → error.offset = lexer.start := by
    intro Value title value refused
    cases value with
    | some value => cases refused
    | none =>
        cases refused
        rfl
  have noText : lexer.outputText = .error error → error.offset = lexer.start := by
    intro refused
    rw [Lexer.outputText] at refused
    split at refused <;> cases refused
    rfl
  cases kind with
  | text => exact noText refused
  | timestamp =>
      rw [Scalar.read, Lexer.readTimestamp] at refused
      split at refused
      · next unread =>
          cases refused
          exact noText unread
      · split at refused <;> cases refused
        rfl
  | opaqueJson =>
      cases refused
      rfl
  | _ => exact malformed refused

/-- Opaque JSON is read from the bytes that are skipped. -/
theorem decodeOpaque_agreesAt (raw : SameRaw similar alike) {tree tree' : Tree Lexeme}
    (same : tree.Related similar tree') (before : Json.Value) :
    (decodeOpaque tree before).AgreesAt moved alike (decodeOpaque tree' before) := by
  rw [decodeOpaque, decodeOpaque]
  apply (skipTree_agreesAt A M same).follow
  intro _ lands
  simp only [raw same.head lands, A.token_eq same.head]
  split
  · exact .done _ lands
  · refine .fail before ?_ (M same.head) _ _
    rfl

theorem Scalar.decode_agreesAt (kind : Scalar) (raw : kind = .opaqueJson → SameRaw similar alike)
    {tree tree' : Tree Lexeme} (same : tree.Related similar tree') (before : kind.Carrier) :
    (kind.decode tree before).AgreesAt moved alike (kind.decode tree' before) := by
  by_cases opaqueJson : kind = .opaqueJson
  · subst opaqueJson
    exact decodeOpaque_agreesAt A M (raw rfl) same before
  rw [Scalar.decode_of_ne opaqueJson, Scalar.decode_of_ne opaqueJson, A.token_eq same.head]
  by_cases null : tree.head.token = .null
  · rw [if_pos null, if_pos null]
    exact .done before (A.lands same.head fun error => by rw [error] at null; cases null)
  rw [if_neg null, if_neg null]
  by_cases accepted : kind.accepts tree.head.token = true
  · rw [if_pos accepted, if_pos accepted]
    have reports := Scalar.read_report (A.output_eq same.head) tree.head.token kind
    cases read : Scalar.read tree.head.lexer tree.head.token kind with
    | ok value =>
        cases read' : Scalar.read tree'.head.lexer tree.head.token kind with
        | ok value' =>
            rw [read, read'] at reports
            cases reports
            refine .done value (A.lands same.head fun error => ?_)
            have scalar := isScalar_of_accepts accepted
            rw [error] at scalar
            cases scalar
        | error error' =>
            rw [read, read'] at reports
            cases reports
    | error error =>
        cases read' : Scalar.read tree'.head.lexer tree.head.token kind with
        | ok value' =>
            rw [read, read'] at reports
            cases reports
        | error error' =>
            rw [read, read'] at reports
            refine .fail before (Except.error.inj reports) ?_ _ _
            rw [Scalar.offset_of_read read, Scalar.offset_of_read read']
            exact M same.head
  · rw [if_neg accepted, if_neg accepted]
    exact A.mismatchAt M same.head before kind.title

variable {C : Catalog} {matching : KeyMatching}

theorem decodeLeaf_agreesAt (same : similar lexeme lexeme') :
    ∀ {shape : C.Shape}, (C.Holds .opaqueJson shape → SameRaw similar alike) →
      ∀ before : C.Value shape,
        (decodeLeaf C lexeme shape before).AgreesAt moved alike (decodeLeaf C lexeme' shape before)
  | .scalar kind, raw, .scalar before => by
      rw [decodeLeaf, decodeLeaf]
      exact (kind.decode_agreesAt A M (fun isOpaque => raw (isOpaque ▸ .scalar)) (.leaf same)
        before).map _
  | .option inner, raw, before => by
      rw [decodeLeaf, decodeLeaf, A.token_eq same]
      by_cases null : lexeme.token = .null
      · rw [if_pos null, if_pos null]
        exact .done _ (A.lands same fun error => by rw [error] at null; cases null)
      · rw [if_neg null, if_neg null]
        exact (decodeLeaf_agreesAt same (fun holds => raw (.option holds)) _).replace before _
  | .list _, _, before => by
      rw [decodeLeaf, decodeLeaf, A.token_eq same]
      by_cases null : lexeme.token = .null
      · rw [if_pos null, if_pos null]
        exact .done _ (A.lands same fun error => by rw [error] at null; cases null)
      · rw [if_neg null, if_neg null]
        exact A.mismatchAt M same before _
  | .entity name, _, before => by
      rw [decodeLeaf, decodeLeaf, A.token_eq same]
      by_cases null : lexeme.token = .null
      · rw [if_pos null, if_pos null]
        exact .done _ (A.lands same fun error => by rw [error] at null; cases null)
      · rw [if_neg null, if_neg null]
        exact A.mismatchAt M same before _

/-- Values with bodies are decoded alike, if their members and their items are. -/
theorem decodeGroup_agreesAt {opening opening' : Lexeme} {body body' : Body Lexeme}
    (same : similar opening opening') (inner : body.Related similar body')
    {members members' : (name : C.Name) → C.Entity name → Outcome (C.Entity name)}
    {items items' : (inner : C.Shape) → Outcome (C.Sequence inner)}
    (membersAgree : ∀ name, (C.Holds .opaqueJson (.entity name) → SameRaw similar alike) →
      ∀ record, (members name record).AgreesAt moved alike (members' name record))
    (itemsAgree : ∀ inner, (C.Holds .opaqueJson inner → SameRaw similar alike) →
      (items inner).AgreesAt moved alike (items' inner)) :
    ∀ {shape : C.Shape}, (C.Holds .opaqueJson shape → SameRaw similar alike) →
      ∀ before : C.Value shape,
        (decodeGroup C opening body members items shape before).AgreesAt moved alike
          (decodeGroup C opening' body' members' items' shape before)
  | .scalar kind, raw, .scalar before => by
      rw [decodeGroup, decodeGroup]
      exact (kind.decode_agreesAt A M (fun isOpaque => raw (isOpaque ▸ .scalar)) (.group same inner)
        before).map _
  | .option shape, raw, before => by
      rw [decodeGroup, decodeGroup]
      exact (decodeGroup_agreesAt same inner membersAgree itemsAgree
        (fun holds => raw (.option holds)) _).replace before _
  | .list shape, raw, before => by
      rw [decodeGroup, decodeGroup, A.token_eq same]
      split
      · exact (itemsAgree shape fun holds => raw (.list holds)).map _
      · exact A.mismatchAt M same before _
  | .entity name, raw, .entity before => by
      rw [decodeGroup, decodeGroup, A.token_eq same]
      split
      · exact (membersAgree name raw before).map _
      · exact A.mismatchAt M same _ _

/-- Values are decoded alike into the field of a given number. -/
theorem Record.decodeAt_agreesAt {tree tree' : Tree Lexeme} (same : tree.Related similar tree')
    {decode decode' : (shape : C.Shape) → C.Value shape → Outcome (C.Value shape)} :
    ∀ {list : List (Field C.Name)},
      (∀ field ∈ list, ∀ before,
        (decode field.shape before).AgreesAt moved alike (decode' field.shape before)) →
      ∀ (index : Nat) (record : C.Record list),
        (record.decodeAt tree decode index).AgreesAt moved alike
          (record.decodeAt tree' decode' index)
  | [], _, _, .nil => by
      rw [Record.decodeAt, Record.decodeAt]
      exact (skipTree_agreesAt A M same).map _
  | field :: _, agree, 0, .cons head _ => by
      rw [Record.decodeAt, Record.decodeAt]
      exact (agree field List.mem_cons_self head).map _
  | field :: _, agree, index + 1, .cons _ tail => by
      rw [Record.decodeAt, Record.decodeAt]
      exact (tail.decodeAt_agreesAt same
        (fun other isIn => agree other (List.mem_cons_of_mem field isIn)) index).map _

mutual

/-- **Decoding values of similar tokens agrees.** -/
theorem decodeTree_agreesAt : ∀ {tree tree' : Tree Lexeme}, tree.Related similar tree' →
    ∀ {shape : C.Shape}, (C.Holds .opaqueJson shape → SameRaw similar alike) →
      ∀ before : C.Value shape,
        (decodeTree C matching tree shape before).AgreesAt moved alike
          (decodeTree C matching tree' shape before)
  | .leaf lexeme, _, .leaf same, shape, raw, before => by
      rw [decodeTree, decodeTree]
      exact decodeLeaf_agreesAt A M same raw before
  | .group opening body, _, .group same inner, shape, raw, before => by
      rw [decodeTree, decodeTree]
      exact decodeGroup_agreesAt A M same inner
        (fun name raw record => decodeMembers_agreesAt inner raw .key none record)
        (fun shape raw => decodeItems_agreesAt inner raw .item) raw before

theorem decodeMembers_agreesAt : ∀ {body body' : Body Lexeme}, body.Related similar body' →
    ∀ {name : C.Name}, (C.Holds .opaqueJson (.entity name) → SameRaw similar alike) →
      ∀ (place : MemberPlace) (current : Option Nat) (record : C.Entity name),
        (decodeMembers C matching body name place current record).AgreesAt moved alike
          (decodeMembers C matching body' name place current record)
  | .close ending, _, .close same, name, _, place, current, record => by
      rw [decodeMembers, decodeMembers, A.token_eq same]
      by_cases ends : ending.token = .objectEnd ∧ place.mayEnd = true
      · rw [if_pos ends, if_pos ends]
        exact .done record (A.lands same fun error => by rw [error] at ends; cases ends.1)
      · rw [if_neg ends, if_neg ends]
        exact A.refuseAt M same record place.wanted
  | .more tree rest, _, .more head following, name, raw, place, current, record => by
      rw [decodeMembers.eq_def, decodeMembers.eq_def]
      simp only [A.token_eq head.head, A.output_eq head.head]
      cases place with
      | key =>
          simp only
          split
          · split
            · exact decodeMembers_agreesAt following raw .colon _ record
            · exact (decodeMembers_agreesAt following raw .colon none record).note _ _
          · exact A.refuseAt M head.head record _
      | colon =>
          simp only
          split
          · exact decodeMembers_agreesAt following raw .value current record
          · exact A.refuseAt M head.head record _
      | value =>
          simp only
          split
          · refine Outcome.AgreesAt.follow (?_ : Outcome.AgreesAt moved alike _ _) fun _ _ =>
              decodeMembers_agreesAt following raw .separator none _
            cases current with
            | none => exact (skipTree_agreesAt A M head).map _
            | some index =>
                exact record.decodeAt_agreesAt A M head (fun field isIn =>
                  decodeTree_agreesAt head fun holds => raw (.entity isIn holds)) index
          · exact A.refuseAt M head.head record _
      | separator =>
          simp only
          split
          · exact decodeMembers_agreesAt following raw .key none record
          · exact A.refuseAt M head.head record _

theorem decodeItems_agreesAt : ∀ {body body' : Body Lexeme}, body.Related similar body' →
    ∀ {inner : C.Shape}, (C.Holds .opaqueJson inner → SameRaw similar alike) →
      ∀ (place : ItemPlace),
        (decodeItems C matching body inner place).AgreesAt moved alike
          (decodeItems C matching body' inner place)
  | .close ending, _, .close same, inner, _, place => by
      rw [decodeItems, decodeItems, A.token_eq same]
      by_cases ends : ending.token = .arrayEnd
      · rw [if_pos ends, if_pos ends]
        exact .done _ (A.lands same fun error => by rw [error] at ends; cases ends)
      · rw [if_neg ends, if_neg ends]
        exact A.refuseAt M same _ _
  | .more tree rest, _, .more head following, inner, raw, place => by
      rw [decodeItems.eq_def, decodeItems.eq_def]
      simp only [A.token_eq head.head]
      cases place with
      | item =>
          simp only
          split
          · refine (decodeTree_agreesAt head raw (C.blank inner)).follow fun _ _ => ?_
            exact (decodeItems_agreesAt following raw .separator).map _
          · exact A.refuseAt M head.head _ _
      | separator =>
          simp only
          split
          · exact decodeItems_agreesAt following raw .item
          · exact A.refuseAt M head.head _ _

end

omit M

/-- Skipping and decoding agree wherever the tokens are. -/
theorem skipTree_agrees {tree tree' : Tree Lexeme} (same : tree.Related similar tree') :
    (skipTree tree).Agrees alike (skipTree tree') :=
  (skipTree_agreesAt A Moves.anywhere same).toAgrees

theorem decodeTree_agrees {tree tree' : Tree Lexeme} (same : tree.Related similar tree')
    {shape : C.Shape} (raw : C.Holds .opaqueJson shape → SameRaw similar alike)
    (before : C.Value shape) :
    (decodeTree C matching tree shape before).Agrees alike
      (decodeTree C matching tree' shape before) :=
  (decodeTree_agreesAt A Moves.anywhere same raw before).toAgrees

theorem decodeMembers_agrees {body body' : Body Lexeme} (same : body.Related similar body')
    {name : C.Name} (raw : C.Holds .opaqueJson (.entity name) → SameRaw similar alike)
    (place : MemberPlace) (current : Option Nat) (record : C.Entity name) :
    (decodeMembers C matching body name place current record).Agrees alike
      (decodeMembers C matching body' name place current record) :=
  (decodeMembers_agreesAt A Moves.anywhere same raw place current record).toAgrees

theorem decodeItems_agrees {body body' : Body Lexeme} (same : body.Related similar body')
    {inner : C.Shape} (raw : C.Holds .opaqueJson inner → SameRaw similar alike)
    (place : ItemPlace) :
    (decodeItems C matching body inner place).Agrees alike
      (decodeItems C matching body' inner place) :=
  (decodeItems_agreesAt A Moves.anywhere same raw place).toAgrees

/-- The end of a payload is looked for alike. -/
theorem Alikeness.finishWith_agrees {lexer lexer' : Lexer} (same : similar lexer.scan lexer'.scan)
    {Value : Type} (value : Value) :
    (finishWith value lexer).Agrees (fun _ _ => True) (finishWith value lexer') := by
  rw [finishWith, finishWith, Lexer.finish, Lexer.finish, A.token_eq same]
  by_cases ended : lexer.scan.token = .eof
  · rw [if_pos ended, if_pos ended]
    exact (Outcome.Agrees.done () trivial).map _
  · rw [if_neg ended, if_neg ended]
    exact ((A.refuse same () _).mono fun _ _ => trivial).map _

end

/-! ## Lexers in front of the same bytes -/

/-- Both lexers are in order and have the same bytes before them. -/
def Lexer.Alike (lexer lexer' : Lexer) : Prop := ∃ bytes, lexer.Faces bytes ∧ lexer'.Faces bytes

section

variable {lexer lexer' : Lexer}

/-- Lexers in front of the same bytes read payloads that do not part. -/
theorem Lexer.Alike.faces (alike : lexer.Alike lexer') :
    (Parting.between lexer lexer' [] []).closed.Faces lexer lexer' := by
  obtain ⟨bytes, faces, faces'⟩ := alike
  refine ⟨faces.going, faces'.going, bytes, ?_, ?_, rfl, rfl⟩
  · rw [faces.ahead_eq]
    exact (List.append_nil _).symm
  · rw [faces'.ahead_eq]
    exact (List.append_nil _).symm

theorem Parting.Faces.alike {p : Parting} (faces : p.closed.Faces lexer lexer') :
    lexer.Alike lexer' := by
  obtain ⟨front, ahead, ahead', -⟩ := faces.ahead
  exact ⟨front ++ [], ⟨faces.going, ahead⟩, ⟨faces.going', ahead'⟩⟩

variable {C : Catalog} {matching : KeyMatching}

/-- **Decoding from the same bytes on agrees**, in an object and in an array. -/
theorem Lexer.Alike.decodeMembers_agrees (alike : lexer.Alike lexer') (name : C.Name)
    (place : MemberPlace) (current : Option Nat) (record : C.Entity name) :
    (decodeMembers C matching lexer.body name place current record).Agrees Lexer.Alike
      (decodeMembers C matching lexer'.body name place current record) :=
  (ChatCodec.decodeMembers_agrees (Parting.alikeness _) alike.faces.related_body
    (fun _ => Parting.sameRaw _) place current record).mono fun _ faces => faces.alike

theorem Lexer.Alike.decodeItems_agrees (alike : lexer.Alike lexer') (inner : C.Shape)
    (place : ItemPlace) :
    (decodeItems C matching lexer.body inner place).Agrees Lexer.Alike
      (decodeItems C matching lexer'.body inner place) :=
  (ChatCodec.decodeItems_agrees (Parting.alikeness _) alike.faces.related_body
    (fun _ => Parting.sameRaw _) place).mono fun _ faces => faces.alike

/-- At the end of a document too. -/
theorem Lexer.Alike.finishWith_agrees (alike : lexer.Alike lexer') {Value : Type} (value : Value) :
    (finishWith value lexer).Agrees (fun _ _ => True) (finishWith value lexer') :=
  (Parting.alikeness _).finishWith_agrees alike.faces.copies_scan_of_closed value

end

end ChatCodec
