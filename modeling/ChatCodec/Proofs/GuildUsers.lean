import ChatCodec.Entity.User
import ChatCodec.Proofs.Streaming.InPlace
import ChatCodec.Proofs.WrittenForm

/-!
# Guild users extend users

A guild user is a user with a membership (`GuildUser.make`).  In documents the membership is one
more member behind those of the user, and so a document of a guild user is a document of the user:
it is decoded alike (`GuildUser.extends_user`), because a user has no field for the membership and
skips what a guild user decodes.

Decoding the two is compared member by member (`extends_decodeMembers`).  As long as no key finds
the membership the two do the same.  Where a key does find it, the guild user may fail and the user
not, so from there on the comparison takes the success of the guild user.
-/

namespace ChatCodec

set_option autoImplicit false

/-! ## Records that go on -/

namespace Record

variable {Name : Type} {fields : Name → List (Field Name)}

/-- The values of the first fields, and behind them those of further fields. -/
def append : {first rest : List (Field Name)} → Record fields first → Record fields rest →
    Record fields (first ++ rest)
  | _, _, .nil, behind => behind
  | _, _, .cons head tail, behind => .cons head (tail.append behind)

theorem front_append : ∀ {first rest : List (Field Name)} (front : Record fields first)
    (behind : Record fields rest), (front.append behind).front first = front
  | _, _, .nil, _ => rfl
  | _, _, .cons head tail, behind => congrArg (Record.cons head) (tail.front_append behind)

/-- A record is its first fields and those behind them. -/
theorem append_front_back : ∀ (first : List (Field Name)) {rest : List (Field Name)}
    (record : Record fields (first ++ rest)),
      (record.front first).append (record.back first) = record
  | [], _, _ => rfl
  | _ :: first, _, .cons head tail => congrArg (Record.cons head) (append_front_back first tail)

/-- The first of the fields behind others. -/
theorem get_append_length : ∀ {first rest : List (Field Name)} {field : Field Name}
    (front : Record fields first) (head : Val fields field.shape) (tail : Record fields rest)
    (inside : first.length < (first ++ field :: rest).length),
    HEq ((front.append (.cons head tail)).get ⟨first.length, inside⟩) head
  | _, _, _, .nil, _, _, _ => .rfl
  | _, _, _, .cons _ others, head, tail, inside =>
      others.get_append_length head tail (Nat.lt_of_succ_lt_succ inside)

/-- The members of a record are those of its first fields and then those behind them. -/
theorem members_append : ∀ {first rest : List (Field Name)} (front : Record fields first)
    (behind : Record fields rest), (front.append behind).members = front.members ++ behind.members
  | _, _, .nil, _ => rfl
  | field :: _, _, .cons head tail, behind => by
      rw [append, members, members, tail.members_append behind]
      split <;> rfl

section

variable (tree : Tree Lexeme)
  (decode : (shape : Shape Name) → Val fields shape → Outcome (Val fields shape))

/-- Decoding into one of the first fields is decoding into the first fields. -/
theorem map_front_decodeAt : ∀ (first : List (Field Name)) {rest : List (Field Name)}
    (record : Record fields (first ++ rest)) {index : Nat}, index < first.length →
      (record.decodeAt tree decode index).map (front first) =
        (record.front first).decodeAt tree decode index
  | _ :: _, _, .cons _ _, 0, _ => rfl
  | _ :: first, _, .cons head tail, index + 1, inside => by
      have following := map_front_decodeAt first tail (Nat.lt_of_succ_lt_succ inside)
      exact congrArg (Outcome.map (Record.cons head)) following

/-- Decoding into a field behind the first ones leaves these. -/
theorem front_decodeAt_of_le : ∀ (first : List (Field Name)) {rest : List (Field Name)}
    (record : Record fields (first ++ rest)) {index : Nat}, first.length ≤ index →
      (record.decodeAt tree decode index).value.front first = record.front first
  | [], _, _, _, _ => rfl
  | _ :: first, _, .cons head tail, _ + 1, behind =>
      congrArg (Record.cons head)
        (front_decodeAt_of_le first tail (Nat.le_of_succ_le_succ behind))

end

end Record

/-! ## Keys of which there is one more -/

namespace Key

theorem filter_findIdx?_append (names : List String) (extra : String) (matched : String → Bool) :
    ((names ++ [extra]).findIdx? matched).filter (· < names.length) = names.findIdx? matched := by
  rw [List.findIdx?_append]
  cases found : names.findIdx? matched with
  | some index =>
      obtain ⟨inside, -⟩ := List.findIdx?_eq_some_iff_getElem.mp found
      simp only [Option.some_or, Option.filter_some, inside, decide_true, if_true]
  | none =>
      simp only [Option.none_or, List.findIdx?_singleton]
      cases matched extra <;> simp

/-- **A name whose letters no other name has** finds what no other name finds.  All other keys find
the same without it. -/
theorem filter_resolve_append {names : List String} {extra : String}
    (apart : ∀ name ∈ names, letters (bytesOf name) ≠ letters (bytesOf extra)) (key : Bytes)
    (matching : KeyMatching) :
    (resolve (names ++ [extra]) key matching).filter (· < names.length) =
      resolve names key matching := by
  rw [resolve.eq_def, resolve.eq_def names]
  by_cases empty : key = []
  · rw [if_pos empty, if_pos empty]
    rfl
  rw [if_neg empty, if_neg empty, List.findIdx?_append]
  cases found : names.findIdx? (matchesExact · key) with
  | some index =>
      obtain ⟨inside, -⟩ := List.findIdx?_eq_some_iff_getElem.mp found
      simp only [Option.some_or, Option.filter_some, inside, decide_true, if_true]
  | none =>
      by_cases here : matchesExact extra key = true
      · -- the key is the further name, which has no letters in common with the others
        have none' : names.findIdx? (matchesFolded · key) = none := by
          rw [List.findIdx?_eq_none_iff]
          intro name isIn
          rw [← beq_iff_eq.mp here]
          exact beq_eq_false_iff_ne.mpr (apart name isIn)
        simp only [Option.none_or, List.findIdx?_singleton, here, if_true, Option.map_some]
        cases matching <;> simp [none']
      · simp only [Option.none_or, List.findIdx?_singleton, if_neg here, Option.map_none]
        cases matching with
        | exact => rfl
        | lenient => exact filter_findIdx?_append names extra _

end Key

/-! ## Outcomes of which one has more -/

/-- The second outcome is the first one, of which it knows only what `part` tells. -/
structure Outcome.Extends {Value Other : Type} (part : Value → Other) (first : Outcome Value)
    (second : Outcome Other) : Prop where
  error_eq : second.error = first.error
  lexer_eq : second.lexer = first.lexer
  value_eq : second.value = part first.value

namespace Outcome.Extends

variable {Value Other : Type} {part : Value → Other} {first : Outcome Value}
  {second : Outcome Other}

theorem map (part : Value → Other) (outcome : Outcome Value) :
    outcome.Extends part (outcome.map part) :=
  ⟨rfl, rfl, rfl⟩

theorem note (extends_ : first.Extends part second) (event : Event) :
    (first.note event).Extends part second :=
  ⟨extends_.error_eq, extends_.lexer_eq, extends_.value_eq⟩

theorem noted (extends_ : first.Extends part second) (event : Event) :
    first.Extends part (second.note event) :=
  ⟨extends_.error_eq, extends_.lexer_eq, extends_.value_eq⟩

theorem follow {next : Value → Lexer → Outcome Value} {next' : Other → Lexer → Outcome Other}
    (extends_ : first.Extends part second)
    (extendsNext : first.error = none →
      (next first.value first.lexer).Extends part (next' (part first.value) first.lexer)) :
    (first.follow id next).Extends part (second.follow id next') := by
  rw [Outcome.follow, Outcome.follow, extends_.error_eq]
  cases failed : first.error with
  | some error => exact ⟨extends_.error_eq, extends_.lexer_eq, extends_.value_eq⟩
  | none =>
      have behind := extendsNext failed
      rw [extends_.value_eq, extends_.lexer_eq]
      exact ⟨behind.error_eq, behind.lexer_eq, behind.value_eq⟩

/-- The results correspond. -/
theorem result_eq (extends_ : first.Extends part second) :
    second.result = first.result.map part := by
  rw [result, result, extends_.error_eq, extends_.value_eq]
  cases first.error <;> rfl

end Outcome.Extends

/-! ## Documents -/

/-- The keys that are read at the top level when a payload is decoded as a document. -/
def documentKeys (C : Catalog) (matching : KeyMatching) (name : C.Name) (payload : Bytes) :
    List Bytes :=
  let first := (Lexer.ofBytes payload).scan
  first.lexer.keysRead C matching (C.blankEntity name) first.token

theorem result_decodeDocument (C : Catalog) (matching : KeyMatching) (name : C.Name)
    (payload : Bytes) :
    (decodeDocument C matching name payload).result =
      ((decodeObject C matching (C.blankEntity name) (Lexer.ofBytes payload)).follow id
        finishWith).result := by
  rw [decodeDocument]
  generalize (decodeObject C matching (C.blankEntity name) (Lexer.ofBytes payload)).follow id
    finishWith = outcome
  obtain ⟨value, events, error, lexer⟩ := outcome
  cases error <;> rfl

/-! ## Guild users -/

namespace GuildUser

/-- A guild user of a user and, if it is known, a membership. -/
def make (user : User) (member? : Option Member) : GuildUser :=
  user.append (.cons
    (match member? with
    | none => .none
    | some member => .some (.entity member)) .nil)

/-- The number of the field of the membership. -/
abbrev memberIndex : Nat := 16

theorem user_make (user : User) (member? : Option Member) : (make user member?).user = user :=
  user.front_append _

theorem member?_make (user : User) (member? : Option Member) :
    (make user member?).member? = member? := by
  cases member? with
  | none =>
      have absent : (make user none).get ⟨16, by decide⟩ = .none :=
        eq_of_heq (user.get_append_length _ _ (by decide))
      rw [GuildUser.member?, absent]
      rfl
  | some member =>
      have present : (make user (some member)).get ⟨16, by decide⟩ = .some (.entity member) :=
        eq_of_heq (user.get_append_length _ _ (by decide))
      rw [GuildUser.member?, present]
      rfl

/-- **Every guild user is made of a user and a membership.** -/
theorem make_user_member? (guildUser : GuildUser) :
    make guildUser.user guildUser.member? = guildUser := by
  have made : ∃ user member?, guildUser = make user member? := by
    have parts := Record.append_front_back EntityName.userFields guildUser
    revert parts
    generalize Record.back EntityName.userFields guildUser = behind
    match behind with
    | .cons .none .nil => exact fun parts => ⟨_, none, parts.symm⟩
    | .cons (.some (.entity member)) .nil => exact fun parts => ⟨_, some member, parts.symm⟩
  obtain ⟨user, member?, rfl⟩ := made
  rw [user_make, member?_make]

/-- No key of a user has the letters of the key of the membership. -/
theorem filter_resolve (key : Bytes) (matching : KeyMatching) :
    (Key.resolve (Chat.keys .guildUser) key matching).filter (· < memberIndex) =
      Key.resolve (Chat.keys .user) key matching := by
  have apart : ∀ name ∈ Chat.keys .user,
      Key.letters (bytesOf name) ≠ Key.letters (bytesOf "member") := by decide +kernel
  exact Key.filter_resolve_append apart key matching

/-! ## Decoding -/

section

variable {matching : KeyMatching}

/-- **The value of a member is written alike.**  A membership that is decoded is skipped for the
user. -/
theorem extends_writeMember {tree : Tree Lexeme}
    (opened : tree.IsOpened fun lexeme => lexeme.token.role) {current : Option Nat}
    {guildUser : GuildUser}
    (passes : (writeMember Chat matching current tree guildUser).error = none ∨
      current ≠ some memberIndex) :
    (writeMember Chat matching current tree guildUser).Extends user
      (writeMember Chat matching (current.filter (· < memberIndex)) tree guildUser.user) := by
  let decode := fun (shape : Chat.Shape) before => decodeTree Chat matching tree shape before
  cases current with
  | none => exact ⟨rfl, rfl, rfl⟩
  | some index =>
      by_cases inside : index < memberIndex
      · rw [Option.filter_some, if_pos (decide_eq_true inside)]
        have same := Record.map_front_decodeAt tree decode EntityName.userFields guildUser inside
        exact (congrArg (Outcome.Extends user (guildUser.decodeAt tree decode index)) same).mp
          (.map user _)
      rw [Option.filter_some, if_neg (by simpa using inside)]
      show (guildUser.decodeAt tree decode index).Extends user
        ((skipTree tree).map fun _ => guildUser.user)
      have kept := Record.front_decodeAt_of_le tree decode EntityName.userFields guildUser
        (Nat.le_of_not_lt inside)
      rcases passes with succeeded | other
      · have skipped := guildUser.decodeAt_passesLike (decodeTree_passesLike opened) index succeeded
        rw [skipped]
        exact ⟨succeeded.symm, rfl, kept.symm⟩
      · have beyond : memberIndex < index := by
          have differs : index ≠ memberIndex := fun same => other (congrArg some same)
          omega
        rw [guildUser.decodeAt_beyond tree decode index beyond]
        exact ⟨rfl, rfl, rfl⟩

/-- **A guild user is decoded like a user**, as long as decoding succeeds or no key finds the
membership. -/
theorem extends_decodeMembers : ∀ {body : Body Lexeme},
    body.IsOpened (fun lexeme => lexeme.token.role) → ∀ (place : MemberPlace)
      (current : Option Nat) (guildUser : GuildUser),
      (decodeMembers Chat matching body .guildUser place current guildUser).error = none ∨
        (current ≠ some memberIndex ∧ ∀ key ∈ keysRead Chat matching body place current guildUser,
          Key.resolve (Chat.keys .guildUser) key matching ≠ some memberIndex) →
      (decodeMembers Chat matching body .guildUser place current guildUser).Extends user
        (decodeMembers Chat matching body .user place (current.filter (· < memberIndex))
          guildUser.user)
  | .close ending, _, place, current, guildUser, _ => by
      rw [decodeMembers, decodeMembers]
      split <;> exact ⟨rfl, rfl, rfl⟩
  | .more tree rest, opened, place, current, guildUser, unfound => by
      rw [Body.IsOpened] at opened
      by_cases admitted : place.admits tree.head.token = true
      · cases place with
        | key =>
            have isKey := beq_iff_eq.mp admitted
            rw [keysRead, if_pos isKey, decodeMembers_more_key isKey,
              List.forall_mem_cons] at unfound
            rw [decodeMembers_more_key isKey, decodeMembers_more_key isKey, ← filter_resolve]
            have following := extends_decodeMembers opened.2 .colon
              (Key.resolve (Chat.keys .guildUser) tree.head.lexer.output matching) guildUser
            generalize Key.resolve (Chat.keys .guildUser) tree.head.lexer.output matching = found
              at unfound following ⊢
            cases found with
            | none => exact ((following (unfound.imp_right And.right)).note _).noted _
            | some index =>
                have extends_ := following (unfound.imp_right And.right)
                by_cases inside : index < memberIndex
                · rw [Option.filter_some, if_pos (decide_eq_true inside)] at extends_ ⊢
                  exact extends_
                · -- the key of the membership, which is none of a user
                  rw [Option.filter_some, if_neg (by simpa using inside)] at extends_ ⊢
                  exact extends_.noted _
        | colon =>
            have isColon := beq_iff_eq.mp admitted
            rw [keysRead, if_pos isColon, decodeMembers_more_colon isColon] at unfound
            rw [decodeMembers_more_colon isColon, decodeMembers_more_colon isColon]
            exact extends_decodeMembers opened.2 .value current guildUser unfound
        | value =>
            rw [keysRead, if_pos (show tree.head.token.isValue = true from admitted),
              decodeMembers_more_value admitted] at unfound
            rw [decodeMembers_more_value admitted, decodeMembers_more_value admitted]
            refine .follow (extends_writeMember opened.1 ?_) fun succeeded => ?_
            · exact unfound.imp Outcome.error_eq_none_of_follow And.left
            · rw [(Outcome.follow_of_error_eq_none succeeded _ _).1] at unfound
              rw [if_pos succeeded] at unfound
              exact extends_decodeMembers opened.2 .separator none _
                (unfound.imp_right fun others => ⟨(Option.some_ne_none _).symm, others.2⟩)
        | separator =>
            have isComma := beq_iff_eq.mp admitted
            rw [keysRead, if_pos isComma, decodeMembers_more_separator isComma] at unfound
            rw [decodeMembers_more_separator isComma, decodeMembers_more_separator isComma]
            exact extends_decodeMembers opened.2 .key none guildUser
              (unfound.imp_right fun others => ⟨(Option.some_ne_none _).symm, others.2⟩)
      · rw [decodeMembers_more_of_not_admits admitted, decodeMembers_more_of_not_admits admitted]
        exact ⟨rfl, rfl, rfl⟩

/-- An object is decoded alike. -/
theorem extends_decodeObject {lexer : Lexer}
    (unfound : (decodeObject Chat matching (Chat.blankEntity .guildUser) lexer).error = none ∨
      ∀ key ∈ lexer.scan.lexer.keysRead Chat matching (Chat.blankEntity .guildUser)
        lexer.scan.token, Key.resolve (Chat.keys .guildUser) key matching ≠ some memberIndex) :
    (decodeObject Chat matching (Chat.blankEntity .guildUser) lexer).Extends user
      (decodeObject Chat matching (Chat.blankEntity .user) lexer) := by
  rw [decodeObject] at unfound
  rw [decodeObject, decodeObject]
  by_cases object : lexer.scan.token = .objectStart
  · simp only [if_pos object, Lexer.keysRead] at unfound ⊢
    exact extends_decodeMembers (Body.isOpened_levels _ _ _).1 .key none
      (Chat.blankEntity .guildUser)
      (unfound.imp_right fun others => ⟨(Option.some_ne_none _).symm, others⟩)
  · simp only [if_neg object]
    exact ⟨rfl, rfl, rfl⟩

/-- An object with nothing but white space behind it is decoded alike. -/
theorem extends_whole {payload : Bytes}
    (unfound : (decodeObject Chat matching (Chat.blankEntity .guildUser)
        (Lexer.ofBytes payload)).error = none ∨
      ∀ key ∈ documentKeys Chat matching .guildUser payload,
        Key.resolve (Chat.keys .guildUser) key matching ≠ some memberIndex) :
    ((decodeObject Chat matching (Chat.blankEntity .guildUser)
        (Lexer.ofBytes payload)).follow id finishWith).Extends user
      ((decodeObject Chat matching (Chat.blankEntity .user)
        (Lexer.ofBytes payload)).follow id finishWith) :=
  (extends_decodeObject unfound).follow fun _ => ⟨rfl, rfl, rfl⟩

/-- A blank guild user that no key has given a membership has none. -/
theorem member?_decodeObject {lexer : Lexer}
    (unfound : ∀ key ∈ lexer.scan.lexer.keysRead Chat matching (Chat.blankEntity .guildUser)
      lexer.scan.token, Key.resolve (Chat.keys .guildUser) key matching ≠ some memberIndex) :
    member? (decodeObject Chat matching (Chat.blankEntity .guildUser) lexer).value = none := by
  have kept : (decodeObject Chat matching (Chat.blankEntity .guildUser) lexer).value.get
      ⟨memberIndex, by decide⟩ = .none := by
    rw [decodeObject]
    by_cases object : lexer.scan.token = .objectStart
    · simp only [if_pos object, Lexer.keysRead] at unfound ⊢
      exact @get_decodeMembers Chat matching .guildUser ⟨memberIndex, by decide⟩ _ .key none _
        (Option.some_ne_none _).symm unfound
    · simp only [if_neg object]
      rfl
  rw [member?, kept]
  rfl

end

/-! ## Encoding -/

theorem members_make_none (user : User) : (make user none).members = user.members :=
  (user.members_append _).trans (List.append_nil _)

theorem members_make_some (user : User) (member : Member) :
    (make user (some member)).members =
      user.members ++ [("member", (Val.entity member : Chat.Value (.entity .member)).toBytes)] :=
  user.members_append _

/-- A user always has a member, the identifier. -/
theorem members_ne_nil (user : User) : user.members ≠ [] := by
  have written := user.mem_members_iff.mpr ⟨⟨0, by decide⟩, rfl, rfl⟩
  exact List.ne_nil_of_mem written

end GuildUser

/-- One more member stands behind a comma, in front of the closing brace. -/
theorem exists_front_membersForm {members : List (String × Bytes)} (notEmpty : members ≠ [])
    (key : String) (form : Bytes) :
    ∃ front, membersForm members = front ++ [Ascii.closeBrace] ∧
      membersForm (members ++ [(key, form)]) =
        front ++ Ascii.comma :: (quoted key ++ Ascii.colon :: form) ++ [Ascii.closeBrace] := by
  refine ⟨_, rfl, ?_⟩
  rw [membersForm, Json.objectForm, List.map_append, List.map_append, List.map_singleton,
    List.map_singleton, Json.separated_concat _ (by simpa using notEmpty), List.cons_append]
  rfl

/-! ## The main result -/

/-- **A guild user extends a user in documents.**  What is decoded as a guild user is decoded as its
user.  Where no key at the top level finds the membership, both are decoded alike, with the same
error if there is one, and the guild user has no membership.  A guild user without a membership is
written as its user, and one with a membership as its user with one more member in front of the
closing brace. -/
theorem GuildUser.extends_user (matching : KeyMatching) :
    (∀ (payload : Bytes) (guildUser : GuildUser),
      (decodeDocument Chat matching .guildUser payload).result = .ok guildUser →
        (decodeDocument Chat matching .user payload).result = .ok guildUser.user) ∧
    (∀ payload : Bytes,
      (∀ key ∈ documentKeys Chat matching .guildUser payload,
        Key.resolve (Chat.keys .guildUser) key matching ≠ some memberIndex) →
      (decodeDocument Chat matching .guildUser payload).result =
        (decodeDocument Chat matching .user payload).result.map fun user => make user none) ∧
    (∀ user : User,
      (Val.entity (make user none) : Chat.Value (.entity .guildUser)).toBytes =
        (Val.entity user : Chat.Value (.entity .user)).toBytes) ∧
    ∀ (user : User) (member : Member), ∃ front,
      (Val.entity user : Chat.Value (.entity .user)).toBytes = front ++ [Ascii.closeBrace] ∧
        (Val.entity (make user (some member)) : Chat.Value (.entity .guildUser)).toBytes =
          front ++ bytesOf ",\"member\":" ++
            (Val.entity member : Chat.Value (.entity .member)).toBytes ++ [Ascii.closeBrace] := by
  refine ⟨?_, ?_, ?_, ?_⟩
  · intro payload guildUser decoded
    have whole := result_decodeDocument Chat matching .guildUser payload
    rw [decoded] at whole
    have succeeded := Outcome.error_eq_none_of_follow (Outcome.result_eq_ok_iff.mp whole.symm).1
    rw [result_decodeDocument, (extends_whole (.inl succeeded)).result_eq, ← whole]
    rfl
  · intro payload unfound
    rw [result_decodeDocument, result_decodeDocument, (extends_whole (.inr unfound)).result_eq]
    have absent := member?_decodeObject unfound
    generalize decodeObject Chat matching (Chat.blankEntity .guildUser) (Lexer.ofBytes payload) =
      outcome at absent ⊢
    cases decoded : (outcome.follow id finishWith).result with
    | error error => rfl
    | ok guildUser =>
        have same := (Outcome.result_eq_ok_iff.mp decoded).2
        rw [(Outcome.follow_of_error_eq_none (Outcome.error_eq_none_of_follow
          (Outcome.result_eq_ok_iff.mp decoded).1) _ _).2.1] at same
        have alone : member? guildUser = none := by
          rw [← same]
          exact absent
        have made := make_user_member? guildUser
        rw [alone] at made
        exact congrArg Except.ok made.symm
  · intro user
    rw [Val.toBytes_entity Chat.isConsistent, Val.toBytes_entity Chat.isConsistent,
      members_make_none]
  · intro user member
    obtain ⟨front, alone, extended⟩ :=
      exists_front_membersForm (members_ne_nil user) "member"
        (Val.entity member : Chat.Value (.entity .member)).toBytes
    refine ⟨front, ?_, ?_⟩
    · rw [Val.toBytes_entity Chat.isConsistent, alone]
    · rw [Val.toBytes_entity Chat.isConsistent, members_make_some, extended]
      have mark : bytesOf ",\"member\":" = Ascii.comma :: (quoted "member" ++ [Ascii.colon]) := by
        decide +kernel
      rw [mark]
      simp only [List.append_assoc, List.cons_append, List.nil_append]

/-- A guild user with a membership, whose key is written in another case. -/
def guildUserPayload : Bytes :=
  bytesOf "\x7b\"id\":\"41\",\"Member\":\x7b\"nick\":\"m\",\"roles\":[7]\x7d,\"bot\":true\x7d"

/-- The user of the guild user is read, under exact matching the membership is unknown, and what is
malformed in a user is malformed in a guild user. -/
theorem GuildUser.extends_user_member :
    (decodeDocument Chat .lenient .user guildUserPayload).result =
        .ok (user (decodeDocument Chat .lenient .guildUser guildUserPayload).value) ∧
      (decodeDocument Chat .exact .guildUser guildUserPayload).result =
        (decodeDocument Chat .exact .user guildUserPayload).result.map
          (fun user => make user none) ∧
      (decodeDocument Chat .lenient .guildUser (bytesOf "\x7b\"bot\":1\x7d")).result =
        (decodeDocument Chat .lenient .user (bytesOf "\x7b\"bot\":1\x7d")).result.map
          fun user => make user none := by
  have succeeded : (decodeDocument Chat .lenient .guildUser guildUserPayload).error = none := by
    decide +kernel
  refine ⟨(extends_user .lenient).1 guildUserPayload _ ?_,
    (extends_user .exact).2.1 guildUserPayload (by decide +kernel),
    (extends_user .lenient).2.1 (bytesOf "\x7b\"bot\":1\x7d") (by decide +kernel)⟩
  rw [Outcome.result, succeeded]

end ChatCodec
