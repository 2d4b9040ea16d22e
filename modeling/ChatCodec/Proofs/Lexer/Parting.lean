import ChatCodec.Proofs.Lexer.Bodies

/-!
# Payloads that go alike

Two payloads go alike up to some place and then part (`Parting`).  Two lexers that stand
before the same bytes up to there (`Parting.Faces`) read copies of the same tokens
(`Parting.Copies`): the same kind, the same captured bytes, and the same source, at offsets
of their own.

* Payloads that never part are read alike to their end, faults included
  (`Parting.related_body`).
* Payloads that part are read alike as long as the tokens end before the parting, if what
  follows in the second payload does not go on with a number or a word
  (`Parting.Faces.exists_run`, `Parting.Faces.exists_value`).

The bytes between a copied token and a lexer that has come to a copied place are the same in
both payloads (`Parting.Copies.rawTo_eq`).
-/

namespace ChatCodec

set_option autoImplicit false

open Ascii (Stops)
open Scanned (Ends Reads)

/-- Two payloads that part: their lengths, and what each of them goes on with. -/
structure Parting where
  length : Nat
  length' : Nat
  rest : Bytes
  rest' : Bytes

namespace Parting

/-- The same bytes up to the parting, at a place of each payload. -/
def Shares (p : Parting) (place place' : Nat) (bytes bytes' : Bytes) : Prop :=
  ∃ front, bytes = front ++ p.rest ∧ bytes' = front ++ p.rest' ∧
    place + bytes.length = p.length ∧ place' + bytes'.length = p.length'

/-- The lexers are in order and have the same bytes before them up to the parting. -/
structure Faces (p : Parting) (lexer lexer' : Lexer) : Prop where
  going : lexer.fault = none
  going' : lexer'.fault = none
  ahead : p.Shares lexer.position lexer'.position lexer.ahead lexer'.ahead

/-- The lexemes are copies of the same token. -/
structure Copies (p : Parting) (lexeme lexeme' : Lexeme) : Prop where
  token_eq : lexeme'.token = lexeme.token
  output_eq : lexeme'.lexer.output = lexeme.lexer.output
  fault_eq : lexeme'.lexer.fault = lexeme.lexer.fault
  going : lexeme.token ≠ .error → lexeme.lexer.fault = none
  fromStart : p.Shares lexeme.lexer.start lexeme'.lexer.start lexeme.lexer.fromStart
    lexeme'.lexer.fromStart
  ahead : p.Shares lexeme.lexer.position lexeme'.lexer.position lexeme.lexer.ahead
    lexeme'.lexer.ahead

/-- The parting of two lexers in front of the same bytes. -/
def between (lexer lexer' : Lexer) (rest rest' : Bytes) : Parting :=
  ⟨lexer.position + lexer.ahead.length, lexer'.position + lexer'.ahead.length, rest, rest'⟩

theorem faces_between {lexer lexer' : Lexer} {front rest rest' : Bytes}
    (faces : lexer.Faces (front ++ rest)) (faces' : lexer'.Faces (front ++ rest')) :
    (between lexer lexer' rest rest').Faces lexer lexer' where
  going := faces.going
  going' := faces'.going
  ahead := ⟨front, faces.ahead_eq, faces'.ahead_eq, rfl, rfl⟩

/-- The payloads of a parting, as if they did not part. -/
def closed (p : Parting) : Parting := ⟨p.length, p.length', [], []⟩

variable {p : Parting} {lexer lexer' : Lexer} {lexeme lexeme' : Lexeme}

/-- Behind a copied token the lexers have the same bytes before them. -/
theorem Copies.faces (copies : p.Copies lexeme lexeme') (read : lexeme.token ≠ .error) :
    p.Faces lexeme.lexer lexeme'.lexer where
  going := copies.going read
  going' := by rw [copies.fault_eq, copies.going read]
  ahead := copies.ahead

/-- **The bytes from a copied token on are the same.** -/
theorem Copies.rawTo_eq (copies : p.Copies lexeme lexeme') (faces : p.Faces lexer lexer') :
    lexeme'.lexer.rawTo lexer' = lexeme.lexer.rawTo lexer := by
  obtain ⟨front, same, same', place, place'⟩ := copies.fromStart
  obtain ⟨behind, ahead, ahead', ends, ends'⟩ := faces.ahead
  rw [same, List.length_append] at place
  rw [same', List.length_append] at place'
  rw [ahead, List.length_append] at ends
  rw [ahead', List.length_append] at ends'
  have length : lexer.position - lexeme.lexer.start = front.length - behind.length := by omega
  have length' : lexer'.position - lexeme'.lexer.start = front.length - behind.length := by omega
  rw [Lexer.rawTo, Lexer.rawTo, same, same', length, length',
    List.take_append_of_le_length (Nat.sub_le _ _), List.take_append_of_le_length (Nat.sub_le _ _)]

/-! ## Payloads that do not part -/

/-- **Where the payloads do not part, the next tokens are copies**, also at the end and at
a fault. -/
theorem Faces.copies_scan_of_closed (faces : p.closed.Faces lexer lexer') :
    p.closed.Copies lexer.scan lexer'.scan := by
  obtain ⟨going, going', front, ahead, ahead', ends, ends'⟩ := faces
  rw [show p.closed.rest = [] from rfl, List.append_nil] at ahead
  rw [show p.closed.rest' = [] from rfl, List.append_nil] at ahead'
  rw [ahead] at ends
  rw [ahead'] at ends'
  have whole := congrArg List.length
    (List.takeWhile_append_dropWhile (p := Ascii.isSpace) (l := front))
  rw [List.length_append] at whole
  rw [Lexer.scan, Lexer.scan, going, going']
  simp only [ahead, ahead']
  generalize front.takeWhile Ascii.isSpace = spaces at whole ⊢
  generalize front.dropWhile Ascii.isSpace = text at whole ⊢
  have stretch : ∀ length, length ≤ text.length → p.closed.Shares
      (lexer.position + spaces.length + length) (lexer'.position + spaces.length + length)
      (text.drop length) (text.drop length) := by
    intro length within
    refine ⟨text.drop length, (List.append_nil _).symm, (List.append_nil _).symm, ?_, ?_⟩ <;>
      · rw [List.length_drop]
        omega
  cases scanned : Scanned.ofBytes text with
  | token token length output =>
      exact ⟨rfl, rfl, rfl, fun _ => rfl, stretch 0 (Nat.zero_le _),
        stretch length (Scanned.length_le_of_token scanned)⟩
  | fault reason length =>
      exact ⟨rfl, rfl, rfl, fun read => absurd rfl read, stretch 0 (Nat.zero_le _),
        stretch length (Scanned.length_le_of_fault scanned)⟩

theorem Copies.role_eq (copies : p.Copies lexeme lexeme') :
    lexeme.token.role = lexeme'.token.role := by
  rw [copies.token_eq]

/-- Where the payloads do not part, so are all tokens up to the last. -/
theorem Faces.copies_stream_of_closed {lexer lexer' : Lexer}
    (faces : p.closed.Faces lexer lexer') :
    List.Forall₂ p.closed.Copies lexer.stream.lexemes lexer'.stream.lexemes ∧
      p.closed.Copies lexer.stream.last lexer'.stream.last := by
  have copies := faces.copies_scan_of_closed
  have same : lexer'.scan.token.isFinal = lexer.scan.token.isFinal := by rw [copies.token_eq]
  cases going : lexer.scan.token.isFinal with
  | false =>
      have shorter := Lexer.scan_ahead_lt lexer going
      obtain ⟨all, last⟩ :=
        (copies.faces (Lexer.ne_error_of_going going)).copies_stream_of_closed
      rw [Lexer.stream_of_going going, Lexer.stream_of_going (same.trans going)]
      exact ⟨.cons copies all, last⟩
  | true =>
      rw [Lexer.stream_of_final going, Lexer.stream_of_final (same.trans going)]
      exact ⟨.nil, copies⟩
termination_by lexer.ahead.length

/-- **Lexers in front of payloads that do not part** have copies of the same body before
them. -/
theorem Faces.related_body (faces : p.closed.Faces lexer lexer') :
    lexer.body.Related p.closed.Copies lexer'.body := by
  obtain ⟨all, last⟩ := faces.copies_stream_of_closed
  exact (Body.related_levels (fun _ _ copies => copies.role_eq) last all).1

/-! ## In front of a parting -/

/-- **A token that ends before the parting is copied.** -/
theorem Faces.copies_scan (faces : p.Faces lexer lexer') (ends : Ends p.rest')
    (going : lexer.scan.token.isFinal = false)
    (within : ∃ front, lexer.scan.lexer.ahead = front ++ p.rest) :
    p.Copies lexer.scan lexer'.scan := by
  obtain ⟨-, going', front, ahead, ahead', place, place'⟩ := faces
  obtain ⟨behind, behindToken⟩ := within
  obtain ⟨spaces, -, blank, whole, reads, settled, start, position, fromStart⟩ :=
    Lexer.exists_spaces (Lexer.ne_error_of_going going)
  have begun := Lexer.ne_eof_of_going going
  rw [behindToken] at whole reads fromStart
  have split : front = spaces ++ (lexer.scan.source ++ behind) := by
    rw [ahead] at whole
    refine (List.append_left_inj p.rest).mp ?_
    rw [whole]
    simp only [List.append_assoc]
  have reads' : Reads lexer.scan.token lexer.scan.source lexer.scan.lexer.output
      (behind ++ p.rest') := by
    apply reads.replace begun
    cases behind with
    | nil => exact .inr ends
    | cons byte tail => exact .inl rfl
  have scan' := Lexer.scan_of_reads going'
    (show lexer'.ahead = spaces ++ (lexer.scan.source ++ (behind ++ p.rest')) by
      rw [ahead', split]
      simp only [List.append_assoc]) blank reads'.stops_space reads'
  rw [ahead, split] at place
  rw [ahead', split] at place'
  simp only [List.length_append] at place place'
  refine ⟨by rw [scan'], by rw [scan'], by rw [scan', settled], fun _ => settled, ?_, ?_⟩
  · refine ⟨lexer.scan.source ++ behind, ?_, ?_, ?_, ?_⟩
    · rw [fromStart, List.append_assoc]
    · rw [scan', List.append_assoc]
    · rw [start, fromStart]
      simp only [List.length_append]
      omega
    · rw [scan']
      simp only [List.length_append]
      omega
  · refine ⟨behind, behindToken, by rw [scan'], ?_, ?_⟩
    · rw [position, start, behindToken]
      simp only [List.length_append]
      omega
    · rw [scan']
      simp only [List.length_append]
      omega

/-- **A run that ends before the parting is copied.** -/
theorem Faces.exists_run {items : List Lexeme} {last : Lexer} (run : Lexer.Run lexer items last)
    (ends : Ends p.rest') (within : ∃ front, last.ahead = front ++ p.rest) :
    ∀ {lexer' : Lexer}, p.Faces lexer lexer' →
      ∃ items' last', Lexer.Run lexer' items' last' ∧ List.Forall₂ p.Copies items items' ∧
        p.Faces last last' := by
  induction run with
  | nil lexer =>
      intro lexer' faces
      exact ⟨[], lexer', .nil lexer', .nil, faces⟩
  | @cons lexer last items going following ih =>
      intro lexer' faces
      obtain ⟨front, behind⟩ := within
      obtain ⟨consumed, ahead, -⟩ := following.leadsTo
      have copies := faces.copies_scan ends going
        ⟨consumed ++ front, by rw [ahead, behind, List.append_assoc]⟩
      obtain ⟨items', last', run', all, behindLast⟩ :=
        ih ⟨front, behind⟩ (copies.faces (Lexer.ne_error_of_going going))
      have going' : lexer'.scan.token.isFinal = false := by rw [copies.token_eq, going]
      exact ⟨lexer'.scan :: items', last', .cons going' run', .cons copies all, behindLast⟩

/-- **A nested value that ends before the parting is copied**, with what is behind it. -/
theorem Faces.exists_value (faces : p.Faces lexer lexer') (ends : Ends p.rest')
    (isValue : lexer.scan.token.isValue = true)
    (nested : (lexer.scan.lexer.tree lexer.scan.token).IsNested fun lexeme => lexeme.token.role)
    (within : ∃ front,
      (lexer.scan.lexer.tree lexer.scan.token).last.lexer.ahead = front ++ p.rest) :
    p.Copies lexer.scan lexer'.scan ∧
      (lexer.scan.lexer.tree lexer.scan.token).Related p.Copies
        (lexer'.scan.lexer.tree lexer'.scan.token) ∧
      p.Faces (lexer.scan.lexer.tree lexer.scan.token).last.lexer
        (lexer'.scan.lexer.tree lexer'.scan.token).last.lexer := by
  obtain ⟨rest, found⟩ := Lexer.exists_body_of_isValue isValue
  obtain ⟨run, -⟩ := Lexer.run_of_body found nested
  obtain ⟨items', last', run', all, behind⟩ := faces.exists_run run ends within
  obtain ⟨tree', rfl, alike⟩ := Tree.exists_related all.flip
  have related : (lexer.scan.lexer.tree lexer.scan.token).Related p.Copies tree' := alike.flip
  have nested' := related.isNested (fun _ _ copies => copies.role_eq) nested
  have head : p.Copies lexer.scan tree'.head := by
    have copies := related.head
    rwa [Lexer.head_tree] at copies
  rw [run'.head_eq] at head
  have isValue' : lexer'.scan.token.isValue = true := by rw [head.token_eq, isValue]
  obtain ⟨rest', found'⟩ := Lexer.exists_body_of_isValue isValue'
  rw [run'.body_eq_more nested'] at found'
  obtain ⟨rfl, -⟩ := Body.more.inj found'
  obtain rfl := run'.last_eq
  exact ⟨head, related, behind⟩

end Parting

end ChatCodec
