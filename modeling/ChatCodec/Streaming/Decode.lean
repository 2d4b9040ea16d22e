import ChatCodec.Streaming.Scalar
import ChatCodec.Key

/-!
# Decoding

Decoding writes the value that begins with a token into a value of a given shape,
member by member, and builds no tree of values on the way.

* A `null` keeps a scalar and an entity as they are, empties a sequence, and makes
  an optional value absent.
* A sequence is emptied and filled again; an optional value is replaced as a whole
  or not at all; an entity is written member by member and keeps the fields that no
  member names.
* The key of a member is resolved among the keys of the entity's fields; a member
  whose key resolves to none is noted and skipped.

All recursion follows the nesting of the tokens.  `decodeTree` also descends through
optional values, which does not consume a token, by the helpers `decodeLeaf` and
`decodeGroup`.
-/

namespace ChatCodec

set_option autoImplicit false

/-- Decodes a value into the field of a given number.  A number that no field has skips
the value. -/
def Record.decodeAt {Name : Type} {fields : Name → List (Field Name)} (tree : Tree Lexeme)
    (decode : (shape : Shape Name) → Val fields shape → Outcome (Val fields shape)) :
    {list : List (Field Name)} → Nat → Record fields list → Outcome (Record fields list)
  | [], _, .nil => (skipTree tree).map fun _ => .nil
  | field :: _, 0, .cons head tail => (decode field.shape head).map fun head => .cons head tail
  | _ :: _, index + 1, .cons head tail =>
      (decodeAt tree decode index tail).map fun tail => .cons head tail

section

variable (C : Catalog)

/-- Decodes from a value that is one token. -/
def decodeLeaf (lexeme : Lexeme) : (shape : C.Shape) → C.Value shape → Outcome (C.Value shape)
  | .scalar kind, .scalar before =>
      (kind.decode (.leaf lexeme) before).map .scalar
  | .option inner, before =>
      if lexeme.token = .null then .done .none lexeme.lexer
      else (decodeLeaf lexeme inner (C.blank inner)).replace before .some
  | .list _, before =>
      if lexeme.token = .null then .done (.list .nil) lexeme.lexer
      else .fail before (lexeme.lexer.mismatch "array" lexeme.token) lexeme.lexer
  | .entity name, before =>
      if lexeme.token = .null then .done before lexeme.lexer
      else .fail before (lexeme.lexer.mismatch (C.title name) lexeme.token) lexeme.lexer

/-- Decodes from a value that has a body: `members` decodes the body as the members of
an entity, and `items` decodes it as the items of a sequence. -/
def decodeGroup (opening : Lexeme) (body : Body Lexeme)
    (members : (name : C.Name) → C.Entity name → Outcome (C.Entity name))
    (items : (inner : C.Shape) → Outcome (C.Sequence inner)) :
    (shape : C.Shape) → C.Value shape → Outcome (C.Value shape)
  | .scalar kind, .scalar before => (kind.decode (.group opening body) before).map .scalar
  | .option inner, before =>
      (decodeGroup opening body members items inner (C.blank inner)).replace before .some
  | .list inner, before =>
      if opening.token = .arrayStart then (items inner).map .list
      else .fail before (opening.lexer.mismatch "array" opening.token) opening.lexer
  | .entity name, .entity before =>
      if opening.token = .objectStart then (members name before).map .entity
      else
        .fail (.entity before) (opening.lexer.mismatch (C.title name) opening.token) opening.lexer

variable (matching : KeyMatching)

mutual

/-- Decodes a value. -/
def decodeTree : Tree Lexeme → (shape : C.Shape) → C.Value shape → Outcome (C.Value shape)
  | .leaf lexeme => decodeLeaf C lexeme
  | .group opening body =>
      decodeGroup C opening body
        (fun name record => decodeMembers body name .key none record)
        (fun inner => decodeItems body inner .item)

/-- Decodes the rest of an object.  `current` is the number of the field that the key
read last has found. -/
def decodeMembers : Body Lexeme → (name : C.Name) → MemberPlace → Option Nat →
    C.Entity name → Outcome (C.Entity name)
  | .close ending, _, place, _, record =>
      if ending.token = .objectEnd ∧ place.mayEnd then .done record ending.lexer
      else .refuse record ending place.wanted
  | .more tree rest, name, place, current, record =>
      match place with
      | .key =>
          if tree.head.token = .string then
            let key := tree.head.lexer.output
            match Key.resolve (C.keys name) key matching with
            | some index => decodeMembers rest name .colon (some index) record
            | none =>
                (decodeMembers rest name .colon none record).note
                  (.unknownKey (C.title name) (Utf8.decodeLossy key))
          else .refuse record tree.head place.wanted
      | .colon =>
          if tree.head.token = .colon then decodeMembers rest name .value current record
          else .refuse record tree.head place.wanted
      | .value =>
          if tree.head.token.isValue then
            let written :=
              match current with
              | some index =>
                  record.decodeAt tree (fun shape before => decodeTree tree shape before) index
              | none => (skipTree tree).map fun _ => record
            written.follow id fun record _ => decodeMembers rest name .separator none record
          else .refuse record tree.head place.wanted
      | .separator =>
          if tree.head.token = .comma then decodeMembers rest name .key none record
          else .refuse record tree.head place.wanted

/-- Decodes the rest of an array. -/
def decodeItems : Body Lexeme → (inner : C.Shape) → ItemPlace → Outcome (C.Sequence inner)
  | .close ending, _, place =>
      if ending.token = .arrayEnd then .done .nil ending.lexer
      else .refuse .nil ending place.wanted
  | .more tree rest, inner, place =>
      match place with
      | .item =>
          if tree.head.token.isValue then
            (decodeTree tree inner (C.blank inner)).follow (fun _ => .nil) fun head _ =>
              (decodeItems rest inner .separator).map fun tail => .cons head tail
          else .refuse .nil tree.head place.wanted
      | .separator =>
          if tree.head.token = .comma then decodeItems rest inner .item
          else .refuse .nil tree.head place.wanted

end

/-! ## Entry points -/

/-- Decodes the value that begins with a token behind which the lexer stands. -/
def decodeInto {shape : C.Shape} (before : C.Value shape) (lexer : Lexer) (token : Token) :
    Outcome (C.Value shape) :=
  decodeTree C matching (lexer.tree token) shape before

/-- Decodes into the field of a given number the value that begins with a token. -/
def decodeField {name : C.Name} (before : C.Entity name) (index : Nat) (lexer : Lexer)
    (token : Token) : Outcome (C.Entity name) :=
  let tree := lexer.tree token
  before.decodeAt tree (fun shape before => decodeTree C matching tree shape before) index

/-- Decodes the rest of an object from a place in it on.  The key read last found no
field. -/
def decodeFrom {name : C.Name} (before : C.Entity name) (place : MemberPlace) (lexer : Lexer) :
    Outcome (C.Entity name) :=
  decodeMembers C matching lexer.body name place none before

/-- Decodes an object that comes next. -/
def decodeObject {name : C.Name} (before : C.Entity name) (lexer : Lexer) :
    Outcome (C.Entity name) :=
  let first := lexer.scan
  if first.token = .objectStart then decodeFrom C matching before .key first.lexer
  else .refuse before first (.token .objectStart)

/-- Ends decoding: nothing but white space may follow. -/
def finishWith {Value : Type} (value : Value) (lexer : Lexer) : Outcome Value :=
  lexer.finish.map fun _ => value

/-- Decodes a payload that holds one value. -/
def decodePayload (shape : C.Shape) (payload : Bytes) : Outcome (C.Value shape) :=
  let first := (Lexer.ofBytes payload).scan
  if first.token.isValue then
    (decodeInto C matching (C.blank shape) first.lexer first.token).follow id finishWith
  else .refuse (C.blank shape) first .value

/-- Decodes a payload that holds one object.  A failure is noted. -/
def decodeDocument (name : C.Name) (payload : Bytes) : Outcome (C.Entity name) :=
  let outcome :=
    (decodeObject C matching (C.blankEntity name) (Lexer.ofBytes payload)).follow id finishWith
  match outcome.error with
  | none => outcome
  | some error => { outcome with events := outcome.events ++ [.failed (C.title name) error] }

end

end ChatCodec
