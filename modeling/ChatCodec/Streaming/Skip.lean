import ChatCodec.Streaming.Outcome
import ChatCodec.Lexer.Nested

/-!
# Skipping values

A value that nobody wants is skipped: it is held to the grammar, and nothing is
decoded.  The grammar is tolerant in one point, a comma may also stand before a
closing bracket.

The places in an object and in an array at which a token may stand
(`MemberPlace`, `ItemPlace`) are those of decoding as well, and what does not fit
is refused in the same words (`Lexeme.refuse`).
-/

namespace ChatCodec

set_option autoImplicit false

/-- A place in an object. -/
inductive MemberPlace where
  /-- Behind the opening brace or a comma. -/
  | key
  | colon
  | value
  /-- Behind a value. -/
  | separator
  deriving DecidableEq, Repr

namespace MemberPlace

/-- What the grammar wants at a place. -/
def wanted : MemberPlace → Wanted
  | key => .token .string
  | colon => .token .colon
  | value => .value
  | separator => .token .comma

/-- The object may end where a key or a comma may stand. -/
def mayEnd : MemberPlace → Bool
  | key | separator => true
  | colon | value => false

end MemberPlace

/-- A place in an array. -/
inductive ItemPlace where
  /-- Behind the opening bracket or a comma. -/
  | item
  /-- Behind an item. -/
  | separator
  deriving DecidableEq, Repr

/-- What the grammar wants at a place. -/
def ItemPlace.wanted : ItemPlace → Wanted
  | item => .value
  | separator => .token .comma

/-- The error of a token that stands where something else is wanted. -/
def Lexeme.refuse (lexeme : Lexeme) (wanted : Wanted) : DecodeError :=
  if lexeme.token = .error then lexeme.lexer.faultError
  else lexeme.lexer.wrongToken wanted lexeme.token

/-- Decoding stops at a token that stands where something else is wanted. -/
def Outcome.refuse {Value : Type} (value : Value) (lexeme : Lexeme) (wanted : Wanted) :
    Outcome Value :=
  .fail value (lexeme.refuse wanted) lexeme.lexer

mutual

/-- Skips a value. -/
def skipTree : Tree Lexeme → Outcome Unit
  | .leaf lexeme =>
      if lexeme.token.isScalar then .done () lexeme.lexer else .refuse () lexeme .value
  | .group opening body =>
      if opening.token = .objectStart then skipMembers .key body else skipItems .item body

/-- Skips the rest of an object. -/
def skipMembers (place : MemberPlace) : Body Lexeme → Outcome Unit
  | .close ending =>
      if ending.token = .objectEnd ∧ place.mayEnd then .done () ending.lexer
      else .refuse () ending place.wanted
  | .more tree rest =>
      match place with
      | .key =>
          if tree.head.token = .string then skipMembers .colon rest
          else .refuse () tree.head place.wanted
      | .colon =>
          if tree.head.token = .colon then skipMembers .value rest
          else .refuse () tree.head place.wanted
      | .value =>
          if tree.head.token.isValue then
            (skipTree tree).follow id fun _ _ => skipMembers .separator rest
          else .refuse () tree.head place.wanted
      | .separator =>
          if tree.head.token = .comma then skipMembers .key rest
          else .refuse () tree.head place.wanted

/-- Skips the rest of an array. -/
def skipItems (place : ItemPlace) : Body Lexeme → Outcome Unit
  | .close ending =>
      if ending.token = .arrayEnd then .done () ending.lexer
      else .refuse () ending place.wanted
  | .more tree rest =>
      match place with
      | .item =>
          if tree.head.token.isValue then
            (skipTree tree).follow id fun _ _ => skipItems .separator rest
          else .refuse () tree.head place.wanted
      | .separator =>
          if tree.head.token = .comma then skipItems .item rest
          else .refuse () tree.head place.wanted

end

namespace Lexer

/-- Skips the value that begins with a token. -/
def skipValue (lexer : Lexer) (token : Token) : Outcome Unit := skipTree (lexer.tree token)

/-- Skips the value that begins with a token, and captures its bytes. -/
def captureValue (lexer : Lexer) (token : Token) : Outcome Bytes :=
  let skipped := lexer.skipValue token
  skipped.map fun _ => lexer.rawTo skipped.lexer

/-- Nothing but white space may follow. -/
def finish (lexer : Lexer) : Outcome Unit :=
  let next := lexer.scan
  if next.token = .eof then .done () next.lexer else .refuse () next (.token .eof)

end Lexer

end ChatCodec
