import ChatCodec.Error
import ChatCodec.Nesting

/-!
# Nested tokens

The tokens that a lexer has before it, grouped by their brackets.  `Lexer.tree` is
the value that begins with a token, and `Lexer.body` what follows up to the next
unmatched closing bracket.

The token of a value and the lexer are given apart.  As a rule the token is the one
that the lexer has read last, but a caller may also ask what the lexer's position
would mean behind some other token.
-/

namespace ChatCodec

set_option autoImplicit false

/-- The part that a token plays in the nesting. -/
def Token.role (token : Token) : Role :=
  if token.isOpening then .opens else if token.isClosing then .closes else .stands

namespace Lexer

/-- What the lexer has before it, up to the next unmatched closing token. -/
def body (lexer : Lexer) : Body Lexeme :=
  let stream := lexer.stream
  Body.ofList (fun lexeme => lexeme.token.role) stream.last stream.lexemes

/-- The value that begins with a token behind which the lexer stands. -/
def tree (lexer : Lexer) (token : Token) : Tree Lexeme :=
  if token.isOpening then .group ⟨token, lexer⟩ lexer.body else .leaf ⟨token, lexer⟩

end Lexer

end ChatCodec
