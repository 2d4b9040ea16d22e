import ChatCodec.Streaming.Skip
import ChatCodec.Json.Reader
import ChatCodec.Schema.Catalog

/-!
# Decoding scalars

How each kind of scalar is read from one token.  A `null` keeps what is there.  A
token of the right kind is read, and is malformed if its bytes are no such scalar;
any other token is a mismatch.  A scalar is replaced as a whole or not at all.

Opaque JSON is no scalar in this sense: it takes any value, captures its bytes, and
hands them to the strict reader (`decodeOpaque`).
-/

namespace ChatCodec

set_option autoImplicit false

/-- The truth value of a literal. -/
def readBool? (bytes : Bytes) : Option Bool :=
  if bytes = bytesOf "true" then some true
  else if bytes = bytesOf "false" then some false
  else none

/-- The integer of a literal, if the type has it. -/
def Width.read? (width : Width) (bytes : Bytes) : Option (Sized width) :=
  if width.isSigned then (Decimal.readInteger? bytes).bind (Sized.ofInt? width)
  else (Decimal.readNatural? bytes).bind fun number => Sized.ofInt? width number

/-- The value of an enumeration of a literal. -/
def CodeKind.read? (kind : CodeKind) (bytes : Bytes) : Option kind.Carrier :=
  (Decimal.readNatural? bytes).bind fun number =>
    if number < 256 then kind.ofCode? (UInt8.ofNat number) else none

/-- The identifier of a literal or a text. -/
def Id.read? {resource : Resource} (bytes : Bytes) : Option (Id resource) :=
  (Decimal.readNatural? bytes).map fun word => ⟨UInt64.ofNat word⟩

/-- The flags of a literal. -/
def MessageFlags.read? (bytes : Bytes) : Option MessageFlags :=
  (Decimal.readNatural? bytes).map fun word => ⟨UInt64.ofNat word⟩

/-- A scalar that was read, or else the error of captured bytes that are no such
scalar. -/
def Lexer.orMalformed {Value : Type} (lexer : Lexer) (title : String) (token : Token)
    (value : Option Value) : Except DecodeError Value :=
  match value with
  | some value => .ok value
  | none => .error (lexer.malformed title token)

/-- The timestamp of the captured text. -/
def Lexer.readTimestamp (lexer : Lexer) (token : Token) : Except DecodeError Timestamp :=
  match lexer.outputText with
  | .error error => .error error
  | .ok _ =>
      match Timestamp.parse lexer.output with
      | .ok value => .ok value
      | .error error => .error (lexer.errorAt (.rejected (.timestamp error)) token)

namespace Scalar

/-- Whether a kind of scalar is read from tokens of some kind. -/
def accepts : Scalar → Token → Bool
  | bool, .bool => true
  | integer _, .integer => true
  | text, .string => true
  | id _, .string | id _, .integer => true
  | timestamp, .string => true
  | flags, .integer => true
  | code _, .integer => true
  | _, _ => false

/-- The scalar of the bytes captured for a token that its kind accepts. -/
def read (lexer : Lexer) (token : Token) : (kind : Scalar) → Except DecodeError kind.Carrier
  | bool => lexer.orMalformed bool.title token (readBool? lexer.output)
  | integer width => lexer.orMalformed width.title token (width.read? lexer.output)
  | text => lexer.outputText
  | opaqueJson => lexer.orMalformed opaqueJson.title token none
  | id resource => lexer.orMalformed (id resource).title token (Id.read? lexer.output)
  | timestamp => lexer.readTimestamp token
  | flags => lexer.orMalformed flags.title token (MessageFlags.read? lexer.output)
  | code kind => lexer.orMalformed kind.title token (kind.read? lexer.output)

end Scalar

/-- Decodes opaque JSON: the value is skipped, and its bytes go to the strict reader. -/
def decodeOpaque (tree : Tree Lexeme) (before : Json.Value) : Outcome Json.Value :=
  (skipTree tree).follow (fun _ => before) fun _ ending =>
    let raw := tree.head.lexer.rawTo ending
    match Json.Value.ofDocument raw with
    | .ok value => .done value ending
    | .error fault =>
        .fail before
          { cause := .rejected (.json fault)
            offset := tree.head.lexer.start
            token := tree.head.token
            output := some (DecodeError.shownOutput raw) }
          ending

/-- Decodes a scalar from a value. -/
def Scalar.decode (kind : Scalar) (tree : Tree Lexeme) (before : kind.Carrier) :
    Outcome kind.Carrier :=
  match kind with
  | .opaqueJson => decodeOpaque tree before
  | kind =>
      let lexer := tree.head.lexer
      let token := tree.head.token
      if token = .null then .done before lexer
      else if kind.accepts token then
        match Scalar.read lexer token kind with
        | .ok value => .done value lexer
        | .error error => .fail before error lexer
      else .fail before (lexer.mismatch kind.title token) lexer

end ChatCodec
