import ChatCodec.Json.Piece
import ChatCodec.Json.Value

/-!
# The strict reader

Reads opaque JSON from a document grouped into pieces.  The grammar is the strict
one: no trailing commas, members and items separated by commas, at most
`nestingLimit` levels of brackets.

Two recursions follow the grouping.  `passValue` goes over a value that nobody
wants; it holds it to the grammar and to nothing else, so neither depth nor
surrogates nor UTF-8 nor the size of numbers matter.  `readValue` reads a value.

Both walk a body piece by piece.  A `Stage` says what the walk has behind it, and
what stands in the way of it is refused according to the stage
(`Stage.refuse`).
-/

namespace ChatCodec

set_option autoImplicit false

namespace Json

/-- The number of brackets that may be open at once. -/
abbrev nestingLimit : Nat := 127

/-- What lies behind the walk through a body. -/
inductive Stage where
  /-- The opening bracket. -/
  | opened
  /-- A comma. -/
  | separated
  /-- A key. -/
  | named
  /-- A colon. -/
  | announced
  /-- A whole member or item. -/
  | filled
  deriving DecidableEq, Repr

/-- The refusal of a piece that ends a body of an object where it may not end. -/
def Stage.refuseInObject : Stage → Piece → Fault
  | _, .broken fault => fault
  | .opened, .eof | .filled, .eof | .named, .eof => .eofInObject
  | .separated, .eof | .announced, .eof => .eofInValue
  | .opened, _ => .keyMustBeString
  | .separated, .mark .objectEnd => .trailingComma
  | .separated, _ => .keyMustBeString
  | .named, _ => .expectedColon
  | .announced, _ => .expectedValue
  | .filled, _ => .expectedObjectCommaOrEnd

/-- The refusal of a piece that does not fit into a body of an array. -/
def Stage.refuseInArray : Stage → Piece → Fault
  | _, .broken fault => fault
  | .opened, .eof | .filled, .eof => .eofInList
  | _, .eof => .eofInValue
  | .separated, .mark .arrayEnd => .trailingComma
  | .filled, _ => .expectedListCommaOrEnd
  | _, _ => .expectedValue

/-- Whether a piece is the given mark. -/
def Piece.isMark (piece : Piece) (token : Token) : Bool := piece == .mark token

/-- The key that a scalar piece holds: the bytes behind its opening quote. -/
def Piece.key? : Piece → Option Bytes
  | .scalar (byte :: rest) => if byte = Ascii.quote then some rest else none
  | _ => none

/-! ## Passing over a value -/

mutual

/-- Goes over a value. -/
def passValue : Tree Piece → Except Fault Unit
  | .leaf (.scalar source) => (Scalar.pass source).map fun _ => ()
  | .leaf piece => .error (Stage.announced.refuseInObject piece)
  | .group opening body =>
      if opening.isMark .objectStart then passMembers .opened body
      else passItems .opened body

/-- Goes over the members of an object. -/
def passMembers (stage : Stage) : Body Piece → Except Fault Unit
  | .close ending =>
      if ending.isMark .objectEnd ∧ (stage = .opened ∨ stage = .filled) then .ok ()
      else .error (stage.refuseInObject ending)
  | .more tree rest =>
      match stage with
      | .opened | .separated =>
          match tree.head.key? with
          | some _ => do passValue tree; passMembers .named rest
          | none => .error (stage.refuseInObject tree.head)
      | .named =>
          if tree.head.isMark .colon then passMembers .announced rest
          else .error (stage.refuseInObject tree.head)
      | .announced => do passValue tree; passMembers .filled rest
      | .filled =>
          if tree.head.isMark .comma then passMembers .separated rest
          else .error (stage.refuseInObject tree.head)

/-- Goes over the items of an array. -/
def passItems (stage : Stage) : Body Piece → Except Fault Unit
  | .close ending =>
      if ending.isMark .arrayEnd ∧ (stage = .opened ∨ stage = .filled) then .ok ()
      else .error (stage.refuseInArray ending)
  | .more tree rest =>
      match stage with
      | .filled =>
          if tree.head.isMark .comma then passItems .separated rest
          else .error (stage.refuseInArray tree.head)
      | _ => do passValue tree; passItems .filled rest

end

section

variable {stage : Stage} {tree : Tree Piece} {rest : Body Piece}

/-- A key is awaited behind an opening brace and behind a comma. -/
theorem passMembers_awaited (awaited : stage = .opened ∨ stage = .separated) :
    passMembers stage (.more tree rest) =
      match tree.head.key? with
      | some _ => do passValue tree; passMembers .named rest
      | none => .error (stage.refuseInObject tree.head) := by
  rcases awaited with rfl | rfl <;> rw [passMembers]

/-- An item is awaited wherever there is none yet. -/
theorem passItems_awaited (awaited : stage ≠ .filled) :
    passItems stage (.more tree rest) = (do passValue tree; passItems .filled rest) := by
  rw [passItems]
  exact awaited

end

/-! ## Reading a value -/

/-- The value of a scalar. -/
def Atom.value : Atom → Value
  | .null => .null
  | .bool value => .bool value
  | .number value => .number value
  | .text value => .text value

mutual

/-- Reads a value inside of which `allowed` more brackets may be open. -/
def readValue (allowed : Nat) : Tree Piece → Except Fault Value
  | .leaf (.scalar source) => (Atom.read source).map Atom.value
  | .leaf piece => .error (Stage.announced.refuseInObject piece)
  | .group opening body =>
      match allowed with
      | 0 => .error .recursionLimit
      | allowed + 1 =>
          if opening.isMark .objectStart then
            (readMembers allowed .opened "" .nil body).map .object
          else (readItems allowed .opened body).map .array

/-- Reads the members of an object into those that were read before.  `key` is the
key read last. -/
def readMembers (allowed : Nat) (stage : Stage) (key : String) (before : Members) :
    Body Piece → Except Fault Members
  | .close ending =>
      if ending.isMark .objectEnd ∧ (stage = .opened ∨ stage = .filled) then .ok before
      else .error (stage.refuseInObject ending)
  | .more tree rest =>
      match stage with
      | .opened | .separated =>
          match tree.head.key? with
          | some bytes => do
              let key ← readText bytes
              readMembers allowed .named key before rest
          | none => .error (stage.refuseInObject tree.head)
      | .named =>
          if tree.head.isMark .colon then readMembers allowed .announced key before rest
          else .error (stage.refuseInObject tree.head)
      | .announced => do
          let value ← readValue allowed tree
          readMembers allowed .filled key (before.insert key value) rest
      | .filled =>
          if tree.head.isMark .comma then readMembers allowed .separated key before rest
          else .error (stage.refuseInObject tree.head)

/-- Reads the items of an array. -/
def readItems (allowed : Nat) (stage : Stage) : Body Piece → Except Fault Items
  | .close ending =>
      if ending.isMark .arrayEnd ∧ (stage = .opened ∨ stage = .filled) then .ok .nil
      else .error (stage.refuseInArray ending)
  | .more tree rest =>
      match stage with
      | .filled =>
          if tree.head.isMark .comma then readItems allowed .separated rest
          else .error (stage.refuseInArray tree.head)
      | _ => do
          let head ← readValue allowed tree
          let tail ← readItems allowed .filled rest
          return .cons head tail

end

section

variable {allowed : Nat} {stage : Stage} {tree : Tree Piece} {rest : Body Piece}

theorem readMembers_awaited {key : String} {before : Members}
    (awaited : stage = .opened ∨ stage = .separated) :
    readMembers allowed stage key before (.more tree rest) =
      match tree.head.key? with
      | some bytes => do
          let key ← readText bytes
          readMembers allowed .named key before rest
      | none => .error (stage.refuseInObject tree.head) := by
  rcases awaited with rfl | rfl <;> rw [readMembers]

theorem readItems_awaited (awaited : stage ≠ .filled) :
    readItems allowed stage (.more tree rest) = do
      let head ← readValue allowed tree
      let tail ← readItems allowed .filled rest
      return .cons head tail := by
  rw [readItems]
  exact awaited

end

/-! ## Whole documents -/

/-- Reads a document that holds one value and nothing else. -/
def readDocument {Result : Type} (read : Tree Piece → Except Fault Result) (document : Bytes) :
    Except Fault Result :=
  match Piece.body document with
  | .close ending => .error (Stage.announced.refuseInObject ending)
  | .more tree rest => do
      let result ← read tree
      match rest with
      | .close .eof => .ok result
      | .close (.broken fault) => .error fault
      | _ => .error .trailingCharacters

/-- The opaque JSON of a document. -/
def Value.ofDocument (document : Bytes) : Except Fault Value :=
  readDocument (readValue nestingLimit) document

end Json

end ChatCodec
