/-!
# Nested bodies

A stream of tokens is flat, and the values of a document are nested.  Between the
two stands the grouping of a stream by its brackets: a `Tree` is one token or an
opening token with the `Body` behind it, and a body is what follows up to the next
unmatched closing token, or up to the end of the stream.

The grouping knows nothing of the grammar.  Colons and commas are tokens like any
other, a brace may be closed by a bracket, and a body may break off.  Whoever reads
a body decides what may stand where; what the grouping gives is that every reader
of nested values is a plain recursion on trees.

A stream is grouped from its end (`levels`).  Behind each token there is the body
that goes on at its level, followed by the bodies of the enclosing levels; a
closing token begins a new level, and an opening token takes the innermost one.
-/

namespace ChatCodec

set_option autoImplicit false

mutual

/-- One token, or an opening token with its body. -/
inductive Tree (α : Type) where
  | leaf (item : α)
  | group (opening : α) (body : Body α)

/-- What follows at one level, up to the item that ends the level. -/
inductive Body (α : Type) where
  | close (ending : α)
  | more (head : Tree α) (rest : Body α)

end

/-- The part that an item plays in the nesting. -/
inductive Role where
  | opens
  | closes
  | stands
  deriving DecidableEq, Repr

namespace Tree

variable {α : Type}

/-- The item that a tree begins with. -/
def head : Tree α → α
  | leaf item => item
  | group opening _ => opening

end Tree

namespace Body

variable {α : Type}

/-- The item that ends the level. -/
def ending : Body α → α
  | close item => item
  | more _ rest => rest.ending

/-- The body that follows at the innermost level of a stream, and those of the
enclosing levels.  `last` ends every level that is still open. -/
def levels (role : α → Role) (last : α) : List α → Body α × List (Body α)
  | [] => (close last, [])
  | item :: rest =>
      let following := levels role last rest
      match role item with
      | .closes => (close item, following.1 :: following.2)
      | .opens =>
          (more (.group item following.1) (following.2.headD (close last)), following.2.tail)
      | .stands => (more (.leaf item) following.1, following.2)

/-- The body at the innermost level of a stream. -/
def ofList (role : α → Role) (last : α) (items : List α) : Body α :=
  (levels role last items).1

end Body

end ChatCodec
