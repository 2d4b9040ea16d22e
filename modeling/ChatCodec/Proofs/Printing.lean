import ChatCodec.Json.Value

/-!
# The compact form of opaque JSON

The compact printer carries along the bytes that follow what it prints.  This module
takes the two apart: a value, a list of items and a list of members each have a form
of their own, and what follows is appended to it (`Value.printBefore_eq`).

Further forms put a comma at every entry instead of between them.  Entries behind a first
one are each led by a comma (`Items.printTail`, `Members.printTail`), and members are also
each followed by one (`Members.printFields`).
-/

namespace ChatCodec

set_option autoImplicit false

namespace Json

/-- The items, separated by commas. -/
def Items.print (items : Items) : Bytes := items.printBefore []

/-- The members, separated by commas. -/
def Members.print (members : Members) : Bytes := members.printBefore []

/-! ## What follows is appended -/

mutual

/-- **What follows a value is appended to its form.** -/
theorem Value.printBefore_eq : ∀ (value : Value) (rest : Bytes),
    value.printBefore rest = value.print ++ rest
  | .null, rest => by simp only [Value.print, Value.printBefore, List.append_nil]
  | .bool value, rest => by simp only [Value.print, Value.printBefore, List.append_nil]
  | .number value, rest => by simp only [Value.print, Value.printBefore, List.append_nil]
  | .text value, rest => by simp only [Value.print, Value.printBefore, List.append_nil]
  | .array items, rest => by
      simp only [Value.print, Value.printBefore]
      rw [Items.printBefore_eq items (Ascii.closeBracket :: rest),
        Items.printBefore_eq items [Ascii.closeBracket]]
      simp only [List.cons_append, List.append_assoc, List.nil_append]
  | .object members, rest => by
      simp only [Value.print, Value.printBefore]
      rw [Members.printBefore_eq members (Ascii.closeBrace :: rest),
        Members.printBefore_eq members [Ascii.closeBrace]]
      simp only [List.cons_append, List.append_assoc, List.nil_append]

theorem Items.printBefore_eq : ∀ (items : Items) (rest : Bytes),
    items.printBefore rest = items.print ++ rest
  | .nil, rest => by simp only [Items.print, Items.printBefore, List.nil_append]
  | .cons head .nil, rest => by
      simp only [Items.print, Items.printBefore]
      rw [Value.printBefore_eq head rest, Value.printBefore_eq head [], List.append_nil]
  | .cons head (.cons next tail), rest => by
      simp only [Items.print, Items.printBefore]
      rw [Value.printBefore_eq head, Items.printBefore_eq (.cons next tail) rest,
        Value.printBefore_eq head (Ascii.comma :: Items.printBefore _ [])]
      simp only [Items.print, List.cons_append, List.append_assoc]

theorem Members.printBefore_eq : ∀ (members : Members) (rest : Bytes),
    members.printBefore rest = members.print ++ rest
  | .nil, rest => by simp only [Members.print, Members.printBefore, List.nil_append]
  | .cons key value .nil, rest => by
      simp only [Members.print, Members.printBefore]
      rw [Value.printBefore_eq value rest, Value.printBefore_eq value []]
      simp only [List.append_nil, List.cons_append, List.append_assoc]
  | .cons key value (.cons next other tail), rest => by
      simp only [Members.print, Members.printBefore]
      rw [Value.printBefore_eq value, Members.printBefore_eq (.cons next other tail) rest,
        Value.printBefore_eq value (Ascii.comma :: Members.printBefore _ [])]
      simp only [Members.print, List.cons_append, List.append_assoc]

end

/-! ## The forms of the parts -/

theorem Value.print_array (items : Items) :
    (Value.array items).print = Ascii.openBracket :: items.print ++ [Ascii.closeBracket] := by
  simp only [Value.print, Value.printBefore]
  rw [Items.printBefore_eq, List.cons_append]

theorem Value.print_object (members : Members) :
    (Value.object members).print = Ascii.openBrace :: members.print ++ [Ascii.closeBrace] := by
  simp only [Value.print, Value.printBefore]
  rw [Members.printBefore_eq, List.cons_append]

/-- The items behind a first one, each led by a comma. -/
def Items.printTail : Items → Bytes
  | .nil => []
  | .cons head tail => Ascii.comma :: head.print ++ tail.printTail

theorem Items.print_cons : ∀ (head : Value) (tail : Items),
    (Items.cons head tail).print = head.print ++ tail.printTail
  | head, .nil => by
      simp only [Items.print, Items.printBefore, Items.printTail, Value.print, List.append_nil]
  | head, .cons next tail => by
      have following := Items.print_cons next tail
      simp only [Items.print, Items.printBefore] at following ⊢
      rw [Value.printBefore_eq, following, Items.printTail, List.cons_append]

/-- The members behind a first one, each led by a comma. -/
def Members.printTail : Members → Bytes
  | .nil => []
  | .cons key value tail =>
      Ascii.comma :: quoted key ++ Ascii.colon :: value.print ++ tail.printTail

theorem Members.print_cons : ∀ (key : String) (value : Value) (tail : Members),
    (Members.cons key value tail).print =
      quoted key ++ Ascii.colon :: value.print ++ tail.printTail
  | key, value, .nil => by
      simp only [Members.print, Members.printBefore, Members.printTail, Value.print,
        List.append_nil]
  | key, value, .cons next other tail => by
      have following := Members.print_cons next other tail
      simp only [Members.print, Members.printBefore] at following ⊢
      rw [Value.printBefore_eq, following, Members.printTail]
      simp only [List.append_assoc, List.cons_append]

/-- The members, each followed by a comma. -/
def Members.printFields : Members → Bytes
  | .nil => []
  | .cons key value tail =>
      quoted key ++ Ascii.colon :: value.print ++ Ascii.comma :: tail.printFields

theorem Members.printFields_cons : ∀ (key : String) (value : Value) (tail : Members),
    (Members.cons key value tail).printFields =
      (Members.cons key value tail).print ++ [Ascii.comma]
  | key, value, .nil => by
      simp only [Members.print, Members.printBefore, Members.printFields, Value.print,
        List.append_assoc, List.cons_append]
  | key, value, .cons next other tail => by
      have following := Members.printFields_cons next other tail
      simp only [Members.print, Members.printBefore] at following ⊢
      rw [Members.printFields, Value.printBefore_eq, following]
      simp only [List.append_assoc, List.cons_append]

end Json

end ChatCodec
