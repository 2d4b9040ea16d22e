import ChatCodec.Declarative.Write
import ChatCodec.Entity.Catalog
import ChatCodec.Proofs.Decimal
import ChatCodec.Proofs.Printing
import ChatCodec.Proofs.Streaming.Buffer
import ChatCodec.Proofs.Text.Literal
import ChatCodec.Proofs.Time.Timestamp
import ChatCodec.Streaming.Encode

/-!
# The two encoders write the same bytes

The streaming encoder appends to a buffer by the tables, and the declarative one prints a
JSON value that it has made by the declarations.  They write the same bytes if the two
descriptions of every field are consistent (`Field.IsConsistent`): table and declaration
name the field alike, by a name that needs no escape, and leave it out for the same values.

For scalars the bytes are compared directly (`Scalar.bytes_encode`).  For values, sequences
and records one induction does (`Val.bytes_encode`); what it says of records is that the
writer has appended every member with a comma behind it, so closing the object takes back
one comma if there is any member (`ObjectWriter.bytes_finish`).

The fields of the chat service are consistent (`Chat.isConsistent`), so its values are
written alike (`Chat.toBytes_eq_write`).
-/

namespace ChatCodec

set_option autoImplicit false

/-! ## Scalars -/

theorem Id.isPlain_of_mem_digits {resource : Resource} (id : Id resource) :
    ∀ byte ∈ id.digits, Ascii.IsPlain byte :=
  fun byte isIn => Ascii.isPlain_of_isDigit (Decimal.isDigit_of_mem_ofNat byte isIn)

theorem Json.Value.print_ofWord (word : UInt64) :
    (Json.Value.number (.ofWord word)).print = Decimal.ofNat word.toNat := by
  simp only [print, printBefore, Number.ofWord, Number.print, List.append_nil]
  exact Decimal.ofInt_natCast _

/-- **A scalar is appended as its JSON value is printed.** -/
theorem Scalar.bytes_encode : ∀ (kind : Scalar) (value : kind.Carrier) (buffer : Buffer),
    (kind.encode value buffer).bytes = buffer.bytes ++ (kind.toJson value).print
  | .bool, value, buffer => by
      simp only [encode, toJson, Json.Value.print, Json.Value.printBefore, List.append_nil]
      cases value with
      | false => exact Buffer.bytes_writeText _ _
      | true => exact Buffer.bytes_writeText _ _
  | .integer _, value, buffer => by
      simp only [encode, toJson, Json.Value.print, Json.Value.printBefore, Json.Number.print,
        List.append_nil]
      exact Buffer.bytes_writeInt _ _
  | .text, value, buffer => by
      simp only [encode, toJson, Json.Value.print, Json.Value.printBefore, List.append_nil]
      exact Buffer.bytes_writeQuoted _ _
  | .opaqueJson, value, buffer => Buffer.bytes_write _ _
  | .id _, value, buffer => by
      rw [encode, toJson]
      by_cases isSet : value.isSet = true
      · rw [if_pos isSet, if_pos isSet, Json.Value.print, Json.Value.printBefore, Id.text,
          quoted_ofList_map value.isPlain_of_mem_digits]
        simp only [Buffer.bytes_writeByte, Buffer.bytes_writeNat, Id.digits, List.append_assoc,
          List.append_nil, List.nil_append, List.cons_append]
      · rw [if_neg isSet, if_neg isSet]
        exact Buffer.bytes_writeText _ _
  | .timestamp, value, buffer => by
      rw [encode, toJson, Json.Value.print, Json.Value.printBefore, asciiText,
        quoted_ofList_map value.isPlain_of_mem_print]
      simp only [Buffer.bytes_writeByte, Buffer.bytes_write, List.append_assoc, List.append_nil,
        List.nil_append, List.cons_append]
  | .flags, value, buffer => by
      rw [encode, toJson, Json.Value.print_ofWord]
      exact Buffer.bytes_writeNat _ _
  | .code kind, value, buffer => by
      rw [encode, toJson, Json.Value.print_ofWord, UInt8.toNat_toUInt64]
      exact Buffer.bytes_writeNat _ _

/-! ## Consistent descriptions of a field -/

/-- Whether a policy and a condition leave out the same values of a shape. -/
def Omission.suits : Omission → Policy → {Name : Type} → Shape Name → Bool
  | .never, .always, _, _ => true
  | .ifNone, .omitEmpty, _, .option _ => true
  | .ifFalse, .omitEmpty, _, .scalar .bool => true
  | .ifZero, .omitEmpty, _, .scalar (.integer _) => true
  | .ifEmptyText, .omitEmpty, _, .scalar .text => true
  | .ifEmptyList, .omitEmpty, _, .list _ => true
  | .ifUnset, .omitEmpty, _, .scalar (.id _) => true
  | .ifNull, .omitEmpty, _, .scalar .opaqueJson => true
  | _, _, _, _ => false

/-- The table and the declaration describe a field alike. -/
structure Field.IsConsistent {Name : Type} (field : Field Name) : Prop where
  named : field.key = field.name
  plain : ∀ byte ∈ bytesOf field.key, Ascii.IsPlain byte
  omitted : field.omission.suits field.policy field.shape = true

/-- Whether a policy leaves a value out. -/
def Policy.omits (policy : Policy) (isEmpty : Bool) : Bool :=
  match policy with
  | .always => false
  | .omitEmpty => isEmpty

section

variable {Name : Type} {fields : Name → List (Field Name)}

/-- A suitable condition holds of the values that the policy leaves out. -/
theorem Omission.applies_of_suits {omission : Omission} {policy : Policy} {shape : Shape Name}
    (suitable : omission.suits policy shape = true) (value : Val fields shape) :
    omission.applies value = policy.omits value.isEmpty := by
  revert value
  unfold suits at suitable
  split at suitable
  · intro value
    cases value <;> rfl
  · intro value
    cases value <;> rfl
  · rintro ⟨value⟩
    rfl
  · rintro ⟨value⟩
    rfl
  · rintro ⟨value⟩
    rw [applies, Policy.omits, Val.isEmpty, Scalar.isEmpty, Bool.eq_iff_iff, beq_iff_eq,
      String.isEmpty_iff]
  · intro value
    rcases value with _ | _ | _ | ⟨_ | _⟩ <;> rfl
  · rintro ⟨value⟩
    simp only [applies, Policy.omits, Val.isEmpty, Scalar.isEmpty, Id.isSet, bne, Bool.not_not]
  · rintro ⟨value⟩
    rfl
  · cases suitable

/-! ## Objects -/

/-- A field is appended as a member with a comma behind it. -/
theorem ObjectWriter.bytes_always (writer : ObjectWriter) {key : String} {form : Bytes}
    {encode : Buffer → Buffer} (plain : ∀ byte ∈ bytesOf key, Ascii.IsPlain byte)
    (appended : ∀ buffer, (encode buffer).bytes = buffer.bytes ++ form) :
    (writer.always key encode).buffer.bytes =
      writer.buffer.bytes ++ (quoted key ++ Ascii.colon :: form ++ [Ascii.comma]) := by
  rw [always, Buffer.bytes_writeByte, appended, Buffer.bytes_write, Buffer.bytes_writeText,
    Buffer.bytes_writeByte, quoted, flatMap_escapedByte_of_isRaw fun byte isIn => (plain byte isIn).isRaw]
  simp only [List.append_assoc, List.cons_append, List.nil_append]

/-- Closing an object takes back the last comma, if there is one. -/
theorem ObjectWriter.bytes_finish {writer : ObjectWriter} {front : Bytes} {members : Json.Members}
    (opened : writer.start = front.length)
    (written : writer.buffer.bytes = front ++ members.printFields) :
    writer.finish.bytes = front ++ members.print ++ [Ascii.closeBrace] := by
  have length : writer.buffer.length = (front ++ members.printFields).length := by
    rw [← written, Buffer.length_bytes]
  rw [finish, Buffer.bytes_writeByte]
  cases members with
  | nil =>
      rw [Json.Members.printFields, List.append_nil] at length written
      rw [opened, length, if_neg (Nat.lt_irrefl _), written]
      exact congrArg (· ++ _) (List.append_nil front).symm
  | cons key value tail =>
      rw [Json.Members.printFields_cons, ← List.append_assoc] at length written
      have longer : writer.start < writer.buffer.length := by
        rw [opened, length, List.length_append, List.length_append, List.length_singleton]
        omega
      rw [if_pos longer, Buffer.bytes_rewind, written, length, List.length_append,
        List.length_singleton, Nat.add_sub_cancel, List.take_left]

theorem Record.start_encodeFields : ∀ {list : List (Field Name)} (record : Record fields list)
    (writer : ObjectWriter), (record.encodeFields writer).start = writer.start
  | _, .nil, _ => rfl
  | field :: _, .cons head tail, writer => by
      rw [Record.encodeFields, tail.start_encodeFields]
      cases field.policy with
      | always => rfl
      | omitEmpty =>
          simp only [ObjectWriter.omitEmpty]
          by_cases empty : head.isEmpty = true
          · rw [if_pos empty]
          · rw [if_neg empty]
            rfl

/-! ## Values -/

mutual

/-- **A value is appended as its JSON value is printed.** -/
theorem Val.bytes_encode
    (consistent : ∀ (name : Name), ∀ field ∈ fields name, field.IsConsistent) :
    ∀ {shape : Shape Name} (value : Val fields shape) (buffer : Buffer),
      (value.encode buffer).bytes = buffer.bytes ++ value.toJson.print
  | _, @Val.scalar _ _ kind value, buffer => by
      rw [Val.encode, Val.toJson]
      exact kind.bytes_encode value buffer
  | _, .none, buffer => Buffer.bytes_writeText buffer "null"
  | _, .some value, buffer => by
      rw [Val.encode, Val.toJson]
      exact value.bytes_encode consistent buffer
  | _, .list items, buffer => by
      rw [Val.encode, Val.toJson, Buffer.bytes_writeByte, items.bytes_encodeItems consistent,
        Buffer.bytes_writeByte, Json.Value.print_array]
      simp only [if_true, List.append_assoc, List.nil_append, List.cons_append]
  | _, .entity record, buffer => by
      have written := record.bytes_encodeFields consistent buffer.beginObject (consistent _)
      have opened : (record.encodeFields buffer.beginObject).start =
          (buffer.bytes ++ [Ascii.openBrace]).length := by
        rw [record.start_encodeFields, Buffer.beginObject, ← Buffer.bytes_writeByte,
          Buffer.length_bytes]
      rw [Buffer.beginObject, Buffer.bytes_writeByte] at written
      rw [Val.encode, Val.toJson, Json.Value.print_object, ObjectWriter.bytes_finish opened written]
      simp only [List.append_assoc, List.nil_append, List.cons_append]

/-- The items are appended as those of the JSON array are printed, the first without a
comma before it. -/
theorem Sequence.bytes_encodeItems
    (consistent : ∀ (name : Name), ∀ field ∈ fields name, field.IsConsistent) :
    ∀ {inner : Shape Name} (items : Sequence fields inner) (isFirst : Bool) (buffer : Buffer),
      (items.encodeItems isFirst buffer).bytes =
        buffer.bytes ++ if isFirst then items.toJson.print else items.toJson.printTail
  | _, .nil, isFirst, buffer => by
      cases isFirst <;> exact (List.append_nil _).symm
  | _, .cons head tail, isFirst, buffer => by
      rw [Sequence.encodeItems, Sequence.toJson, tail.bytes_encodeItems consistent,
        head.bytes_encode consistent]
      cases isFirst with
      | true =>
          simp only [if_true, Bool.false_eq_true, if_false, Json.Items.print_cons,
            List.append_assoc]
      | false =>
          simp only [Bool.false_eq_true, if_false, Buffer.bytes_writeByte, Json.Items.printTail,
            List.append_assoc, List.nil_append, List.cons_append]

/-- Every member is appended with a comma behind it. -/
theorem Record.bytes_encodeFields
    (consistent : ∀ (name : Name), ∀ field ∈ fields name, field.IsConsistent) :
    ∀ {list : List (Field Name)} (record : Record fields list) (writer : ObjectWriter),
      (∀ field ∈ list, field.IsConsistent) →
        (record.encodeFields writer).buffer.bytes =
          writer.buffer.bytes ++ record.toJson.printFields
  | _, .nil, writer, _ => (List.append_nil _).symm
  | field :: rest, .cons head tail, writer, all => by
      have following := fun other isIn => all other (List.mem_cons_of_mem field isIn)
      have described := all field List.mem_cons_self
      rw [Record.encodeFields, Record.toJson, tail.bytes_encodeFields consistent _ following,
        Omission.applies_of_suits described.omitted]
      have whole := writer.bytes_always described.plain
        (fun buffer => head.bytes_encode consistent buffer)
      have shown : (writer.always field.key head.encode).buffer.bytes ++ tail.toJson.printFields =
          writer.buffer.bytes ++ (Json.Members.cons field.name head.toJson tail.toJson).printFields := by
        rw [whole, Json.Members.printFields, described.named]
        simp only [List.append_assoc, List.nil_append, List.cons_append]
      cases field.policy with
      | always => exact shown
      | omitEmpty =>
          cases empty : head.isEmpty with
          | true => simp only [ObjectWriter.omitEmpty, Policy.omits, if_true]
          | false =>
              simp only [ObjectWriter.omitEmpty, Policy.omits, Bool.false_eq_true, if_false]
              exact shown

end

/-- Values of consistent fields are written alike. -/
theorem Val.toBytes_eq (consistent : ∀ (name : Name), ∀ field ∈ fields name, field.IsConsistent)
    {shape : Shape Name} (value : Val fields shape) : value.toBytes = value.write :=
  value.bytes_encode consistent .empty

end

/-! ## The entities of the chat service -/

instance {Name : Type} (field : Field Name) : Decidable field.IsConsistent :=
  decidable_of_iff
    (field.key = field.name ∧
      (bytesOf field.key).all (fun byte => decide (Ascii.IsPlain byte)) = true ∧
      field.omission.suits field.policy field.shape = true)
    ⟨fun ⟨named, plain, omitted⟩ =>
        ⟨named, fun byte isIn => of_decide_eq_true (List.all_eq_true.mp plain byte isIn), omitted⟩,
      fun ⟨named, plain, omitted⟩ =>
        ⟨named, List.all_eq_true.mpr fun byte isIn => decide_eq_true (plain byte isIn), omitted⟩⟩

/-- Table and declaration of every entity describe its fields alike. -/
theorem Chat.isConsistent (name : EntityName) :
    ∀ field ∈ Chat.fields name, field.IsConsistent := by
  cases name <;> decide +kernel

/-- **Both encoders write the same bytes**, for every value of every entity. -/
theorem Chat.toBytes_eq_write (name : EntityName) (record : Chat.Entity name) :
    (Val.entity record : Chat.Value (.entity name)).toBytes =
      (Val.entity record : Chat.Value (.entity name)).write :=
  Val.toBytes_eq isConsistent (Val.entity record)

end ChatCodec
