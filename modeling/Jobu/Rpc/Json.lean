import Jobu.Rpc.Framing

/-!
# JSON values and their text

`json.cpp`: the value tree and its serializer.  A value has a text unless a string in it is not UTF-8
or a number in it is not finite (`serializeJson_object_isSome`), and the text of an array is its
brackets, its commas and the texts of its elements.

A double is the text that the codec writes for it, if it is finite.
-/

namespace Jobu.Rpc

open List

/-- `JsonValue`; the members of an object are in the order of their names. -/
inductive JsonValue where
  | null
  | bool (value : Bool)
  | int (value : Int)
  | uint (value : Nat)
  | double (digits : Option Bytes)
  | string (value : Bytes)
  | array (items : List JsonValue)
  | object (members : List (Bytes × JsonValue))

/-! ## Text -/

/-- `is_continuation`. -/
def isContinuation (value : UInt8) : Bool := 0x80 ≤ value && value ≤ 0xbf

/-- `is_valid_utf8`. -/
def isValidUtf8 : Bytes → Bool
  | [] => true
  | first :: rest =>
    if first ≤ 0x7f then isValidUtf8 rest
    else if 0xc2 ≤ first && first ≤ 0xdf then
      match rest with
      | second :: rest => isContinuation second && isValidUtf8 rest
      | [] => false
    else if 0xe0 ≤ first && first ≤ 0xef then
      match rest with
      | second :: third :: rest =>
        isContinuation third && (if first = 0xe0 then 0xa0 ≤ second && second ≤ 0xbf
          else if first = 0xed then 0x80 ≤ second && second ≤ 0x9f
          else isContinuation second) && isValidUtf8 rest
      | _ => false
    else if 0xf0 ≤ first && first ≤ 0xf4 then
      match rest with
      | second :: third :: fourth :: rest =>
        isContinuation third && isContinuation fourth && (if first = 0xf0 then 0x90 ≤ second && second ≤ 0xbf
          else if first = 0xf4 then 0x80 ≤ second && second ≤ 0x8f
          else isContinuation second) && isValidUtf8 rest
      | _ => false
    else false

def hexDigit (value : UInt8) : UInt8 :=
  if value < 10 then byte '0' + value else byte 'a' + (value - 10)

/-- How the codec writes a byte of a string. -/
def escape (value : UInt8) : Bytes :=
  if value = 0x08 then text "\\b"
  else if value = 0x09 then text "\\t"
  else if value = 0x0a then text "\\n"
  else if value = 0x0c then text "\\f"
  else if value = 0x0d then text "\\r"
  else if value = 0x22 then text "\\\x22"
  else if value = 0x5c then text "\\\\"
  else if value ≤ 0x1f then text "\\u00" ++ [hexDigit (value / 16), hexDigit (value % 16)]
  else [value]

def quoted (value : Bytes) : Bytes := byte '\x22' :: value.flatMap escape ++ [byte '\x22']

def serializeString (value : Bytes) : Option Bytes :=
  if isValidUtf8 value then some (quoted value) else none

/-- Some texts with commas between them. -/
def commaSeparated (texts : List Bytes) : Bytes := [byte ','].intercalate texts

mutual

/-- `serialize_json`. -/
def serializeJson : JsonValue → Option Bytes
  | .null => some (text "null")
  | .bool value => some (text (if value then "true" else "false"))
  | .int value => some (if value < 0 then byte '-' :: decimal value.natAbs else decimal value.natAbs)
  | .uint value => some (decimal value)
  | .double digits => digits
  | .string value => serializeString value
  | .array items => do
    let texts ← serializeItems items
    pure (byte '[' :: commaSeparated texts ++ [byte ']'])
  | .object members => do
    let texts ← serializeMembers members
    pure (byte '\x7b' :: commaSeparated texts ++ [byte '\x7d'])

def serializeItems : List JsonValue → Option (List Bytes)
  | [] => some []
  | item :: rest => do
    let first ← serializeJson item
    let others ← serializeItems rest
    pure (first :: others)

def serializeMembers : List (Bytes × JsonValue) → Option (List Bytes)
  | [] => some []
  | (name, value) :: rest => do
    let first ← serializeString name
    let second ← serializeJson value
    let others ← serializeMembers rest
    pure ((first ++ byte ':' :: second) :: others)

end

/-- An object has a text if every member has. -/
theorem serializeJson_object_isSome (members : List (Bytes × JsonValue)) : (serializeJson (.object members)).isSome ↔
      ∀ member ∈ members, isValidUtf8 member.1 = true ∧ (serializeJson member.2).isSome := by
  have hm : (serializeMembers members).isSome ↔
    ∀ member ∈ members, isValidUtf8 member.1 = true ∧ (serializeJson member.2).isSome := by
    induction members with
    | nil => simp [serializeMembers]
    | cons member rest ih =>
      obtain ⟨name, value⟩ := member
      rw [forall_mem_cons, ← ih]
      cases hn : isValidUtf8 name <;> cases hv : serializeJson value <;>
        cases hr : serializeMembers rest <;>
          simp [serializeMembers, serializeString, hn, hv, hr]
  rw [← hm]
  cases hr : serializeMembers members <;> simp [serializeJson, hr]

theorem commaSeparated_length (first : Bytes) (rest : List Bytes) : (commaSeparated (first :: rest)).length =
    first.length + (rest.map fun item => 1 + item.length).sum := by
  induction rest generalizing first with
  | nil => simp [commaSeparated]
  | cons second rest ih =>
    have hc : commaSeparated (first :: second :: rest) = first ++ byte ',' :: commaSeparated (second :: rest) := by
      simp [commaSeparated, intercalate]
    rw [hc, length_append, length_cons, ih, map_cons, sum_cons]
    omega

end Jobu.Rpc
