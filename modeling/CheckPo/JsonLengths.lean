/-
How many bytes a compact JSON text takes: members and items of one size, and strings whose
characters stand for themselves.
-/
import CheckPo.HexIds
import CheckPo.JsonText

namespace CheckPo

def utf8Length (text : List Char) : Nat := (text.flatMap String.utf8EncodeChar).length

theorem utf8Length_cons (character : Char) (text : List Char) :
    utf8Length (character :: text) = (String.utf8EncodeChar character).length + utf8Length text := by
  rw [utf8Length, List.flatMap_cons, List.length_append]
  rfl

theorem utf8Length_append (left right : List Char) :
    utf8Length (left ++ right) = utf8Length left + utf8Length right := by
  rw [utf8Length, List.flatMap_append, List.length_append]
  rfl

/-- A character that stands for itself in a JSON string, in one byte. -/
def PlainJson (character : Char) : Prop :=
  JsonValue.escape character = [character] ∧ (String.utf8EncodeChar character).length = 1

theorem utf8Length_quoted {text : List Char} (h : ∀ character ∈ text, PlainJson character) :
    utf8Length (JsonValue.quoted text) = text.length + 2 := by
  have hinner : utf8Length (text.flatMap JsonValue.escape) = text.length := by
    induction text with
    | nil => rfl
    | cons character text ih =>
        rcases h character List.mem_cons_self with ⟨hescape, hbyte⟩
        rw [List.flatMap_cons, hescape, List.singleton_append, utf8Length_cons, hbyte,
          ih fun other hother => h other (List.mem_cons_of_mem character hother),
          List.length_cons, Nat.add_comm]
  rw [JsonValue.quoted, utf8Length_cons, utf8Length_append, hinner]
  exact Nat.add_comm 1 _

/-- The text of a member, without the comma before it. -/
def memberText (member : String × JsonValue) : List Char :=
  JsonValue.quoted member.1.toList ++ ':' :: member.2.compact

theorem utf8Length_members {members : List (String × JsonValue)} {size : Nat}
    (h : ∀ member ∈ members, utf8Length (memberText member) = size) :
    utf8Length (JsonValue.compactMembers members) = members.length * (size + 1) + 1 := by
  induction members with
  | nil =>
      rw [JsonValue.compactMembers, List.length_nil, Nat.zero_mul]
      rfl
  | cons member members ih =>
      have hmember := h member List.mem_cons_self
      have hrest := ih fun other hother => h other (List.mem_cons_of_mem member hother)
      rw [memberText, utf8Length_append, utf8Length_cons] at hmember
      rw [JsonValue.compactMembers, utf8Length_cons, utf8Length_append, utf8Length_cons,
        utf8Length_append, hrest, List.length_cons, Nat.succ_mul, ← hmember]
      have hcomma : (String.utf8EncodeChar ',').length = 1 := rfl
      omega

theorem utf8Length_object {members : List (String × JsonValue)} {size : Nat}
    (hne : members ≠ []) (h : ∀ member ∈ members, utf8Length (memberText member) = size) :
    utf8Length (JsonValue.object members).compact = members.length * (size + 1) + 1 := by
  rcases members with _ | ⟨member, members⟩
  · exact absurd rfl hne
  · have hmember := h member List.mem_cons_self
    have hrest := utf8Length_members fun other hother => h other (List.mem_cons_of_mem member hother)
    rw [memberText, utf8Length_append, utf8Length_cons] at hmember
    rw [JsonValue.compact, utf8Length_cons, utf8Length_append, utf8Length_cons,
      utf8Length_append, hrest, List.length_cons, Nat.succ_mul, ← hmember]
    have hbrace : (String.utf8EncodeChar '\x7b').length = 1 := rfl
    omega

/-! Ids. -/

theorem lowerHexDigit_plainJson {value : Nat} (h : value < 16) :
    PlainJson (lowerHexDigit value) := by
  rw [PlainJson]
  revert value
  decide

theorem toHex_plainJson (id : Digest32) {character : Char} (h : character ∈ id.toHex.toList) :
    PlainJson character :=
  forall_toHex (fun _ => lowerHexDigit_plainJson) id h

/-! Parts of a text. -/

/-- The bytes of a string and its quotes. -/
def quotedBytes (text : String) : Nat := utf8Length (JsonValue.quoted text.toList)

theorem utf8Length_string (text : String) :
    utf8Length (JsonValue.quoted text.toList) = quotedBytes text := rfl

def decimalBytes (value : Nat) : Nat := utf8Length (JsonValue.decimal value)

/-- The bytes of `true` or `false`. -/
def flagBytes (value : Bool) : Nat := if value = true then 4 else 5

theorem utf8Length_items (items : List JsonValue) :
    utf8Length (JsonValue.compactItems items) =
      (items.map fun item => utf8Length item.compact + 1).sum + 1 := by
  induction items with
  | nil => rfl
  | cons item items ih =>
      have hcomma : (String.utf8EncodeChar ',').length = 1 := rfl
      rw [JsonValue.compactItems, utf8Length_cons, utf8Length_append, ih, List.map_cons,
        List.sum_cons, hcomma]
      omega

theorem utf8Length_array {items : List JsonValue} (hne : items ≠ []) :
    utf8Length (JsonValue.array items).compact =
      (items.map fun item => utf8Length item.compact + 1).sum + 1 := by
  rcases items with _ | ⟨item, items⟩
  · exact absurd rfl hne
  · have hbracket : (String.utf8EncodeChar '[').length = 1 := rfl
    rw [JsonValue.compact, utf8Length_cons, utf8Length_append, utf8Length_items, List.map_cons,
      List.sum_cons, hbracket]
    omega

theorem utf8Length_bool (value : Bool) :
    utf8Length (JsonValue.bool value).compact = flagBytes value := by
  cases value <;> rfl

theorem utf8Length_toHex (id : Digest32) : quotedBytes id.toHex = 66 := by
  rw [quotedBytes, utf8Length_quoted fun _ => toHex_plainJson id, length_toHex]

theorem length_punctuation : (String.utf8EncodeChar '\x7b').length = 1 ∧
    (String.utf8EncodeChar '\x7d').length = 1 ∧ (String.utf8EncodeChar '[').length = 1 ∧
    (String.utf8EncodeChar ']').length = 1 ∧ (String.utf8EncodeChar ':').length = 1 ∧
    (String.utf8EncodeChar ',').length = 1 := ⟨rfl, rfl, rfl, rfl, rfl, rfl⟩

end CheckPo
