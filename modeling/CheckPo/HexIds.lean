/-
Ids as texts: 64 lower-case hexadecimal digits, and the head file that holds one of
them and a line end.
-/
import CheckPo.SnapshotStore

namespace CheckPo

def hexNibble (value : Char) : Option Nat :=
  if '0' ≤ value ∧ value ≤ '9' then some (value.toNat - 48)
  else if 'a' ≤ value ∧ value ≤ 'f' then some (value.toNat - 87)
  else none

/-- `decode_lower_hex`, of a text of any length. -/
def decodeLowerHex : List Char → Option Bytes
  | [] => some []
  | [_] => none
  | high :: low :: rest => do
      let high ← hexNibble high
      let low ← hexNibble low
      return UInt8.ofNat (high * 16 + low) :: (← decodeLowerHex rest)

/-- `ObjectId::parse` and `SnapshotId::parse`, with the `label` of their messages. -/
def parseLowerHexId (label input : String) : CheckPoResult Digest32 :=
  match decodeLowerHex input.toList with
  | some bytes =>
      if h : bytes.length = 32 then .ok ⟨bytes, h⟩
      else .error (.invalidId s!"{label} id must be 64 lowercase hex characters: {input}")
  | none => .error (.invalidId s!"{label} id must be 64 lowercase hex characters: {input}")

/-- `strip_suffix('\n')`. -/
def stripLineEnd (text : String) : Option String :=
  if text.toList.getLast? = some '\n' then some (String.ofList text.toList.dropLast) else none

/-- The id in the bytes of a head file. -/
def parseHead (path : String) (bytes : Bytes) : CheckPoResult ObjectId := do
  let text ← orError (fromUtf8 bytes)
    (.corruption s!"snapshot inventory head is not UTF-8: {path}")
  let idText ← orError (stripLineEnd text)
    (.corruption s!"snapshot inventory head is not canonical: {path}")
  if idText.toList.any (fun character => character == '\r' || character == '\n') = true then
    .error (.corruption s!"snapshot inventory head contains trailing data: {path}")
  else match parseLowerHexId "object" idText with
    | .ok id => .ok id
    | .error _ => .error (.corruption s!"snapshot inventory head id is invalid: {path}")

/-- `format!("{id}\n")`. -/
def headBytes (id : ObjectId) : Bytes := utf8 (id.toHex ++ "\n")

theorem hexNibble_lowerHexDigit {value : Nat} (h : value < 16) :
    hexNibble (lowerHexDigit value) = some value := by
  revert value
  decide

theorem decodeLowerHex_hexDigits (bytes : Bytes) :
    decodeLowerHex (bytes.flatMap fun byte =>
      [lowerHexDigit (byte.toNat / 16), lowerHexDigit (byte.toNat % 16)]) = some bytes := by
  induction bytes with
  | nil => rfl
  | cons byte bytes ih =>
      have hlt : byte.toNat < 256 := UInt8.toNat_lt byte
      have hhigh := hexNibble_lowerHexDigit (show byte.toNat / 16 < 16 by omega)
      have hlow := hexNibble_lowerHexDigit (Nat.mod_lt byte.toNat (show 0 < 16 by decide))
      have hbyte : UInt8.ofNat (byte.toNat / 16 * 16 + byte.toNat % 16) = byte := by
        rw [Nat.div_add_mod', UInt8.ofNat_toNat]
      simp only [List.flatMap_cons, List.cons_append, List.nil_append, decodeLowerHex, hhigh,
        hlow, ih, Option.bind_eq_bind, Option.bind_some, hbyte]
      rfl

theorem parseLowerHexId_toHex (label : String) (id : Digest32) :
    parseLowerHexId label id.toHex = .ok id := by
  have hbytes : decodeLowerHex id.toHex.toList = some id.bytes := by
    rw [Digest32.toHex, String.toList_ofList, decodeLowerHex_hexDigits]
  rw [parseLowerHexId, hbytes]
  exact dif_pos id.length_eq

theorem lowerHexDigit_of_hexNibble {digit : Char} {value : Nat} (h : hexNibble digit = some value) :
    lowerHexDigit value = digit ∧ value < 16 := by
  rw [hexNibble] at h
  split_ifs at h with hdecimal hletter
  · have hlow : 48 ≤ digit.toNat := hdecimal.1
    have hhigh : digit.toNat ≤ 57 := hdecimal.2
    obtain rfl := Option.some.inj h
    refine ⟨?_, by omega⟩
    rw [lowerHexDigit, if_pos (by omega), Nat.add_sub_of_le hlow, Char.ofNat_toNat]
  · have hlow : 97 ≤ digit.toNat := hletter.1
    have hhigh : digit.toNat ≤ 102 := hletter.2
    obtain rfl := Option.some.inj h
    refine ⟨?_, by omega⟩
    rw [lowerHexDigit, if_neg (by omega), Nat.add_sub_of_le (by omega), Char.ofNat_toNat]

theorem hexDigits_of_decodeLowerHex {digits : List Char} {bytes : Bytes}
    (h : decodeLowerHex digits = some bytes) :
    (bytes.flatMap fun byte =>
      [lowerHexDigit (byte.toNat / 16), lowerHexDigit (byte.toNat % 16)]) = digits := by
  induction digits using decodeLowerHex.induct generalizing bytes with
  | case1 =>
      cases h
      rfl
  | case2 digit => cases h
  | case3 high low rest ih =>
      simp only [decodeLowerHex, Option.bind_eq_bind, Option.bind_eq_some_iff] at h
      obtain ⟨highValue, hhigh, lowValue, hlow, tail, htail, hbytes⟩ := h
      cases hbytes
      obtain ⟨hhighDigit, hhighLimit⟩ := lowerHexDigit_of_hexNibble hhigh
      obtain ⟨hlowDigit, hlowLimit⟩ := lowerHexDigit_of_hexNibble hlow
      have hbyte : (UInt8.ofNat (highValue * 16 + lowValue)).toNat = highValue * 16 + lowValue :=
        UInt8.toNat_ofNat_of_lt' (show highValue * 16 + lowValue < 256 by omega)
      have hdiv : (highValue * 16 + lowValue) / 16 = highValue := by omega
      have hmod : (highValue * 16 + lowValue) % 16 = lowValue := by omega
      rw [List.flatMap_cons, hbyte, hdiv, hmod, hhighDigit, hlowDigit, ih htail]
      rfl

/-- What is parsed is the text of the id. -/
theorem toHex_of_parse {label input : String} {id : Digest32}
    (h : parseLowerHexId label input = .ok id) : id.toHex = input := by
  rw [parseLowerHexId] at h
  split at h
  · next bytes hbytes =>
      split_ifs at h with hlength
      cases h
      rw [Digest32.toHex, hexDigits_of_decodeLowerHex hbytes, String.ofList_toList]
  · cases h

theorem toHex_injective {left right : Digest32} (h : left.toHex = right.toHex) : left = right := by
  have hleft := parseLowerHexId_toHex "object" left
  rw [h, parseLowerHexId_toHex "object" right] at hleft
  exact (Except.ok.inj hleft).symm

/-- Hexadecimal digits are plain ASCII, and no line ends. -/
theorem lowerHexDigit_plain {value : Nat} (h : value < 16) :
    (String.utf8EncodeChar (lowerHexDigit value)).length = 1 ∧
      lowerHexDigit value ≠ '\r' ∧ lowerHexDigit value ≠ '\n' := by
  revert value
  decide

/-- What holds of every hexadecimal digit holds of every character of an id. -/
theorem forall_toHex {p : Char → Prop} (h : ∀ value < 16, p (lowerHexDigit value)) (id : Digest32)
    {character : Char} (hcharacter : character ∈ id.toHex.toList) : p character := by
  rw [Digest32.toHex, String.toList_ofList, List.mem_flatMap] at hcharacter
  rcases hcharacter with ⟨byte, -, hcharacter⟩
  have hlt : byte.toNat < 256 := UInt8.toNat_lt byte
  rcases List.mem_cons.mp hcharacter with rfl | hcharacter
  · exact h _ (by omega)
  · rw [List.mem_singleton.mp hcharacter]
    exact h _ (Nat.mod_lt _ (by decide))

theorem toHex_plain (id : Digest32) {character : Char} (h : character ∈ id.toHex.toList) :
    (String.utf8EncodeChar character).length = 1 ∧ character ≠ '\r' ∧ character ≠ '\n' := by
  apply forall_toHex _ id h
  exact fun value => lowerHexDigit_plain

theorem length_toHex (id : Digest32) : id.toHex.toList.length = 64 := by
  rw [Digest32.toHex, String.toList_ofList, List.length_flatMap]
  simp [id.length_eq]

theorem length_headBytes (id : ObjectId) : (headBytes id).length = 65 := by
  have htext : id.toHex ++ "\n" = String.ofList (id.toHex.toList ++ ['\n']) := by
    apply String.ext
    simp
  have hencode : headBytes id = (id.toHex.toList ++ ['\n']).flatMap String.utf8EncodeChar := by
    rw [headBytes, htext, utf8_ofList]
  have hsum : ∀ text : List Char, (∀ character ∈ text,
      (String.utf8EncodeChar character).length = 1) →
        (text.flatMap String.utf8EncodeChar).length = text.length := by
    intro text htext
    induction text with
    | nil => rfl
    | cons character text ih =>
        rw [List.forall_mem_cons] at htext
        rw [List.flatMap_cons, List.length_append, htext.1, ih htext.2, List.length_cons,
          Nat.add_comm]
  rw [hencode, hsum, List.length_append, length_toHex, List.length_singleton]
  intro character hcharacter
  rcases List.mem_append.mp hcharacter with hcharacter | hcharacter
  · exact (toHex_plain id hcharacter).1
  · rw [List.mem_singleton.mp hcharacter]
    decide

/-- What is written as the head is read back. -/
theorem parseHead_headBytes (path : String) (id : ObjectId) :
    parseHead path (headBytes id) = .ok id := by
  have hstrip : stripLineEnd (id.toHex ++ "\n") = some id.toHex := by
    simp [stripLineEnd, String.toList_append]
  have hplain : id.toHex.toList.any (fun character => character == '\r' || character == '\n') =
      false := by
    rw [List.any_eq_false]
    intro character hcharacter
    obtain ⟨-, hr, hn⟩ := toHex_plain id hcharacter
    simp [hr, hn]
  simp only [parseHead, headBytes, fromUtf8_utf8, orError, hstrip, hplain, except_bind_ok,
    parseLowerHexId_toHex, Bool.false_eq_true, if_false]

end CheckPo
