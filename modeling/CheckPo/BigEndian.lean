/-
Big-endian byte strings of fixed width, and the lexicographic order of byte
strings.  Nothing here names the repository: widths and values are arbitrary.
-/
import Mathlib

namespace CheckPo

/-- A byte string, as the source's `Vec<u8>` and `&[u8]`. -/
abbrev Bytes := List UInt8

/-- The numeric order of bytes.  `List` inherits from it the lexicographic
order in which byte strings are compared. -/
instance byteOrder : LinearOrder UInt8 where
  le_refl := UInt8.le_refl
  le_trans _ _ _ := UInt8.le_trans
  le_antisymm _ _ := UInt8.le_antisymm
  le_total := UInt8.le_total
  lt_iff_le_not_ge left right := by
    simp only [UInt8.lt_iff_toNat_lt, UInt8.le_iff_toNat_le]
    omega
  toDecidableLE := inferInstance
  toDecidableEq := inferInstance
  toDecidableLT := inferInstance

theorem bytes_cons_lt_cons {left right : UInt8} {leftTail rightTail : Bytes} :
    left :: leftTail < right :: rightTail ↔
      left < right ∨ left = right ∧ leftTail < rightTail :=
  List.cons_lex_cons_iff

theorem bytes_cons_le_cons {left right : UInt8} {leftTail rightTail : Bytes} :
    left :: leftTail ≤ right :: rightTail ↔
      left < right ∨ left = right ∧ leftTail ≤ rightTail := by
  rw [← not_lt, bytes_cons_lt_cons, not_or, not_and, not_lt, not_lt]
  constructor
  · rintro ⟨hle, himp⟩
    rcases hle.lt_or_eq with hlt | heq
    · exact Or.inl hlt
    · exact Or.inr ⟨heq, himp heq.symm⟩
  · rintro (hlt | ⟨rfl, hle⟩)
    · exact ⟨hlt.le, fun heq => absurd heq hlt.ne'⟩
    · exact ⟨le_refl _, fun _ => hle⟩

theorem bytes_not_cons_le_nil (head : UInt8) (tail : Bytes) :
    ¬ head :: tail ≤ [] :=
  not_le.mpr List.Lex.nil

/-- The `width` low-order base-256 digits of `value`, most significant first. -/
def toBigEndian : Nat → Nat → Bytes
  | 0, _ => []
  | width + 1, value =>
      toBigEndian width (value / 256) ++ [UInt8.ofNat (value % 256)]

/-- The number a byte string denotes in base 256, most significant first. -/
def ofBigEndian (bytes : Bytes) : Nat :=
  bytes.foldl (fun value byte => value * 256 + byte.toNat) 0

@[simp] theorem length_toBigEndian (width value : Nat) :
    (toBigEndian width value).length = width := by
  induction width generalizing value with
  | zero => rfl
  | succ width ih => simp [toBigEndian, ih]

theorem ofBigEndian_append_singleton (bytes : Bytes) (byte : UInt8) :
    ofBigEndian (bytes ++ [byte]) = ofBigEndian bytes * 256 + byte.toNat := by
  simp [ofBigEndian]

/-- Reading back what was written loses only what does not fit the width. -/
theorem ofBigEndian_toBigEndian (width value : Nat) :
    ofBigEndian (toBigEndian width value) = value % 256 ^ width := by
  induction width generalizing value with
  | zero => simp [toBigEndian, ofBigEndian, Nat.mod_one]
  | succ width ih =>
      have hdigit : (UInt8.ofNat (value % 256)).toNat = value % 256 := by
        simp
      rw [toBigEndian, ofBigEndian_append_singleton, ih, hdigit, pow_succ,
        mul_comm (256 ^ width) 256, Nat.mod_mul]
      ring

theorem ofBigEndian_toBigEndian_of_lt {n value : Nat}
    (hvalue : value < 256 ^ n) :
    ofBigEndian (toBigEndian n value) = value := by
  rw [ofBigEndian_toBigEndian, Nat.mod_eq_of_lt hvalue]

theorem ofBigEndian_lt (bytes : Bytes) :
    ofBigEndian bytes < 256 ^ bytes.length := by
  induction bytes using List.reverseRecOn with
  | nil => simp [ofBigEndian]
  | append_singleton front byte ih =>
      have hbyte : byte.toNat < 256 := UInt8.toNat_lt byte
      rw [ofBigEndian_append_singleton, List.length_append,
        List.length_singleton, pow_succ]
      omega

/-- Writing back what was read gives the same bytes. -/
theorem toBigEndian_ofBigEndian (bytes : Bytes) :
    toBigEndian bytes.length (ofBigEndian bytes) = bytes := by
  induction bytes using List.reverseRecOn with
  | nil => rfl
  | append_singleton front byte ih =>
      have hbyte : byte.toNat < 256 := UInt8.toNat_lt byte
      have hquotient :
          (ofBigEndian front * 256 + byte.toNat) / 256 = ofBigEndian front := by
        omega
      have hremainder :
          (ofBigEndian front * 256 + byte.toNat) % 256 = byte.toNat := by
        omega
      rw [List.length_append, List.length_singleton, toBigEndian,
        ofBigEndian_append_singleton, hquotient, hremainder, ih,
        UInt8.ofNat_toNat]

end CheckPo
