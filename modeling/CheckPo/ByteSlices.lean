/-
Slices of byte strings at fixed offsets, and the fixed-width values they denote.
Nothing here names the repository.
-/
import CheckPo.BigEndian

namespace CheckPo

/-- `bytes[start..stop]`. -/
def slice (bytes : Bytes) (start stop : Nat) : Bytes := (bytes.take stop).drop start

/-- `bytes[index]`; the callers check the length first. -/
def byteAt (bytes : Bytes) (index : Nat) : UInt8 := bytes.getD index 0

/-- `u32::from_be_bytes`. -/
def u32FromBe (bytes : Bytes) : UInt32 := UInt32.ofNat (ofBigEndian bytes)

/-- `u64::from_be_bytes`. -/
def u64FromBe (bytes : Bytes) : UInt64 := UInt64.ofNat (ofBigEndian bytes)

variable {bytes front field rest : Bytes} {start middle stop : Nat}

theorem length_slice (h : stop ≤ bytes.length) : (slice bytes start stop).length = stop - start := by
  rw [slice, List.length_drop, List.length_take, min_eq_left h]

theorem slice_append_slice (hstart : start ≤ middle) (hmiddle : middle ≤ stop)
    (hstop : stop ≤ bytes.length) :
    slice bytes start middle ++ slice bytes middle stop = slice bytes start stop := by
  have htake : bytes.take middle = (bytes.take stop).take middle := by
    rw [List.take_take, min_eq_left hmiddle]
  rw [slice, slice, slice, htake]
  calc ((bytes.take stop).take middle).drop start ++ (bytes.take stop).drop middle
      = ((bytes.take stop).take middle ++ (bytes.take stop).drop middle).drop start := by
        rw [List.drop_append_of_le_length]
        rw [List.length_take, List.length_take]
        omega
    _ = (bytes.take stop).drop start := by rw [List.take_append_drop]

theorem slice_all (h : bytes.length = stop) : slice bytes 0 stop = bytes := by
  rw [slice, List.drop_zero, List.take_of_length_le h.le]

theorem slice_byteAt {index : Nat} (h : index < bytes.length) :
    slice bytes index (index + 1) = [byteAt bytes index] := by
  rw [slice, byteAt, List.take_add_one, List.getElem?_eq_getElem h,
    List.drop_append_of_le_length (by simp; omega), List.drop_of_length_le (by simp),
    List.getD_eq_getElem _ _ h]
  rfl

/-! Slices of a concatenation. -/

theorem slice_skip (h : front.length ≤ start) :
    slice (front ++ rest) start stop =
      slice rest (start - front.length) (stop - front.length) := by
  rw [slice, slice, List.take_append, List.drop_append, List.drop_of_length_le]
  · rw [List.length_take, List.nil_append]
    by_cases hstop : stop ≤ front.length
    · rw [Nat.sub_eq_zero_of_le hstop, List.take_zero, List.drop_nil, List.drop_nil]
    · rw [min_eq_right (by omega)]
  · rw [List.length_take]
    omega

theorem slice_first (h : field.length = stop) : slice (field ++ rest) 0 stop = field := by
  rw [slice, List.drop_zero, List.take_append_of_le_length h.ge, List.take_of_length_le h.le]

theorem byteAt_skip {index : Nat} (h : front.length ≤ index) :
    byteAt (front ++ rest) index = byteAt rest (index - front.length) := by
  rw [byteAt, byteAt, List.getD_append_right _ _ _ _ h]

theorem byteAt_first (byte : UInt8) : byteAt ([byte] ++ rest) 0 = byte := rfl

/-! Fixed-width values. -/

theorem u32FromBe_toBigEndian (value : UInt32) : u32FromBe (toBigEndian 4 value.toNat) = value := by
  rw [u32FromBe, ofBigEndian_toBigEndian_of_lt (UInt32.toNat_lt value), UInt32.ofNat_toNat]

theorem u64FromBe_toBigEndian (value : UInt64) : u64FromBe (toBigEndian 8 value.toNat) = value := by
  rw [u64FromBe, ofBigEndian_toBigEndian_of_lt (UInt64.toNat_lt value), UInt64.ofNat_toNat]

theorem toBigEndian_u32FromBe (h : field.length = 4) :
    toBigEndian 4 (u32FromBe field).toNat = field := by
  have hlt := ofBigEndian_lt field
  rw [h] at hlt
  rw [u32FromBe, UInt32.toNat_ofNat_of_lt' hlt, ← h, toBigEndian_ofBigEndian]

theorem toBigEndian_u64FromBe (h : field.length = 8) :
    toBigEndian 8 (u64FromBe field).toNat = field := by
  have hlt := ofBigEndian_lt field
  rw [h] at hlt
  rw [u64FromBe, UInt64.toNat_ofNat_of_lt' hlt, ← h, toBigEndian_ofBigEndian]

end CheckPo
