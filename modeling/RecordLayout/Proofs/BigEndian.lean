import RecordLayout.Binary.Scalar
import Mathlib.Algebra.Order.Group.Nat
import Mathlib.Tactic.Ring

/-!
# Big-endian scalars

Writing a number of `width` bytes and reading it are inverse to each other: on the numbers below
`256 ^ width` and the byte strings of that length, and so on the values of every scalar type
(`decode_encode`, `encode_decode`). `splice` changes exactly the bytes that it writes over. A range
between positions of 64 bits is inside a buffer if and only if it is by numbers that do not wrap around
(`hasRange_iff`).
-/

namespace RecordLayout

theorem bigEndian_succ (width n : Nat) :
    bigEndian (width + 1) n = UInt8.ofNat (n / 256 ^ width) :: bigEndian width n := rfl

@[simp] theorem length_bigEndian (width n : Nat) : (bigEndian width n).length = width := by
  induction width with
  | zero => rfl
  | succ width ih => rw [bigEndian_succ, List.length_cons, ih]

theorem foldl_ofBigEndian (b : Bytes) (n : Nat) :
    b.foldl (fun n x => 256 * n + x.toNat) n = n * 256 ^ b.length + ofBigEndian b := by
  induction b generalizing n with
  | nil => simp [ofBigEndian]
  | cons x b ih =>
    have hx : ofBigEndian (x :: b) = x.toNat * 256 ^ b.length + ofBigEndian b := by
      rw [ofBigEndian, List.foldl_cons, ih]
      simp
    rw [List.foldl_cons, ih, hx, List.length_cons]
    ring

theorem ofBigEndian_cons (x : UInt8) (b : Bytes) :
    ofBigEndian (x :: b) = x.toNat * 256 ^ b.length + ofBigEndian b := by
  rw [ofBigEndian, List.foldl_cons, foldl_ofBigEndian]
  simp

theorem ofBigEndian_lt (b : Bytes) : ofBigEndian b < 256 ^ b.length := by
  induction b with
  | nil => simp [ofBigEndian]
  | cons x b ih =>
    have hx : (x.toNat + 1) * 256 ^ b.length ≤ 256 * 256 ^ b.length :=
      Nat.mul_le_mul_right _ x.toNat_lt
    rw [ofBigEndian_cons, List.length_cons, Nat.pow_succ']
    rw [Nat.add_mul, Nat.one_mul] at hx
    omega

theorem ofBigEndian_bigEndian (width n : Nat) : ofBigEndian (bigEndian width n) = n % 256 ^ width := by
  induction width with
  | zero => simp [bigEndian, ofBigEndian, Nat.mod_one]
  | succ width ih =>
    rw [bigEndian_succ, ofBigEndian_cons, length_bigEndian, ih, UInt8.toNat_ofNat', Nat.pow_succ (n := 256),
      Nat.mod_mul (a := 256 ^ width), Nat.mul_comm, Nat.add_comm]

theorem bigEndian_add_mul (width n k : Nat) : bigEndian width (n + k * 256 ^ width) = bigEndian width n := by
  induction width generalizing k with
  | zero => rfl
  | succ width ih =>
    rw [bigEndian_succ, bigEndian_succ, Nat.pow_succ', ← Nat.mul_assoc, ih,
      Nat.add_mul_div_right _ _ (Nat.pow_pos (by decide))]
    congr 1
    apply UInt8.toNat_inj.mp
    rw [UInt8.toNat_ofNat', UInt8.toNat_ofNat', Nat.add_mul_mod_self_right]

theorem bigEndian_ofBigEndian (b : Bytes) : bigEndian b.length (ofBigEndian b) = b := by
  induction b with
  | nil => rfl
  | cons x b ih =>
    rw [ofBigEndian_cons, List.length_cons, bigEndian_succ, Nat.add_comm, bigEndian_add_mul, ih,
      Nat.add_mul_div_right _ _ (Nat.pow_pos (by decide)), Nat.div_eq_of_lt (ofBigEndian_lt b),
      Nat.zero_add, UInt8.ofNat_toNat]

/-! ### Positions of 64 bits -/

/-- The bytes between two positions are inside a buffer. A sum that wraps around ends in front of its start. -/
def Bytes.HasRange (b : Bytes) (first last : UInt64) : Prop := first ≤ last ∧ last.toNat ≤ b.length

instance (b : Bytes) (first last : UInt64) : Decidable (b.HasRange first last) := inferInstanceAs (Decidable (_ ∧ _))

theorem toNat_add_ofNat {offset : UInt64} {n : Nat} (h : offset.toNat + n < 2 ^ 64) :
    (offset + .ofNat n).toNat = offset.toNat + n := by
  rw [UInt64.toNat_add, UInt64.toNat_ofNat', Nat.mod_eq_of_lt (show n < 2 ^ 64 by omega), Nat.mod_eq_of_lt h]

theorem Bytes.hasRange_iff {b : Bytes} {offset : UInt64} {first last : Nat} (hb : b.length < 2 ^ 64)
    (hfirst : offset.toNat + first < 2 ^ 64) (hle : first ≤ last) (hlast : last < 2 ^ 64) :
    b.HasRange (offset + .ofNat first) (offset + .ofNat last) ↔ offset.toNat + last ≤ b.length := by
  rw [HasRange, UInt64.le_iff_toNat_le, toNat_add_ofNat hfirst, UInt64.toNat_add, UInt64.toNat_ofNat',
    Nat.mod_eq_of_lt hlast]
  omega

namespace Scalar

variable {t : Scalar} {v : Int} {b buffer : Bytes} {offset i n : Nat}

theorem modulus_eq (t : Scalar) : t.modulus = 256 ^ t.width := rfl

theorem modulus_pos (t : Scalar) : 0 < t.modulus := Nat.pow_pos (by decide)

theorem two_dvd_modulus (t : Scalar) : 2 * (t.modulus / 2) = t.modulus := by
  cases t <;> decide

@[simp] theorem length_encode (t : Scalar) (v : Int) : (t.encode v).length = t.width :=
  length_bigEndian _ _

theorem inRange_decode (h : b.length = t.width) : t.InRange (t.decode b) := by
  have hlt := ofBigEndian_lt b
  rw [h, ← modulus_eq] at hlt
  have h2 := t.two_dvd_modulus
  cases hs : t.isSigned with
  | false => simp only [InRange, decode, hs, Bool.false_and]; simp; omega
  | true =>
    simp only [InRange, decode, hs, Bool.true_and, decide_eq_true_eq, ↓reduceIte]
    split <;> omega

theorem decode_mod (b : Bytes) (h : b.length = t.width) :
    (t.decode b % t.modulus).toNat = ofBigEndian b := by
  have hlt := ofBigEndian_lt b
  rw [h, ← modulus_eq] at hlt
  have hm : ((ofBigEndian b : Int) % t.modulus).toNat = ofBigEndian b := by
    rw [Int.emod_eq_of_lt (by omega) (by omega), Int.toNat_natCast]
  rw [decode]
  split
  · rw [Int.sub_emod_right, hm]
  · exact hm

theorem encode_decode (h : b.length = t.width) : t.encode (t.decode b) = b := by
  rw [encode, decode_mod b h, ← h, bigEndian_ofBigEndian]

theorem decode_encode (h : t.InRange v) : t.decode (t.encode v) = v := by
  have hm := t.modulus_pos
  have h2 := t.two_dvd_modulus
  have he : (ofBigEndian (t.encode v) : Int) = v % t.modulus := by
    have hv : 0 ≤ v % (t.modulus : Int) := Int.emod_nonneg _ (by omega)
    have hlt : v % (t.modulus : Int) < t.modulus := Int.emod_lt_of_pos _ (by omega)
    rw [encode, ofBigEndian_bigEndian, ← modulus_eq, Nat.mod_eq_of_lt (by omega), Int.toNat_of_nonneg hv]
  have hdec : t.decode (t.encode v) =
      if t.isSigned && t.modulus / 2 ≤ ofBigEndian (t.encode v) then v % t.modulus - t.modulus
      else v % t.modulus := by
    rw [decode, he]
  cases hs : t.isSigned with
  | false =>
    simp only [InRange, hs, Bool.false_eq_true, ↓reduceIte] at h
    rw [hdec, hs]
    simp only [Bool.false_and, Bool.false_eq_true, ↓reduceIte]
    exact Int.emod_eq_of_lt h.1 h.2
  | true =>
    simp only [InRange, hs, ↓reduceIte] at h
    rw [hdec, hs]
    simp only [Bool.true_and, decide_eq_true_eq]
    by_cases hneg : v < 0
    · have hv : v % (t.modulus : Int) = v + t.modulus := by
        rw [← Int.add_emod_right, Int.emod_eq_of_lt (by omega) (by omega)]
      rw [if_pos (by omega), hv]
      omega
    · have hv : v % (t.modulus : Int) = v := Int.emod_eq_of_lt (by omega) (by omega)
      rw [if_neg (by omega), hv]

/-! ### Writing over a part of a buffer -/

theorem length_splice (h : offset + b.length ≤ buffer.length) :
    (splice buffer offset b).length = buffer.length := by
  simp only [splice, List.length_append, List.length_take, List.length_drop]
  omega

theorem getElem?_splice (h : offset + b.length ≤ buffer.length) (i : Nat) :
    (splice buffer offset b)[i]? =
      if offset ≤ i ∧ i < offset + b.length then b[i - offset]? else buffer[i]? := by
  have ht : (buffer.take offset).length = offset := List.length_take_of_le (by omega)
  rw [splice, List.append_assoc]
  by_cases h₁ : i < offset
  · rw [List.getElem?_append_left (by omega), List.getElem?_take_of_lt h₁, if_neg (by omega)]
  · rw [List.getElem?_append_right (by omega), ht]
    by_cases h₂ : i < offset + b.length
    · rw [List.getElem?_append_left (by omega), if_pos (by omega)]
    · rw [List.getElem?_append_right (by omega), List.getElem?_drop, if_neg (by omega)]
      congr 1
      omega

theorem slice_splice (h : offset + b.length ≤ buffer.length) :
    ((splice buffer offset b).drop offset).take b.length = b := by
  rw [splice, List.append_assoc, List.drop_append_of_le_length (by simp; omega), List.drop_take_self,
    List.nil_append, List.take_left]

theorem splice_slice (h : offset + n ≤ buffer.length) :
    splice buffer offset ((buffer.drop offset).take n) = buffer := by
  have hl : ((buffer.drop offset).take n).length = n := List.length_take_of_le (by simp; omega)
  rw [splice, hl, ← List.drop_drop, List.append_assoc, List.take_append_drop, List.take_append_drop]

@[simp] theorem splice_nil (buffer : Bytes) (offset : Nat) : splice buffer offset [] = buffer := by
  simp [splice]

theorem splice_splice_append (buffer : Bytes) (offset : Nat) (b b' : Bytes)
    (h : offset + b.length + b'.length ≤ buffer.length) :
    splice (splice buffer offset b) (offset + b.length) b' = splice buffer offset (b ++ b') := by
  have h₁ : offset + b.length ≤ buffer.length := by omega
  apply List.ext_getElem?
  intro i
  rw [getElem?_splice (by rw [length_splice h₁]; exact h), getElem?_splice h₁,
    getElem?_splice (by rw [List.length_append]; omega), List.length_append]
  split
  · rw [if_pos (by omega), List.getElem?_append_right (by omega), Nat.sub_sub]
  · split
    · rw [if_pos (by omega), List.getElem?_append_left (by omega)]
    · rw [if_neg (by omega)]

/-! ### Access inside a buffer -/

theorem length_slice (h : offset + t.width ≤ buffer.length) :
    ((buffer.drop offset).take t.width).length = t.width :=
  List.length_take_of_le (by rw [List.length_drop]; omega)

theorem read?_of_le (h : offset + t.width ≤ buffer.length) :
    t.read? buffer offset = some (t.decode ((buffer.drop offset).take t.width)) := if_pos h

theorem write_of_le (h : offset + t.width ≤ buffer.length) (v : Int) :
    t.write v buffer offset = .ok (splice buffer offset (t.encode v)) := if_pos h

theorem read?_splice (h : offset + t.width ≤ buffer.length) (hv : t.InRange v) :
    t.read? (splice buffer offset (t.encode v)) offset = some v := by
  have hx : offset + (t.encode v).length ≤ buffer.length := by rwa [length_encode]
  have hs := slice_splice hx
  rw [length_encode] at hs
  rw [read?_of_le (by rwa [length_splice hx]), hs, decode_encode hv]

theorem write_decode (h : offset + t.width ≤ buffer.length) :
    t.write (t.decode ((buffer.drop offset).take t.width)) buffer offset = .ok buffer := by
  rw [write_of_le h, encode_decode (length_slice h), splice_slice h]

end Scalar

end RecordLayout
