import RecordLayout.Proofs.BigEndian
import Mathlib

/-!
# Laws of scalar access

What reading and writing one scalar does to a buffer, without regard to records. A number is the sum of its
bytes, each times a power of 256 (`ofBigEndian_eq_sum`), a signed one in two's complement (`decode_eq_toInt`).
Two writes that do not meet can be done in either order (`splice_comm`). At an offset of 64 bits the
access is the same, even where its end wraps around (`readWord?_eq`, `writeWord_eq`).
-/

namespace RecordLayout

theorem ofBigEndian_eq_sum (b : Bytes) :
    ofBigEndian b = ∑ k ∈ Finset.range b.length, (b.getD k 0).toNat * 256 ^ (b.length - 1 - k) := by
  induction b with
  | nil => rfl
  | cons x b ih =>
    rw [ofBigEndian_cons, ih, List.length_cons, Finset.sum_range_succ', Nat.add_comm]
    congr 1
    refine Finset.sum_congr rfl fun k _ => ?_
    rw [List.getD_cons_succ, Nat.add_sub_cancel, Nat.sub_sub, Nat.add_comm k 1]

namespace Scalar

variable {t : Scalar} {v : Int} {b x y : Bytes} {offset offset' : Nat}

/-- The bytes of a scalar at an offset as an unsigned number, most significant first. -/
def positional (t : Scalar) (b : Bytes) (offset : Nat) : Nat :=
  ∑ k ∈ Finset.range t.width, (b.getD (offset + k) 0).toNat * 256 ^ (t.width - 1 - k)

theorem ofBigEndian_slice (h : offset + t.width ≤ b.length) :
    ofBigEndian ((b.drop offset).take t.width) = t.positional b offset := by
  rw [ofBigEndian_eq_sum, length_slice h]
  refine Finset.sum_congr rfl fun k hk => ?_
  rw [List.getD_eq_getElem?_getD, List.getElem?_take_of_lt (Finset.mem_range.mp hk), List.getElem?_drop,
    ← List.getD_eq_getElem?_getD]

theorem modulus_eq_two_pow (t : Scalar) : t.modulus = 2 ^ (8 * t.width) := by
  rw [modulus_eq, Nat.pow_mul]

theorem decode_eq_toInt (hs : t.isSigned = true) (h : b.length = t.width) :
    t.decode b = (BitVec.ofNat (8 * t.width) (ofBigEndian b)).toInt := by
  have hlt := ofBigEndian_lt b
  rw [h, ← modulus_eq] at hlt
  have h2 := t.two_dvd_modulus
  rw [BitVec.toInt_ofNat', ← modulus_eq_two_pow, Int.bmod_def, Int.emod_eq_of_lt (by omega) (by omega), decode, hs]
  simp only [Bool.true_and, decide_eq_true_eq]
  split <;> split <;> omega

theorem decode_unsigned (hs : t.isSigned = false) (b : Bytes) : t.decode b = ofBigEndian b := by
  rw [decode, hs]
  rfl

theorem splice_comm (hx : offset + x.length ≤ b.length) (hy : offset' + y.length ≤ b.length)
    (hd : offset + x.length ≤ offset' ∨ offset' + y.length ≤ offset) :
    splice (splice b offset x) offset' y = splice (splice b offset' y) offset x := by
  apply List.ext_getElem?
  intro i
  rw [getElem?_splice (by rwa [length_splice hx]), getElem?_splice hx, getElem?_splice (by rwa [length_splice hy]),
    getElem?_splice hy]
  by_cases hix : offset ≤ i ∧ i < offset + x.length
  · rw [if_neg (by omega), if_pos hix, if_pos hix]
  · rw [if_neg hix, if_neg hix]

/-- Reading at an offset of 64 bits. -/
def readWord? (t : Scalar) (b : Bytes) (offset : UInt64) : Option Int :=
  let stop := offset + .ofNat t.width
  if b.HasRange offset stop then some (t.decode ((b.drop offset.toNat).take (stop.toNat - offset.toNat))) else none

/-- Writing at an offset of 64 bits. -/
def writeWord (t : Scalar) (v : Int) (b : Bytes) (offset : UInt64) : Attempt Bytes :=
  if b.HasRange offset (offset + .ofNat t.width) then .ok (splice b offset.toNat (t.encode v)) else .error b

theorem hasRange_width_iff (t : Scalar) (hb : b.length < 2 ^ 64) (offset : UInt64) :
    b.HasRange offset (offset + .ofNat t.width) ↔ offset.toNat + t.width ≤ b.length := by
  have hwidth : t.width < 2 ^ 64 := by cases t <;> decide
  have hrange := Bytes.hasRange_iff hb offset.toNat_lt (Nat.zero_le t.width) hwidth
  rwa [show offset + .ofNat 0 = offset from UInt64.add_zero offset] at hrange

theorem readWord?_eq (t : Scalar) (hb : b.length < 2 ^ 64) (offset : UInt64) :
    t.readWord? b offset = t.read? b offset.toNat := by
  unfold readWord? read?
  simp only [t.hasRange_width_iff hb]
  split
  · next h => rw [toNat_add_ofNat (by omega), Nat.add_sub_cancel_left]
  · rfl

theorem writeWord_eq (t : Scalar) (v : Int) (hb : b.length < 2 ^ 64) (offset : UInt64) :
    t.writeWord v b offset = t.write v b offset.toNat := by
  unfold writeWord write
  simp only [t.hasRange_width_iff hb]

/-- The laws of scalar access, for every type, value, buffer and offset. Reading and writing fail exactly if the scalar
would reach behind the buffer, which is then left as it is. Otherwise a write keeps the length and all other bytes and
is read back, a reading is the number that the bytes stand for, writing it back changes nothing, and a write of any
other scalar that does not meet the first one can as well come before it. All this holds of offsets of 64 bits. -/
theorem scalar_access_laws (t : Scalar) (v : Int) (hv : t.InRange v) (b : Bytes) (offset : Nat) :
    (b.length < offset + t.width → t.write v b offset = .error b ∧ t.read? b offset = none) ∧
    (offset + t.width ≤ b.length →
      (∃ b', t.write v b offset = .ok b' ∧ b'.length = b.length ∧
        (∀ i, i < offset ∨ offset + t.width ≤ i → b'[i]? = b[i]?) ∧ t.read? b' offset = some v) ∧
      (∃ n, t.read? b offset = some n ∧ t.InRange n ∧
        n = (if t.isSigned then (BitVec.ofNat (8 * t.width) (t.positional b offset)).toInt
          else (t.positional b offset : Int)) ∧
        t.write n b offset = .ok b) ∧
      ∀ (t' : Scalar) (v' : Int) (offset' : Nat), t'.InRange v' → offset' + t'.width ≤ b.length →
        offset + t.width ≤ offset' ∨ offset' + t'.width ≤ offset →
        ∃ b₁ b₂ b', t.write v b offset = .ok b₁ ∧ t'.write v' b₁ offset' = .ok b' ∧
          t'.write v' b offset' = .ok b₂ ∧ t.write v b₂ offset = .ok b') ∧
    (b.length < 2 ^ 64 → ∀ word : UInt64, word.toNat = offset →
      t.readWord? b word = t.read? b offset ∧ t.writeWord v b word = t.write v b offset) := by
  refine ⟨?_, ?_, ?_⟩
  · intro h
    exact ⟨if_neg (Nat.not_le.mpr h), if_neg (Nat.not_le.mpr h)⟩
  · intro h
    have hx : offset + (t.encode v).length ≤ b.length := by rwa [length_encode]
    refine ⟨⟨_, write_of_le h v, length_splice hx, fun i hi => ?_, read?_splice h hv⟩,
      ⟨_, read?_of_le h, inRange_decode (length_slice h), ?_, write_decode h⟩, ?_⟩
    · rw [getElem?_splice hx, length_encode, if_neg (by omega)]
    · rw [← ofBigEndian_slice h]
      cases hs : t.isSigned with
      | false => exact decode_unsigned hs _
      | true => exact decode_eq_toInt hs (length_slice h)
    · intro t' v' offset' _ h' hd
      have hy : offset' + (t'.encode v').length ≤ b.length := by rwa [length_encode]
      refine ⟨_, _, _, write_of_le h v, write_of_le (by rwa [length_splice hx]) v', write_of_le h' v', ?_⟩
      rw [write_of_le (by rwa [length_splice hy]), splice_comm hx hy (by rwa [length_encode, length_encode])]
  · rintro hb word rfl
    exact ⟨t.readWord?_eq hb word, t.writeWord_eq v hb word⟩

/-- A negative number and an unsigned one behind it, up to the end of the buffer. At the largest offset nothing can
be read. -/
theorem scalar_access_laws_adjoining :
    let b : Bytes := [0xAA, 0x80, 0x00, 0x56, 0x78, 0x9A, 0xFF]
    i16.InRange (-2) ∧ u32.InRange (2 ^ 32 - 1) ∧ i16.read? b 1 = some (-32768) ∧ i16.readWord? b (-1) = none ∧
      ∃ b₁ b₂ b', i16.write (-2) b 1 = .ok b₁ ∧ u32.write (2 ^ 32 - 1) b₁ 3 = .ok b' ∧
        u32.write (2 ^ 32 - 1) b 3 = .ok b₂ ∧ i16.write (-2) b₂ 1 = .ok b' := by
  intro b
  have hv : i16.InRange (-2) := by decide
  have hv' : u32.InRange (2 ^ 32 - 1) := by decide
  have hfits : 1 + i16.width ≤ b.length := by decide
  obtain ⟨-, -, hcomm⟩ := (scalar_access_laws i16 (-2) hv b 1).2.1 hfits
  obtain ⟨hshort, -, hwords⟩ := scalar_access_laws i16 (-2) hv b (2 ^ 64 - 1)
  have hword : i16.readWord? b (-1) = none := by
    rw [(hwords (by decide) (-1) rfl).1]
    exact (hshort (by decide)).2
  exact ⟨hv, hv', by decide, hword, hcomm u32 (2 ^ 32 - 1) 3 hv' (by decide) (by decide)⟩

end Scalar

end RecordLayout
