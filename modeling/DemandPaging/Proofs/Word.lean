import Mathlib.Algebra.Group.Nat.Defs
import DemandPaging.Config

/-!
# Masks and remainders

For an alignment that is a power of two, clearing the low bits of a word rounds it down to a
multiple of the alignment, and the bits that are cleared are the remainder.
-/

namespace DemandPaging
namespace Word

/-! ## Powers of two -/

theorem one_le_of_ne_zero {a : UInt64} (ha : a ≠ 0) : 1 ≤ a := by
  rw [UInt64.le_iff_toNat_le]
  apply Nat.pos_of_ne_zero
  intro hz
  exact ha (UInt64.toNat_inj.mp hz)

theorem toNat_pred {a : UInt64} (ha : a ≠ 0) : (a - 1).toNat = a.toNat - 1 := by
  rw [UInt64.toNat_sub_of_le _ _ (one_le_of_ne_zero ha)]
  rfl

theorem exists_toNat_eq_two_pow {a : UInt64} (h : isPowerOfTwo a = true) :
    ∃ k, a.toNat = 2 ^ k := by
  simp only [isPowerOfTwo, Bool.and_eq_true, bne_iff_ne, beq_iff_eq] at h
  rcases h with ⟨hne, hmask⟩
  have hnat : a.toNat ≠ 0 := by
    intro hz
    exact hne (UInt64.toNat_inj.mp hz)
  have hzero : a.toNat &&& (a.toNat - 1) = 0 := by
    have htoNat := congrArg UInt64.toNat hmask
    rw [UInt64.toNat_and, toNat_pred hne] at htoNat
    exact htoNat
  exact (Nat.and_sub_one_eq_zero_iff_isPowerOfTwo hnat).mp hzero

theorem isPowerOfTwo_iff {a : UInt64} : isPowerOfTwo a = true ↔ ∃ k, a.toNat = 2 ^ k := by
  constructor
  · exact exists_toNat_eq_two_pow
  · rintro ⟨k, hk⟩
    have hne : a ≠ 0 := by
      intro hz
      rw [hz] at hk
      exact Nat.ne_of_lt (Nat.two_pow_pos k) hk
    have hmask : a &&& (a - 1) = 0 := by
      apply UInt64.toNat_inj.mp
      rw [UInt64.toNat_and, toNat_pred hne, hk, Nat.and_two_pow_sub_one_eq_mod, Nat.mod_self]
      rfl
    simp only [isPowerOfTwo, Bool.and_eq_true, bne_iff_ne, beq_iff_eq]
    exact ⟨hne, hmask⟩

theorem toNat_pos_of_isPowerOfTwo {a : UInt64} (h : isPowerOfTwo a = true) :
    0 < a.toNat := by
  rcases exists_toNat_eq_two_pow h with ⟨k, hk⟩
  rw [hk]
  exact Nat.two_pow_pos k

theorem toNat_dvd_size {a : UInt64} (h : isPowerOfTwo a = true) : a.toNat ∣ UInt64.size := by
  rcases exists_toNat_eq_two_pow h with ⟨k, hk⟩
  have hlt : 2 ^ k < 2 ^ 64 := hk ▸ a.toNat_lt_size
  rw [hk]
  exact Nat.pow_dvd_pow 2 (Nat.le_of_lt ((Nat.pow_lt_pow_iff_right (by decide)).mp hlt))

theorem add_le_of_dvd_of_lt {k n m : Nat} (hn : k ∣ n) (hm : k ∣ m) (hlt : n < m) :
    n + k ≤ m := by
  have hle : k ≤ m - n := Nat.le_of_dvd (Nat.sub_pos_of_lt hlt) (Nat.dvd_sub hm hn)
  omega

/-! ## The parts of a word -/

variable {v a : UInt64}

theorem toNat_offsetIn (h : isPowerOfTwo a = true) :
    (offsetIn v a).toNat = v.toNat % a.toNat := by
  rcases exists_toNat_eq_two_pow h with ⟨k, hk⟩
  rw [offsetIn, UInt64.toNat_and, toNat_pred (ne_zero_of_isPowerOfTwo h), hk,
    Nat.and_two_pow_sub_one_eq_mod]

theorem offsetIn_eq_mod (h : isPowerOfTwo a = true) : offsetIn v a = v % a := by
  apply UInt64.toNat_inj.mp
  rw [toNat_offsetIn h, UInt64.toNat_mod]

theorem alignDown_and_offsetIn (v a : UInt64) : alignDown v a &&& offsetIn v a = 0 := by
  unfold alignDown offsetIn
  apply UInt64.toBitVec_inj.mp
  apply BitVec.eq_of_getLsbD_eq
  intro i hi
  simp only [UInt64.toBitVec_and, UInt64.toBitVec_not, BitVec.getLsbD_and, BitVec.getLsbD_not,
    hi, decide_true, Bool.true_and]
  cases v.toBitVec.getLsbD i <;> cases (a - 1).toBitVec.getLsbD i <;> simp

theorem alignDown_eq_sub (v a : UInt64) : alignDown v a = v - offsetIn v a := by
  have hsum : alignDown v a + offsetIn v a = v := by
    have hand := congrArg UInt64.toBitVec (alignDown_and_offsetIn v a)
    rw [UInt64.toBitVec_and] at hand
    apply UInt64.toBitVec_inj.mp
    rw [UInt64.toBitVec_add, BitVec.add_eq_or_of_and_eq_zero _ _ hand, ← UInt64.toBitVec_or,
      alignDown_or_offsetIn]
  rw [← UInt64.add_sub_cancel (alignDown v a) (offsetIn v a), hsum]

theorem alignDown_eq_sub_mod (h : isPowerOfTwo a = true) : alignDown v a = v - v % a := by
  rw [alignDown_eq_sub, offsetIn_eq_mod h]

theorem toNat_alignDown (h : isPowerOfTwo a = true) :
    (alignDown v a).toNat = v.toNat - v.toNat % a.toNat := by
  have hle : v % a ≤ v := by
    rw [UInt64.le_iff_toNat_le, UInt64.toNat_mod]
    exact Nat.mod_le _ _
  rw [alignDown_eq_sub_mod h, UInt64.toNat_sub_of_le _ _ hle, UInt64.toNat_mod]

theorem isAligned_iff_mod (h : isPowerOfTwo a = true) :
    isAligned v a = true ↔ v.toNat % a.toNat = 0 := by
  rw [isAligned, beq_iff_eq, ← toNat_offsetIn h]
  constructor
  · intro hzero
    rw [hzero]
    rfl
  · intro hzero
    exact UInt64.toNat_inj.mp hzero

theorem isAligned_iff_dvd (h : isPowerOfTwo a = true) :
    isAligned v a = true ↔ a.toNat ∣ v.toNat :=
  (isAligned_iff_mod h).trans Nat.dvd_iff_mod_eq_zero.symm

theorem isAligned_alignDown (h : isPowerOfTwo a = true) : isAligned (alignDown v a) a = true := by
  rw [isAligned_iff_mod h, toNat_alignDown h]
  exact Nat.sub_mod_eq_zero_of_mod_eq (Nat.mod_mod _ _).symm

theorem alignDown_of_isAligned (h : isPowerOfTwo a = true) (hv : isAligned v a = true) :
    alignDown v a = v := by
  apply UInt64.toNat_inj.mp
  rw [toNat_alignDown h, (isAligned_iff_mod h).mp hv]
  rfl

theorem alignDown_alignDown (h : isPowerOfTwo a = true) :
    alignDown (alignDown v a) a = alignDown v a :=
  alignDown_of_isAligned h (isAligned_alignDown h)

theorem toNat_min (a b : UInt64) : (min a b).toNat = min a.toNat b.toNat := by
  show (if a ≤ b then a else b).toNat = if a.toNat ≤ b.toNat then a.toNat else b.toNat
  simp only [UInt64.le_iff_toNat_le]
  split
  · rfl
  · rfl

theorem toNat_saturatingSub (a b : UInt64) : (saturatingSub a b).toNat = a.toNat - b.toNat := by
  unfold saturatingSub
  split
  · rename_i hle
    exact UInt64.toNat_sub_of_le a b hle
  · rename_i hlt
    have hlt' := Nat.lt_of_not_le fun hle => hlt (UInt64.le_iff_toNat_le.mpr hle)
    exact (Nat.sub_eq_zero_of_le (Nat.le_of_lt hlt')).symm

theorem size_le_of_checkedAdd {b : UInt64} (h : checkedAdd a b = none) :
    UInt64.size ≤ a.toNat + b.toNat := by
  unfold checkedAdd at h
  split at h
  · contradiction
  · rename_i hlt
    exact Nat.le_of_not_lt hlt

theorem eq_add_of_checkedAdd {b c : UInt64} (h : checkedAdd a b = some c) : c = a + b := by
  unfold checkedAdd at h
  split at h
  · exact (Option.some.inj h).symm
  · contradiction

/-! ## Alignment with checks -/

theorem offsetInOrAbort_eq (ha : a ≠ 0) : offsetInOrAbort v a = .ok (offsetIn v a) := by
  unfold offsetInOrAbort subOrAbort checkedSub
  rw [if_pos (one_le_of_ne_zero ha)]
  rfl

theorem isAlignedOrAbort_eq (ha : a ≠ 0) : isAlignedOrAbort v a = .ok (isAligned v a) := by
  rw [isAlignedOrAbort, offsetInOrAbort_eq ha]
  rfl

/-! ## Addresses in an aligned block -/

theorem toNat_add_le_size (h : isPowerOfTwo a = true) (hv : isAligned v a = true) :
    v.toNat + a.toNat ≤ UInt64.size :=
  add_le_of_dvd_of_lt ((isAligned_iff_dvd h).mp hv) (toNat_dvd_size h) v.toNat_lt_size

theorem toNat_sub_mod_add_le (h : isPowerOfTwo a = true) :
    v.toNat - (v % a).toNat + a.toNat ≤ UInt64.size := by
  have hroom := toNat_add_le_size h (isAligned_alignDown (v := v) h)
  rw [toNat_alignDown h, ← UInt64.toNat_mod] at hroom
  exact hroom

theorem toNat_add_ofNat (h : isPowerOfTwo a = true) (hv : isAligned v a = true) {i : Nat}
    (hi : i < a.toNat) : (v + UInt64.ofNat i).toNat = v.toNat + i := by
  have hroom : v.toNat + a.toNat ≤ 2 ^ 64 := toNat_add_le_size h hv
  rw [UInt64.toNat_add, UInt64.toNat_ofNat', Nat.mod_eq_of_lt (by omega : i < 2 ^ 64),
    Nat.mod_eq_of_lt (by omega)]

theorem alignDown_add_ofNat (h : isPowerOfTwo a = true) (hv : isAligned v a = true) {i : Nat}
    (hi : i < a.toNat) : alignDown (v + UInt64.ofNat i) a = v := by
  have hmod := (isAligned_iff_mod h).mp hv
  apply UInt64.toNat_inj.mp
  rw [toNat_alignDown h, toNat_add_ofNat h hv hi, Nat.add_mod, hmod, Nat.zero_add, Nat.mod_mod,
    Nat.mod_eq_of_lt hi]
  omega

theorem alignDown_add_offset (v a : UInt64) : alignDown v a + offsetIn v a = v := by
  rw [alignDown_eq_sub, UInt64.sub_add_cancel]

/-- The block that an address lies in is the one whose start is less than a block away. -/
theorem sub_lt_iff_alignDown_eq (h : isPowerOfTwo a = true) (hv : isAligned v a = true)
    (x : UInt64) : (x - v).toNat < a.toNat ↔ alignDown x a = v := by
  constructor
  · intro hin
    have hx : v + UInt64.ofNat (x - v).toNat = x := by
      rw [UInt64.ofNat_toNat, UInt64.add_comm, UInt64.sub_add_cancel]
    rw [← hx]
    exact alignDown_add_ofNat h hv hin
  · intro heq
    have hoffset : x - v = offsetIn x a := by
      rw [← heq, alignDown_eq_sub]
      grind
    rw [hoffset, toNat_offsetIn h]
    exact Nat.mod_lt _ (toNat_pos_of_isPowerOfTwo h)

/-- Addresses in the rest of a page of any size, as long as they do not wrap: they lie in the same
page. -/
theorem add_ofNat_in_page {i : Nat} (hroom : v.toNat + i < 2 ^ 64)
    (hi : (v % a).toNat + i < a.toNat) :
    (v + UInt64.ofNat i).toNat = v.toNat + i ∧
      ((v + UInt64.ofNat i) % a).toNat = (v % a).toNat + i ∧
      v + UInt64.ofNat i - (v + UInt64.ofNat i) % a = v - v % a := by
  have hmod_le : ∀ w : UInt64, w % a ≤ w := by
    intro w
    rw [UInt64.le_iff_toNat_le, UInt64.toNat_mod]
    exact Nat.mod_le _ _
  have hsum : (v + UInt64.ofNat i).toNat = v.toNat + i := by
    rw [UInt64.toNat_add, UInt64.toNat_ofNat', Nat.mod_eq_of_lt (by omega : i < 2 ^ 64),
      Nat.mod_eq_of_lt hroom]
  have hoffset : ((v + UInt64.ofNat i) % a).toNat = (v % a).toNat + i := by
    rw [UInt64.toNat_mod] at hi ⊢
    rw [hsum, UInt64.toNat_mod, ← Nat.mod_add_mod, Nat.mod_eq_of_lt hi]
  refine ⟨hsum, hoffset, ?_⟩
  apply UInt64.toNat_inj.mp
  rw [UInt64.toNat_sub_of_le _ _ (hmod_le _), UInt64.toNat_sub_of_le _ _ (hmod_le _), hsum, hoffset]
  omega

theorem add_ofNat_in_block (h : isPowerOfTwo a = true) {i : Nat}
    (hi : (v % a).toNat + i < a.toNat) :
    (v + UInt64.ofNat i).toNat = v.toNat + i ∧
      ((v + UInt64.ofNat i) % a).toNat = (v % a).toNat + i ∧
      v + UInt64.ofNat i - (v + UInt64.ofNat i) % a = v - v % a := by
  have hroom : v.toNat - (v % a).toNat + a.toNat ≤ 2 ^ 64 := toNat_sub_mod_add_le h
  have hle : (v % a).toNat ≤ v.toNat := Nat.mod_le _ _
  exact add_ofNat_in_page (by omega) hi

end Word
end DemandPaging
