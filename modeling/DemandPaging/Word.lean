/-!
# Sixty-four-bit words

Addresses, sizes and file offsets are 64-bit words. Sums and differences that leave the word
are reported instead of wrapped, and alignment is computed with a mask of low bits, so that it
agrees with rounding to multiples only when the alignment is a power of two.
-/

namespace DemandPaging

abbrev Vaddr := UInt64

namespace Word

/-! ## Checked arithmetic -/

def checkedAdd (a b : UInt64) : Option UInt64 :=
  if a.toNat + b.toNat < UInt64.size then some (a + b) else none

def checkedSub (a b : UInt64) : Option UInt64 :=
  if b ≤ a then some (a - b) else none

def saturatingSub (a b : UInt64) : UInt64 :=
  if b ≤ a then a - b else 0

/-! ## Alignment -/

/-- A word with exactly one bit set. -/
def isPowerOfTwo (a : UInt64) : Bool :=
  a != 0 && a &&& (a - 1) == 0

/-- Clears the bits of `v` below the power of two `a`. -/
def alignDown (v a : UInt64) : UInt64 :=
  v &&& ~~~(a - 1)

/-- Rounds `v` up to the power of two `a`, unless the result leaves the word. -/
def alignUp? (v a : UInt64) : Option UInt64 :=
  (checkedAdd v (a - 1)).map fun sum => sum &&& ~~~(a - 1)

def offsetIn (v a : UInt64) : UInt64 :=
  v &&& (a - 1)

def isAligned (v a : UInt64) : Bool :=
  offsetIn v a == 0

/-! ## First laws -/

theorem ne_zero_of_isPowerOfTwo {a : UInt64} (h : isPowerOfTwo a = true) : a ≠ 0 := by
  simp only [isPowerOfTwo, Bool.and_eq_true, bne_iff_ne] at h
  exact h.1

theorem checkedAdd_eq_some_iff {a b c : UInt64} :
    checkedAdd a b = some c ↔ a.toNat + b.toNat = c.toNat := by
  unfold checkedAdd
  constructor
  · intro h
    split at h
    · rename_i hlt
      cases h
      rw [UInt64.toNat_add, Nat.mod_eq_of_lt hlt]
    · contradiction
  · intro h
    have hlt : a.toNat + b.toNat < UInt64.size := by
      rw [h]
      exact c.toNat_lt_size
    rw [if_pos hlt]
    congr 1
    apply UInt64.toNat_inj.mp
    rw [UInt64.toNat_add, Nat.mod_eq_of_lt hlt, h]

/-- A word is its rounding down together with the bits that rounding cleared. -/
theorem alignDown_or_offsetIn (v a : UInt64) :
    alignDown v a ||| offsetIn v a = v := by
  unfold alignDown offsetIn
  apply UInt64.toBitVec_inj.mp
  apply BitVec.eq_of_getLsbD_eq
  intro i hi
  simp only [UInt64.toBitVec_or, UInt64.toBitVec_and, UInt64.toBitVec_not,
    BitVec.getLsbD_or, BitVec.getLsbD_and, BitVec.getLsbD_not, hi, decide_true,
    Bool.true_and]
  cases v.toBitVec.getLsbD i <;> cases (a - 1).toBitVec.getLsbD i <;> rfl

end Word
end DemandPaging
