import Mathlib.Order.Bounds.Basic
import DemandPaging.Proofs.Word

/-!
# Rounding to multiples

For an alignment that is a power of two, the masks round among all natural numbers: down to the
largest multiple that is not above the word, and up to the smallest that is not below it. Rounding
up has no result exactly when that multiple is no word.
-/

namespace DemandPaging
namespace Word

variable {v a w : UInt64} {n : Nat}

def multiplesUpTo (v a : UInt64) : Set Nat :=
  {n | a.toNat ∣ n ∧ n ≤ v.toNat}

/-- The multiples of `a` that are not below `v`, also those that leave the word. -/
def multiplesFrom (v a : UInt64) : Set Nat :=
  {n | a.toNat ∣ n ∧ v.toNat ≤ n}

/-! ## Rounding down -/

theorem dvd_toNat_alignDown (h : isPowerOfTwo a = true) : a.toNat ∣ (alignDown v a).toNat :=
  (isAligned_iff_dvd h).mp (isAligned_alignDown h)

theorem toNat_offsetIn_lt (h : isPowerOfTwo a = true) : (offsetIn v a).toNat < a.toNat := by
  rw [toNat_offsetIn h]
  exact Nat.mod_lt _ (toNat_pos_of_isPowerOfTwo h)

theorem toNat_alignDown_add_offsetIn (h : isPowerOfTwo a = true) :
    (alignDown v a).toNat + (offsetIn v a).toNat = v.toNat := by
  rw [toNat_alignDown h, toNat_offsetIn h]
  exact Nat.sub_add_cancel (Nat.mod_le _ _)

theorem isGreatest_alignDown (h : isPowerOfTwo a = true) :
    IsGreatest (multiplesUpTo v a) (alignDown v a).toNat := by
  have hsplit := toNat_alignDown_add_offsetIn (v := v) h
  have hlt := toNat_offsetIn_lt (v := v) h
  constructor
  · exact ⟨dvd_toNat_alignDown h, by omega⟩
  · intro n hn
    rcases hn with ⟨hdvd, hle⟩
    apply Nat.le_of_not_lt
    intro habove
    -- The next multiple is a whole alignment away, further than the offset reaches.
    have hnext := add_le_of_dvd_of_lt (dvd_toNat_alignDown h) hdvd habove
    omega

/-! ## Rounding up -/

theorem bounds_of_alignUp? (h : isPowerOfTwo a = true) (hup : alignUp? v a = some w) :
    a.toNat ∣ w.toNat ∧ v.toNat ≤ w.toNat ∧ w.toNat < v.toNat + a.toNat := by
  rcases Option.map_eq_some_iff.mp hup with ⟨sum, hsum, hw⟩
  change alignDown sum a = w at hw
  have hadd := checkedAdd_eq_some_iff.mp hsum
  rw [toNat_pred (ne_zero_of_isPowerOfTwo h)] at hadd
  have hsplit := toNat_alignDown_add_offsetIn (v := sum) h
  have hlt := toNat_offsetIn_lt (v := sum) h
  rw [← hw]
  exact ⟨dvd_toNat_alignDown h, by omega, by omega⟩

theorem isLeast_of_alignUp? (h : isPowerOfTwo a = true) (hup : alignUp? v a = some w) :
    IsLeast (multiplesFrom v a) w.toNat := by
  rcases bounds_of_alignUp? h hup with ⟨hdvd, hle, hlt⟩
  constructor
  · exact ⟨hdvd, hle⟩
  · intro n hn
    rcases hn with ⟨hdvd', hle'⟩
    apply Nat.le_of_not_lt
    intro hbelow
    have hnext := add_le_of_dvd_of_lt hdvd' hdvd hbelow
    omega

theorem size_le_of_alignUp? (h : isPowerOfTwo a = true) (hup : alignUp? v a = none)
    (hn : n ∈ multiplesFrom v a) : UInt64.size ≤ n := by
  rcases hn with ⟨hdvd, hle⟩
  have hsum := size_le_of_checkedAdd (Option.map_eq_none_iff.mp hup)
  rw [toNat_pred (ne_zero_of_isPowerOfTwo h)] at hsum
  have hpos := toNat_pos_of_isPowerOfTwo h
  apply Nat.le_of_not_lt
  intro hlt
  have hroom := add_le_of_dvd_of_lt hdvd (toNat_dvd_size h) hlt
  omega

theorem alignUp?_eq_some_iff (h : isPowerOfTwo a = true) :
    alignUp? v a = some w ↔ IsLeast (multiplesFrom v a) w.toNat := by
  constructor
  · exact isLeast_of_alignUp? h
  · intro hleast
    cases hup : alignUp? v a with
    | none =>
        have hsize := size_le_of_alignUp? h hup hleast.1
        exact absurd w.toNat_lt_size (Nat.not_lt_of_le hsize)
    | some u =>
        have heq := (isLeast_of_alignUp? h hup).unique hleast
        rw [UInt64.toNat_inj.mp heq]

theorem alignUp?_eq_none_iff (h : isPowerOfTwo a = true) :
    alignUp? v a = none ↔ ∃ n, IsLeast (multiplesFrom v a) n ∧ UInt64.size ≤ n := by
  constructor
  · intro hup
    -- The alignment divides the number of all words, which is then the first multiple left.
    refine ⟨UInt64.size, ⟨⟨toNat_dvd_size h, Nat.le_of_lt v.toNat_lt_size⟩, ?_⟩, Nat.le_refl _⟩
    intro n hn
    exact size_le_of_alignUp? h hup hn
  · rintro ⟨n, hleast, hsize⟩
    cases hup : alignUp? v a with
    | none => rfl
    | some u =>
        have heq := (isLeast_of_alignUp? h hup).unique hleast
        have hlt := u.toNat_lt_size
        omega

/-! ## All alignment functions -/

/-- The alignment functions have results for `v` and `a`, and these are the results of exact
arithmetic. -/
structure AlignsExactly (v a : UInt64) : Prop where
  down : alignDownOrAbort v a = .ok (alignDown v a)
  greatest : IsGreatest (multiplesUpTo v a) (alignDown v a).toNat
  offset : offsetInOrAbort v a = .ok (offsetIn v a)
  parts : v.toNat = (alignDown v a).toNat + (offsetIn v a).toNat
  within : (offsetIn v a).toNat < a.toNat
  up : alignUpOrAbort v a = .ok (alignUp? v a)
  /-- The smallest multiple is the result if it is a word. -/
  least : ∀ w, alignUp? v a = some w ↔ IsLeast (multiplesFrom v a) w.toNat
  /-- There is no result exactly if the smallest multiple is no word. -/
  beyond : alignUp? v a = none ↔ ∃ n, IsLeast (multiplesFrom v a) n ∧ UInt64.size ≤ n
  aligned : isAlignedOrAbort v a = .ok (isAligned v a)
  divides : isAligned v a = true ↔ a.toNat ∣ v.toNat

theorem alignsExactly (h : isPowerOfTwo a = true) : AlignsExactly v a where
  down := if_pos h
  greatest := isGreatest_alignDown h
  offset := offsetInOrAbort_eq (ne_zero_of_isPowerOfTwo h)
  parts := (toNat_alignDown_add_offsetIn h).symm
  within := toNat_offsetIn_lt h
  up := if_pos h
  least := fun _ => alignUp?_eq_some_iff h
  beyond := alignUp?_eq_none_iff h
  aligned := isAlignedOrAbort_eq (ne_zero_of_isPowerOfTwo h)
  divides := isAligned_iff_dvd h

end Word
end DemandPaging
