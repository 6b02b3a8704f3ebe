import DemandPaging.Proofs.Swap.Bitmap
import Mathlib.Data.Finset.Card
import Mathlib.Data.Finset.Range

/-!
# Giving slots out and taking them back

The search goes through all words of the bitmap, whatever the hint, and passes over a word only
when every slot of it is in use. So a slot is found as long as one is free. A sequence of requests
keeps, beside the bitmap, the set of the slots that were given out and not taken back; the bits of
the bitmap are that set.
-/

namespace DemandPaging
namespace Swap
namespace Bitmap

variable {b next : Bitmap} {slot : Nat}

/-! ## The search -/

theorem getLsbD_of_lowestClear_eq_none {w : BitVec 64} (h : lowestClear w = none) {i : Nat}
    (hi : i < 64) : w.getLsbD i = true := by
  have hall := List.find?_eq_none.mp h i (List.mem_range.mpr hi)
  simpa using hall

theorem getLsbD_of_lt_lowestClear {w : BitVec 64} {bit i : Nat} (h : lowestClear w = some bit)
    (hi : i < bit) : w.getLsbD i = true := by
  have hmin := (List.find?_range_eq_some.mp h).2.2 i hi
  simpa using hmin

theorem isUsed_of_freeSlotOf_eq_none {w : Nat} (h : b.freeSlotOf w = none)
    (hslot : slot < b.total) (hw : slot / 64 = w) : b.isUsed slot = true := by
  rw [isUsed, hw]
  have hmod : slot % 64 < 64 := Nat.mod_lt slot (by decide)
  unfold freeSlotOf at h
  split at h
  · rename_i bit hbit
    split at h
    · contradiction
    · -- The lowest clear bit lies behind the last slot, so the bits of the slots are below it.
      exact getLsbD_of_lt_lowestClear hbit (by omega)
  · rename_i hfull
    exact getLsbD_of_lowestClear_eq_none hfull hmod

theorem div_of_freeSlotOf {w : Nat} (h : b.freeSlotOf w = some slot) : slot / 64 = w := by
  unfold freeSlotOf at h
  split at h
  · rename_i bit hbit
    have hlt : bit < 64 := List.mem_range.mp (List.mem_of_find?_eq_some hbit)
    split at h
    · cases h
      omega
    · contradiction
  · contradiction

theorem mem_searchOrder {w : Nat} (h : w < b.words.length) : w ∈ b.searchOrder := by
  have hpos : 0 < b.words.length := Nat.zero_lt_of_lt h
  have hhint : b.hint % b.words.length < b.words.length := Nat.mod_lt _ hpos
  have hsame : ∀ step, (b.hint + step) % b.words.length =
      (b.hint % b.words.length + step) % b.words.length := by
    intro step
    rw [Nat.mod_add_mod]
  apply List.mem_map.mpr
  by_cases hbehind : b.hint % b.words.length ≤ w
  · refine ⟨w - b.hint % b.words.length, List.mem_range.mpr (by omega), ?_⟩
    rw [hsame, Nat.add_sub_of_le hbehind]
    exact Nat.mod_eq_of_lt h
  · refine ⟨b.words.length + w - b.hint % b.words.length, List.mem_range.mpr (by omega), ?_⟩
    rw [hsame, Nat.add_sub_of_le (by omega), Nat.add_mod_left]
    exact Nat.mod_eq_of_lt h

theorem isUsed_of_allocate?_eq_none (hb : b.WellFormed) (h : b.allocate? = none)
    (hslot : slot < b.total) : b.isUsed slot = true := by
  unfold allocate? at h
  split at h
  · contradiction
  · rename_i hnone
    have hword : slot / 64 < b.words.length := by
      rw [hb.wordCount]
      omega
    exact isUsed_of_freeSlotOf_eq_none (List.findSome?_eq_none_iff.mp hnone _ (mem_searchOrder hword))
      hslot rfl

theorem allocate?_eq_mark (h : b.allocate? = some (slot, next)) :
    slot / 64 < b.words.length ∧ slot < b.total ∧ b.isUsed slot = false ∧
      next = { b.mark slot with used := b.used + 1, hint := slot / 64 } := by
  unfold allocate? at h
  split at h
  · rename_i found hfound
    cases h
    rcases List.exists_of_findSome?_eq_some hfound with ⟨w, hw, hslot⟩
    rcases List.mem_map.mp hw with ⟨step, hstep, rfl⟩
    have hpos : 0 < b.words.length := Nat.zero_lt_of_lt (List.mem_range.mp hstep)
    rcases freeSlotOf_eq_some hslot with ⟨htotal, hfree⟩
    refine ⟨?_, htotal, hfree, rfl⟩
    rw [div_of_freeSlotOf hslot]
    exact Nat.mod_lt _ hpos
  · contradiction

theorem release_of_allocate? (h : b.allocate? = some (slot, next)) :
    ∃ back, next.release slot = .ok back ∧ back.used = b.used ∧
      ∀ s, back.isUsed s = b.isUsed s := by
  rcases allocate?_eq_mark h with ⟨hword, htotal, hfree, rfl⟩
  have hmark := isUsed_mark hword
  have hself : (b.mark slot).isUsed slot = true := by
    rw [hmark]
    simp
  have hword' : slot / 64 < (b.mark slot).words.length := by
    rw [show (b.mark slot).words.length = b.words.length from List.length_modify ..]
    exact hword
  refine ⟨_, release_eq_ok htotal hself (Nat.succ_ne_zero b.used), rfl, ?_⟩
  intro s
  refine (isUsed_unmark hword' s).trans ?_
  rw [hmark]
  by_cases hs : s = slot
  · subst hs
    simp [hfree]
  · simp [hs]

/-! ## The slots that are out -/

structure Lends (b : Bitmap) (out : Finset Nat) : Prop where
  wellFormed : b.WellFormed
  isUsed_iff : ∀ slot, b.isUsed slot = true ↔ slot ∈ out

namespace Lends

variable {out : Finset Nat}

theorem free (total : Nat) : (Bitmap.free total).Lends ∅ where
  wellFormed := free_wellFormed total
  isUsed_iff := by
    intro slot
    rw [isUsed_free]
    simp

theorem lt_total (h : b.Lends out) (hslot : slot ∈ out) : slot < b.total :=
  h.wellFormed.lt_total ((h.isUsed_iff slot).mpr hslot)

theorem isUsed_eq_false (h : b.Lends out) (hslot : slot ∉ out) : b.isUsed slot = false := by
  rw [← Bool.not_eq_true]
  intro hused
  exact hslot ((h.isUsed_iff slot).mp hused)

theorem eq_filter (h : b.Lends out) :
    out = (Finset.range b.total).filter fun slot => b.isUsed slot = true := by
  ext slot
  rw [Finset.mem_filter, Finset.mem_range, h.isUsed_iff]
  constructor
  · intro hslot
    exact ⟨h.lt_total hslot, hslot⟩
  · intro hboth
    exact hboth.2

theorem used_eq_card (h : b.Lends out) : b.used = out.card := by
  calc
    b.used = (List.range b.total).countP b.isUsed := h.wellFormed.counted
    _ = ((List.range b.total).filter fun slot => decide (b.isUsed slot = true)).length := by
      rw [List.countP_eq_length_filter]
      simp only [Bool.decide_eq_true]
    _ = out.card := by
      rw [h.eq_filter]
      rfl

theorem card_le_total (h : b.Lends out) : out.card ≤ b.total := by
  have hsub : out ⊆ Finset.range b.total := by
    intro slot hslot
    exact Finset.mem_range.mpr (h.lt_total hslot)
  have hcard := Finset.card_le_card hsub
  rwa [Finset.card_range] at hcard

theorem eq_range_of_allocate?_eq_none (h : b.Lends out) (hnone : b.allocate? = none) :
    out = Finset.range b.total := by
  ext slot
  rw [Finset.mem_range]
  constructor
  · exact h.lt_total
  · intro hslot
    exact (h.isUsed_iff slot).mp (isUsed_of_allocate?_eq_none h.wellFormed hnone hslot)

/-- A slot is given out exactly when fewer slots are out than there are. -/
theorem isSome_allocate?_iff (h : b.Lends out) :
    b.allocate?.isSome = true ↔ out.card < b.total := by
  cases halloc : b.allocate? with
  | none =>
      rw [h.eq_range_of_allocate?_eq_none halloc, Finset.card_range]
      simp
  | some given =>
      rcases allocate?_eq_some h.wellFormed halloc with ⟨hlt, hfree, -⟩
      have hnew : given.1 ∉ out := by
        intro hmem
        rw [(h.isUsed_iff _).mpr hmem] at hfree
        contradiction
      have hne : out.card ≠ b.total := by
        intro hfull
        have hall : out = Finset.range b.total := by
          apply Finset.eq_of_subset_of_card_le
          · intro slot hslot
            exact Finset.mem_range.mpr (h.lt_total hslot)
          · rw [Finset.card_range, hfull]
        apply hnew
        rw [hall]
        exact Finset.mem_range.mpr hlt
      have hle := h.card_le_total
      simp
      omega

theorem insert (h : b.Lends out) (halloc : b.allocate? = some (slot, next)) :
    next.Lends (insert slot out) ∧ next.total = b.total := by
  rcases allocate?_eq_some h.wellFormed halloc with ⟨-, -, htotal, hnext, hused⟩
  refine ⟨⟨hnext, ?_⟩, htotal⟩
  intro s
  rw [hused, Bool.or_eq_true, decide_eq_true_eq, Finset.mem_insert, h.isUsed_iff]

theorem erase (h : b.Lends out) (hslot : slot ∈ out) :
    ∃ after, b.release slot = .ok after ∧ after.Lends (out.erase slot) ∧
      after.total = b.total := by
  rcases release_of_isUsed h.wellFormed ((h.isUsed_iff slot).mpr hslot) with
    ⟨after, hafter, htotal, hwell, hused⟩
  refine ⟨after, hafter, ⟨hwell, ?_⟩, htotal⟩
  intro s
  rw [hused, Bool.and_eq_true, Finset.mem_erase, h.isUsed_iff]
  simp

theorem release_of_notMem (h : b.Lends out) (hslot : slot ∉ out) :
    b.release slot =
      .error (if slot < b.total then .slotFreedTwice slot else .slotOutOfRange slot) := by
  unfold release
  by_cases hlt : slot < b.total
  · rw [if_neg (Nat.not_le.mpr hlt), if_pos hlt, h.isUsed_eq_false hslot]
    rfl
  · rw [if_pos (Nat.not_lt.mp hlt), if_neg hlt]

end Lends

/-! ## Sequences of requests -/

/-- A bitmap of `total` slots after any sequence of allocations and of releases of slots that are
out, with the set of the slots that are out. -/
inductive Served (total : Nat) : Finset Nat → Bitmap → Prop where
  | start : Served total ∅ (free total)
  | given {out : Finset Nat} {b next : Bitmap} {slot : Nat} :
      Served total out b →
      b.allocate? = some (slot, next) →
      Served total (insert slot out) next
  | declined {out : Finset Nat} {b : Bitmap} :
      Served total out b →
      b.allocate? = none →
      Served total out b
  | returned {out : Finset Nat} {b next : Bitmap} {slot : Nat} :
      Served total out b →
      slot ∈ out →
      b.release slot = .ok next →
      Served total (out.erase slot) next

theorem Served.lends {total : Nat} {out : Finset Nat} (h : Served total out b) :
    b.Lends out ∧ b.total = total := by
  induction h with
  | start => exact ⟨Lends.free total, rfl⟩
  | given _ halloc ih =>
      rcases ih.1.insert halloc with ⟨hlends, htotal⟩
      exact ⟨hlends, htotal.trans ih.2⟩
  | declined _ _ ih => exact ih
  | returned _ hslot hrelease ih =>
      rcases ih.1.erase hslot with ⟨after, hafter, hlends, htotal⟩
      rw [hrelease] at hafter
      cases hafter
      exact ⟨hlends, htotal.trans ih.2⟩

/-- After any sequence of requests a slot is given out exactly when one is free, and it is one
that was free; the bits that are set are those of the slots that are out, and they are counted;
and exactly those slots can be taken back. -/
theorem allocation_sound_and_complete {total : Nat} {out : Finset Nat}
    (h : Served total out b) :
    (b.allocate?.isSome = true ↔ out.card < total) ∧
      (∀ slot next, b.allocate? = some (slot, next) → slot < total ∧ slot ∉ out) ∧
      (∀ slot, slot < total → (b.isUsed slot = true ↔ slot ∈ out)) ∧
      (∀ slot, total ≤ slot → b.isUsed slot = false ∧ slot ∉ out) ∧
      b.used = out.card ∧
      (∀ slot, slot ∈ out → ∃ next, b.release slot = .ok next) ∧
      ∀ slot, slot ∉ out → b.release slot =
        .error (if slot < total then .slotFreedTwice slot else .slotOutOfRange slot) := by
  rcases h.lends with ⟨hlends, rfl⟩
  refine ⟨hlends.isSome_allocate?_iff, ?_, ?_, ?_, hlends.used_eq_card, ?_, ?_⟩
  · intro slot next halloc
    rcases allocate?_eq_some hlends.wellFormed halloc with ⟨hlt, hfree, -⟩
    refine ⟨hlt, ?_⟩
    intro hmem
    rw [(hlends.isUsed_iff slot).mpr hmem] at hfree
    contradiction
  · intro slot _
    exact hlends.isUsed_iff slot
  · intro slot hle
    refine ⟨hlends.wellFormed.unused slot hle, ?_⟩
    intro hmem
    exact absurd (hlends.lt_total hmem) (Nat.not_lt.mpr hle)
  · intro slot hmem
    rcases hlends.erase hmem with ⟨after, hafter, -⟩
    exact ⟨after, hafter⟩
  · intro slot hmem
    exact hlends.release_of_notMem hmem

/-- All three slots are given out, and the middle one is taken back. -/
theorem slot_free_between_used :
    ∃ b, Served 3 {0, 2} b ∧
      (b.allocate?.isSome = true ↔ ({0, 2} : Finset Nat).card < 3) ∧
      b.used = ({0, 2} : Finset Nat).card ∧ b.isUsed 1 = false ∧
      b.release 1 = .error (.slotFreedTwice 1) ∧ b.release 3 = .error (.slotOutOfRange 3) := by
  have hone : Served 3 (insert 0 ∅) ⟨[1], 3, 1, 0⟩ := Served.start.given (by decide)
  have htwo : Served 3 (insert 1 (insert 0 ∅)) ⟨[3], 3, 2, 0⟩ := hone.given (by decide)
  have hthree : Served 3 (insert 2 (insert 1 (insert 0 ∅))) ⟨[7], 3, 3, 0⟩ :=
    htwo.given (by decide)
  have hfull : (⟨[7], 3, 3, 0⟩ : Bitmap).allocate? = none := by decide
  have hrelease : (⟨[7], 3, 3, 0⟩ : Bitmap).release 1 = .ok ⟨[5], 3, 2, 0⟩ := by rfl
  have hserved : Served 3 {0, 2} ⟨[5], 3, 2, 0⟩ := by
    have hback := (hthree.declined hfull).returned (by decide) hrelease
    have hset : (insert 2 (insert 1 (insert 0 (∅ : Finset Nat)))).erase 1 = {0, 2} := by decide
    rwa [hset] at hback
  have hall := allocation_sound_and_complete hserved
  refine ⟨_, hserved, hall.1, hall.2.2.2.2.1, ?_, ?_, ?_⟩
  · decide
  · exact hall.2.2.2.2.2.2 1 (by decide)
  · exact hall.2.2.2.2.2.2 3 (by decide)

end Bitmap
end Swap
end DemandPaging
