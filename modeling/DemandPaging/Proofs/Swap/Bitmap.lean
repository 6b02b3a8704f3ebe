import DemandPaging.Swap.Bitmap

/-!
# Slot bitmaps as sets of slots

A bitmap is read as the set of the slots whose bit is set. In a well-formed bitmap no bit without
a slot is set and the count of used slots is right; giving a slot out adds it to the set, taking
it back removes it, and both keep the bitmap well formed.
-/

namespace DemandPaging
namespace Swap
namespace Bitmap

/-- The bits of the bitmap stand for slots, and the slots in use are counted. -/
structure WellFormed (b : Bitmap) : Prop where
  wordCount : b.words.length = (b.total + 63) / 64
  unused : ∀ slot, b.total ≤ slot → b.isUsed slot = false
  counted : b.used = (List.range b.total).countP b.isUsed

variable {b : Bitmap} {slot : Nat}

theorem WellFormed.lt_total (hb : b.WellFormed) (h : b.isUsed slot = true) : slot < b.total := by
  apply Nat.lt_of_not_le
  intro hle
  rw [hb.unused slot hle] at h
  contradiction

/-! ## Single bits -/

theorem word_updateWord (b : Bitmap) (slot w : Nat) (f : BitVec 64 → BitVec 64)
    (h : slot / 64 < b.words.length) :
    (b.updateWord slot f).word w = if w = slot / 64 then f (b.word w) else b.word w := by
  simp only [word, updateWord, List.getD_eq_getElem?_getD, List.getElem?_modify]
  by_cases hw : w = slot / 64
  · subst hw
    simp [List.getElem?_eq_getElem h]
  · have hne : ¬slot / 64 = w := fun heq => hw heq.symm
    simp [hw, hne]

theorem isUsed_mark (h : slot / 64 < b.words.length) (s : Nat) :
    (b.mark slot).isUsed s = (decide (s = slot) || b.isUsed s) := by
  rw [mark, isUsed, word_updateWord b slot _ _ h, isUsed]
  by_cases hword : s / 64 = slot / 64
  · have hbit : slot % 64 = s % 64 ↔ s = slot := by omega
    rw [if_pos hword, BitVec.getLsbD_or, BitVec.getLsbD_twoPow, Bool.or_comm]
    simp [hbit, Nat.mod_lt slot]
  · have hne : ¬s = slot := by
      intro heq
      exact hword (by rw [heq])
    rw [if_neg hword]
    simp [hne]

theorem isUsed_unmark (h : slot / 64 < b.words.length) (s : Nat) :
    (b.unmark slot).isUsed s = (!decide (s = slot) && b.isUsed s) := by
  rw [unmark, isUsed, word_updateWord b slot _ _ h, isUsed]
  by_cases hword : s / 64 = slot / 64
  · have hbit : slot % 64 = s % 64 ↔ s = slot := by omega
    rw [if_pos hword, BitVec.getLsbD_and, BitVec.getLsbD_not, BitVec.getLsbD_twoPow, Bool.and_comm]
    simp [hbit, Nat.mod_lt slot, Nat.mod_lt s]
  · have hne : ¬s = slot := by
      intro heq
      exact hword (by rw [heq])
    rw [if_neg hword]
    simp [hne]

/-! ## Counting -/

theorem countP_add_one {l : List Nat} {p q : Nat → Bool} {a : Nat} (hnodup : l.Nodup)
    (ha : a ∈ l) (hp : p a = false) (hq : ∀ s, q s = (decide (s = a) || p s)) :
    l.countP q = l.countP p + 1 := by
  induction l with
  | nil => simp at ha
  | cons c rest ih =>
      rcases List.nodup_cons.mp hnodup with ⟨hc, hrest⟩
      rw [List.countP_cons, List.countP_cons, hq c]
      rcases List.mem_cons.mp ha with rfl | hmem
      · have hsame : rest.countP q = rest.countP p := by
          apply List.countP_congr
          intro s hs
          have hne : ¬s = a := by
            intro heq
            exact hc (heq ▸ hs)
          simp [hq s, hne]
        simp [hsame, hp]
      · have hne : ¬c = a := by
          intro heq
          exact hc (heq ▸ hmem)
        rw [ih hrest hmem]
        simp only [hne, decide_false, Bool.false_or]
        omega

/-! ## Giving out and taking back -/

theorem isUsed_free (total s : Nat) : (free total).isUsed s = false := by
  simp only [isUsed, word, free, List.getD_eq_getElem?_getD, List.getElem?_replicate]
  split
  · exact BitVec.getLsbD_zero
  · exact BitVec.getLsbD_zero

theorem free_wellFormed (total : Nat) : (free total).WellFormed where
  wordCount := List.length_replicate
  unused := fun slot _ => isUsed_free total slot
  counted := by
    symm
    apply List.countP_eq_zero.mpr
    intro slot _
    rw [isUsed_free]
    exact Bool.false_ne_true

theorem freeSlotOf_eq_some {w : Nat} (h : b.freeSlotOf w = some slot) :
    slot < b.total ∧ b.isUsed slot = false := by
  unfold freeSlotOf at h
  split at h
  · rename_i bit hbit
    have hfound := List.find?_some hbit
    have hlt : bit < 64 := List.mem_range.mp (List.mem_of_find?_eq_some hbit)
    split at h
    · rename_i htotal
      cases h
      have hdiv : (w * 64 + bit) / 64 = w := by omega
      have hmod : (w * 64 + bit) % 64 = bit := by omega
      refine ⟨htotal, ?_⟩
      rw [isUsed, hdiv, hmod]
      simpa using hfound
    · contradiction
  · contradiction

theorem allocate?_eq_some {next : Bitmap} (hb : b.WellFormed)
    (h : b.allocate? = some (slot, next)) :
    slot < b.total ∧ b.isUsed slot = false ∧ next.total = b.total ∧ next.WellFormed ∧
      ∀ s, next.isUsed s = (decide (s = slot) || b.isUsed s) := by
  unfold allocate? at h
  split at h
  · rename_i found hfound
    simp only [Option.some.injEq, Prod.mk.injEq] at h
    rcases h with ⟨rfl, rfl⟩
    rcases List.exists_of_findSome?_eq_some hfound with ⟨w, _, hw⟩
    rcases freeSlotOf_eq_some hw with ⟨htotal, hfree⟩
    have hword : found / 64 < b.words.length := by
      rw [hb.wordCount]
      omega
    have hmark : ∀ s, (b.mark found).isUsed s = (decide (s = found) || b.isUsed s) :=
      isUsed_mark hword
    refine ⟨htotal, hfree, rfl, ?_, hmark⟩
    constructor
    · exact (List.length_modify ..).trans hb.wordCount
    · intro s hs
      have hs' : b.total ≤ s := hs
      have hne : ¬s = found := by omega
      refine (hmark s).trans ?_
      simp [hne, hb.unused s hs']
    · show b.used + 1 = _
      rw [hb.counted]
      exact (countP_add_one List.nodup_range (List.mem_range.mpr htotal) hfree hmark).symm
  · contradiction

theorem release_eq_ok (htotal : slot < b.total) (hused : b.isUsed slot = true)
    (hcount : b.used ≠ 0) : b.release slot = .ok { b.unmark slot with used := b.used - 1 } := by
  unfold release
  rw [if_neg (Nat.not_le.mpr htotal), if_neg (by simp [hused]), if_neg hcount]

theorem isUsed_of_release {next : Bitmap} (h : b.release slot = .ok next) :
    b.isUsed slot = true := by
  unfold release at h
  split at h
  · contradiction
  · split at h
    · contradiction
    · rename_i hused
      simpa using hused

theorem release_of_isUsed (hb : b.WellFormed) (h : b.isUsed slot = true) :
    ∃ next, b.release slot = .ok next ∧ next.total = b.total ∧ next.WellFormed ∧
      ∀ s, next.isUsed s = (!decide (s = slot) && b.isUsed s) := by
  have htotal := hb.lt_total h
  have hword : slot / 64 < b.words.length := by
    rw [hb.wordCount]
    omega
  have hunmark : ∀ s, (b.unmark slot).isUsed s = (!decide (s = slot) && b.isUsed s) :=
    isUsed_unmark hword
  have hself : (b.unmark slot).isUsed slot = false := by
    rw [hunmark]
    simp
  have hback : ∀ s, b.isUsed s = (decide (s = slot) || (b.unmark slot).isUsed s) := by
    intro s
    rw [hunmark]
    by_cases hs : s = slot
    · subst hs
      simp [h]
    · simp [hs]
  have hcount : b.used = (List.range b.total).countP (b.unmark slot).isUsed + 1 := by
    rw [hb.counted]
    exact countP_add_one List.nodup_range (List.mem_range.mpr htotal) hself hback
  refine ⟨{ b.unmark slot with used := b.used - 1 }, release_eq_ok htotal h (by omega), rfl, ?_,
    hunmark⟩
  constructor
  · exact (List.length_modify ..).trans hb.wordCount
  · intro s hs
    refine (hunmark s).trans ?_
    have hs' : b.total ≤ s := hs
    simp [hb.unused s hs']
  · show b.used - 1 = (List.range b.total).countP (b.unmark slot).isUsed
    omega

end Bitmap
end Swap
end DemandPaging
