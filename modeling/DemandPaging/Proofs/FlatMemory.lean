import DemandPaging.Bytes
import DemandPaging.Proofs.Word

/-!
# Flat memories

A flat memory has a byte at every address of every process. It is what a process sees of the
machine: there are no frames, no slots and no evictions in it.
-/

namespace DemandPaging

def Bytes.stored (content : Bytes) (base va : Vaddr) (data : Bytes) : Bytes :=
  content.mapIdx fun j b => data.getD (base + UInt64.ofNat j - va).toNat b

abbrev FlatMemory := Nat → Vaddr → UInt8

namespace FlatMemory

def store (mem : FlatMemory) (p : Nat) (va : Vaddr) (data : Bytes) : FlatMemory := fun q a =>
  if q = p then data.getD (a - va).toNat (mem q a) else mem q a

/-- The bytes of one process at the chosen addresses become those of another process. -/
def copy (mem : FlatMemory) (source target : Nat) (chosen : Vaddr → Bool) : FlatMemory :=
  fun q a => if q = target ∧ chosen a = true then mem source a else mem q a

def image (mem : FlatMemory) (p : Nat) (va : Vaddr) (n : Nat) : Bytes :=
  (List.range n).map fun i => mem p (va + UInt64.ofNat i)

variable {mem : FlatMemory} {p q n off : Nat} {va base : Vaddr} {data : Bytes}

/-! ## Images -/

@[simp]
theorem length_image : (image mem p va n).length = n := by
  simp [image]

theorem getElem?_image {i : Nat} (hi : i < n) :
    (image mem p va n)[i]? = some (mem p (va + UInt64.ofNat i)) := by
  simp [image, hi]

theorem image_congr {mem' : FlatMemory}
    (h : ∀ i, i < n → mem' p (va + UInt64.ofNat i) = mem q (base + UInt64.ofNat i)) :
    image mem' p va n = image mem q base n := by
  unfold image
  apply List.map_congr_left
  intro i hi
  exact h i (List.mem_range.mp hi)

/-! ## Stores -/

theorem store_of_ne (h : q ≠ p) : (mem.store p va data) q = mem q := by
  funext a
  exact if_neg h

theorem store_nil : mem.store p va [] = mem := by
  funext q a
  unfold store
  split <;> rfl

theorem store_store (h : data.length ≤ 2 ^ 64) {k : Nat} (hk : k < 2 ^ 64) :
    (mem.store p va (data.take k)).store p (va + UInt64.ofNat k) (data.drop k) =
      mem.store p va data := by
  funext q a
  unfold store
  split
  · simp only [List.getD_eq_getElem?_getD]
    have hsub : a - (va + UInt64.ofNat k) = (a - va) - UInt64.ofNat k := by
      grind
    have hkNat : (UInt64.ofNat k).toNat = k := by
      rw [UInt64.toNat_ofNat', Nat.mod_eq_of_lt hk]
    have hd := (a - va).toNat_lt
    by_cases hlow : (a - va).toNat < k
    · have hfar : data.length ≤ k + ((a - va) - UInt64.ofNat k).toNat := by
        rw [UInt64.toNat_sub, hkNat]
        omega
      rw [hsub, List.getElem?_drop, List.getElem?_eq_none hfar, Option.getD_none,
        List.getElem?_take_of_lt hlow]
    · have hsum : k + ((a - va) - UInt64.ofNat k).toNat = (a - va).toNat := by
        rw [UInt64.toNat_sub, hkNat]
        omega
      rw [hsub, List.getElem?_drop, hsum]
      cases hbyte : data[(a - va).toNat]? with
      | some b => rfl
      | none =>
          rw [Option.getD_none, List.getElem?_take_eq_none (by omega), Option.getD_none]
  · rfl

theorem store_take_drop {k count : Nat} (h : k + count ≤ 2 ^ 64) (hk : k < 2 ^ 64) :
    (mem.store p va (data.take k)).store p (va + UInt64.ofNat k) ((data.drop k).take count) =
      mem.store p va (data.take (k + count)) := by
  have htake : (data.take (k + count)).take k = data.take k := by
    rw [List.take_take, Nat.min_eq_left (Nat.le_add_right k count)]
  have hdrop : (data.take (k + count)).drop k = (data.drop k).take count := by
    rw [List.drop_take, Nat.add_sub_cancel_left]
  rw [← htake, ← hdrop]
  refine store_store ?_ hk
  rw [List.length_take]
  exact Nat.le_trans (Nat.min_le_left _ _) h

theorem store_store_same {first : Bytes} (h : first.length ≤ data.length) :
    (mem.store p va first).store p va data = mem.store p va data := by
  funext q a
  unfold store
  split
  · simp only [List.getD_eq_getElem?_getD]
    cases hbyte : data[(a - va).toNat]? with
    | some b => rfl
    | none =>
        have hfar := List.getElem?_eq_none_iff.mp hbyte
        rw [List.getElem?_eq_none (by omega)]
        rfl
  · rfl

/-! ## Stores inside an aligned block -/

variable {a : UInt64}

theorem overlay_eq_stored {content : Bytes} (ha : Word.isPowerOfTwo a = true)
    (hbase : Word.isAligned base a = true) (hlength : content.length = a.toNat)
    (hoff : off < a.toNat) (hfit : off + data.length ≤ a.toNat) :
    Bytes.overlay content off data = content.stored base (base + UInt64.ofNat off) data := by
  apply List.ext_getElem?
  intro i
  rw [Bytes.stored, List.getElem?_mapIdx]
  by_cases hi : i < content.length
  · rw [Bytes.getElem?_overlay _ _ _ _ (by omega) hi]
    have hiNat := Word.toNat_add_ofNat ha hbase (hlength ▸ hi)
    have hoffNat := Word.toNat_add_ofNat ha hbase hoff
    have ha64 := a.toNat_lt
    have hlast := (base + UInt64.ofNat i).toNat_lt
    rw [List.getElem?_eq_getElem hi, Option.map_some, UInt64.toNat_sub, hiNat, hoffNat,
      List.getD_eq_getElem?_getD]
    by_cases hin : off ≤ i ∧ i < off + data.length
    · have hindex : (2 ^ 64 - (base.toNat + off) + (base.toNat + i)) % 2 ^ 64 = i - off := by
        omega
      rw [if_pos hin, hindex, List.getElem?_eq_getElem (by omega)]
      rfl
    · have hfar : data.length ≤
          (2 ^ 64 - (base.toNat + off) + (base.toNat + i)) % 2 ^ 64 := by
        omega
      rw [if_neg hin, List.getElem?_eq_none hfar]
      rfl
  · rw [List.getElem?_eq_none (by rw [Bytes.length_overlay]; omega),
      List.getElem?_eq_none (Nat.le_of_not_lt hi)]
    rfl

theorem image_store_eq_stored {n : Nat} :
    image (mem.store p va data) p base n = (image mem p base n).stored base va data := by
  apply List.ext_getElem?
  intro i
  rw [Bytes.stored, List.getElem?_mapIdx]
  by_cases hi : i < n
  · rw [getElem?_image hi, getElem?_image hi, Option.map_some]
    exact congrArg some (if_pos rfl)
  · rw [List.getElem?_eq_none, List.getElem?_eq_none]
    · rfl
    · rw [length_image]
      omega
    · rw [length_image]
      omega

theorem image_store (ha : Word.isPowerOfTwo a = true) (hbase : Word.isAligned base a = true)
    (hoff : off < a.toNat) (hfit : off + data.length ≤ a.toNat) :
    image (mem.store p (base + UInt64.ofNat off) data) p base a.toNat =
      Bytes.overlay (image mem p base a.toNat) off data := by
  rw [overlay_eq_stored ha hbase length_image hoff hfit]
  exact image_store_eq_stored

theorem image_store_of_ne (ha : Word.isPowerOfTwo a = true)
    (hbase : Word.isAligned base a = true) (hva : Word.isAligned va a = true)
    (hoff : off < a.toNat) (hfit : off + data.length ≤ a.toNat) (hne : ¬(q = p ∧ va = base)) :
    image (mem.store p (base + UInt64.ofNat off) data) q va a.toNat = image mem q va a.toNat := by
  apply image_congr
  intro i hi
  by_cases hq : q = p
  · subst hq
    have hiNat := Word.toNat_add_ofNat ha hva hi
    have hoffNat := Word.toNat_add_ofNat ha hbase hoff
    have ha64 := a.toNat_lt
    have hlast := (va + UInt64.ofNat i).toNat_lt
    have hdifferent : va.toNat ≠ base.toNat := by
      intro heq
      exact hne ⟨rfl, UInt64.toNat_inj.mp heq⟩
    have hvaDvd := (Word.isAligned_iff_dvd ha).mp hva
    have hbaseDvd := (Word.isAligned_iff_dvd ha).mp hbase
    have hapart : va.toNat + a.toNat ≤ base.toNat ∨ base.toNat + a.toNat ≤ va.toNat := by
      rcases Nat.lt_or_gt_of_ne hdifferent with hlt | hgt
      · exact Or.inl (Word.add_le_of_dvd_of_lt hvaDvd hbaseDvd hlt)
      · exact Or.inr (Word.add_le_of_dvd_of_lt hbaseDvd hvaDvd hgt)
    have hroom : base.toNat + a.toNat ≤ 2 ^ 64 := Word.toNat_add_le_size ha hbase
    simp only [store, if_true, List.getD_eq_getElem?_getD, UInt64.toNat_sub, hiNat, hoffNat]
    rw [List.getElem?_eq_none (by omega)]
    rfl
  · rw [store_of_ne hq]

theorem image_store_block (ha : Word.isPowerOfTwo a = true)
    (hbase : Word.isAligned base a = true) (hlength : data.length = a.toNat) :
    image (mem.store p base data) p base a.toNat = data := by
  have hpos := Word.toNat_pos_of_isPowerOfTwo ha
  have h : image (mem.store p (base + UInt64.ofNat 0) data) p base a.toNat =
      Bytes.overlay (image mem p base a.toNat) 0 data :=
    image_store ha hbase hpos (Nat.le_of_eq (by rw [Nat.zero_add, hlength]))
  have hzero : base + UInt64.ofNat 0 = base := UInt64.add_zero base
  rw [hzero] at h
  rw [h, Bytes.overlay, length_image, ← hlength]
  simp

theorem image_store_block_of_ne (ha : Word.isPowerOfTwo a = true)
    (hbase : Word.isAligned base a = true) (hva : Word.isAligned va a = true)
    (hlength : data.length = a.toNat) (hne : ¬(q = p ∧ va = base)) :
    image (mem.store p base data) q va a.toNat = image mem q va a.toNat := by
  have hzero : base + UInt64.ofNat 0 = base := UInt64.add_zero base
  have h : image (mem.store p (base + UInt64.ofNat 0) data) q va a.toNat =
      image mem q va a.toNat :=
    image_store_of_ne ha hbase hva (Word.toNat_pos_of_isPowerOfTwo ha)
      (Nat.le_of_eq (by rw [Nat.zero_add, hlength])) hne
  rw [hzero] at h
  exact h

/-! ## Copies -/

theorem image_copy {source target : Nat} {chosen : Vaddr → Bool}
    (h : ∀ i, i < n → chosen (va + UInt64.ofNat i) = true) :
    image (mem.copy source target chosen) target va n = image mem source va n :=
  image_congr fun i hi => if_pos ⟨rfl, h i hi⟩

theorem image_copy_of_ne {source target : Nat} {chosen : Vaddr → Bool} (h : q ≠ target) :
    image (mem.copy source target chosen) q va n = image mem q va n :=
  image_congr fun _ _ => if_neg fun hin => h hin.1

theorem image_copy_of_not_chosen {source target : Nat} {chosen : Vaddr → Bool}
    (h : ∀ i, i < n → chosen (va + UInt64.ofNat i) = false) :
    image (mem.copy source target chosen) q va n = image mem q va n := by
  refine image_congr fun i hi => if_neg fun hin => ?_
  rw [h i hi] at hin
  exact Bool.false_ne_true hin.2

theorem copy_of_forall {source target : Nat} {chosen : Vaddr → Bool}
    (h : ∀ a, chosen a = false) : mem.copy source target chosen = mem := by
  funext q a
  refine if_neg fun h' => ?_
  rw [h a] at h'
  exact Bool.false_ne_true h'.2

theorem copy_store (ha : Word.isPowerOfTwo a = true) (hva : Word.isAligned va a = true)
    (source target : Nat) (chosen : Vaddr → Bool) :
    (mem.store target va (mem.image source va a.toNat)).copy source target chosen =
      mem.copy source target fun x => Word.alignDown x a == va || chosen x := by
  have hread : ∀ x, (mem.store target va (mem.image source va a.toNat)) target x =
      if Word.alignDown x a == va then mem source x else mem target x := by
    intro x
    simp only [store, if_true, List.getD_eq_getElem?_getD]
    have hx : va + UInt64.ofNat (x - va).toNat = x := by
      rw [UInt64.ofNat_toNat]
      grind
    have hblock := Word.sub_lt_iff_alignDown_eq ha hva x
    by_cases hin : (x - va).toNat < a.toNat
    · rw [getElem?_image hin, hx, Option.getD_some, if_pos (beq_iff_eq.mpr (hblock.mp hin))]
    · have hother : ¬Word.alignDown x a = va := fun heq => hin (hblock.mpr heq)
      rw [List.getElem?_eq_none (by rw [length_image]; omega), Option.getD_none,
        if_neg (by simpa using hother)]
  funext q x
  unfold copy
  by_cases hq : q = target
  · subst hq
    rw [hread]
    by_cases hsource : source = q
    · subst hsource
      rw [hread]
      simp
    · rw [store_of_ne hsource]
      by_cases hblock : Word.alignDown x a = va <;> by_cases hchosen : chosen x = true
      · simp [hchosen]
      · simp [hblock, hchosen]
      · simp [hchosen]
      · simp [hblock, hchosen]
  · simp [hq, store_of_ne hq]

end FlatMemory
end DemandPaging
