import DemandPaging.Proofs.Swap.Bitmap
import DemandPaging.Swap.Area

/-!
# The content of swap slots

The bytes of a slot are those of its sectors. Writing a slot that succeeds puts the page there,
writing it at all leaves the other slots alone, and reading changes nothing.
-/

namespace DemandPaging
namespace Bytes

theorem overlay_zero_of_length_eq {buffer data : Bytes} (h : data.length = buffer.length) :
    overlay buffer 0 data = data := by
  rw [overlay, ← h]
  simp

end Bytes

namespace Swap
namespace Area

/-! ## Sectors -/

variable {disk after : Disk}

theorem writeSector_cases (disk : Disk) (sector : Nat) (data : Bytes) :
    disk.writeSector sector data = (false, { disk with writing := disk.writing.advance }) ∨
      ∃ h : data.length = disk.sectorSize, sector < disk.sectors.length ∧
        disk.writeSector sector data =
          (true, Disk.replace { disk with writing := disk.writing.advance } sector data h) := by
  by_cases hlength : data.length = disk.sectorSize
  · by_cases hpass : (disk.writing.peek && decide (sector < disk.sectors.length)) = true
    · right
      have hin := hpass
      rw [Bool.and_eq_true, decide_eq_true_eq] at hin
      refine ⟨hlength, hin.2, ?_⟩
      simp only [Disk.writeSector, dif_pos hlength, if_pos hpass]
    · left
      simp only [Disk.writeSector, dif_pos hlength, if_neg hpass]
  · left
    simp only [Disk.writeSector, dif_neg hlength]

theorem readSector_cases (disk : Disk) (sector length : Nat) :
    disk.readSector sector length = (none, { disk with reading := disk.reading.advance }) ∨
      ∃ data, disk.sectors[sector]? = some data ∧ disk.readSector sector length =
        (some data, Disk.countRead { disk with reading := disk.reading.advance }) := by
  by_cases hpass : (disk.reading.peek && length == disk.sectorSize) = true
  · cases hdata : disk.sectors[sector]? with
    | none =>
        left
        simp only [Disk.readSector, if_pos hpass, hdata]
    | some data =>
        right
        exact ⟨data, rfl, by simp only [Disk.readSector, if_pos hpass, hdata]⟩
  · left
    simp only [Disk.readSector, if_neg hpass]

theorem writeSector_frame (disk : Disk) (sector : Nat) (data : Bytes) :
    (disk.writeSector sector data).2.sectorSize = disk.sectorSize ∧
      (disk.writeSector sector data).2.sectors.length = disk.sectors.length ∧
      ∀ i, i ≠ sector → (disk.writeSector sector data).2.sectors[i]? = disk.sectors[i]? := by
  rcases writeSector_cases disk sector data with h | ⟨_, _, h⟩
  · rw [h]
    exact ⟨rfl, rfl, fun _ _ => rfl⟩
  · rw [h]
    exact ⟨rfl, List.length_set, fun i hi => List.getElem?_set_ne hi.symm⟩

theorem writeSector_getElem? {sector : Nat} {data : Bytes}
    (h : disk.writeSector sector data = (true, after)) : after.sectors[sector]? = some data := by
  rcases writeSector_cases disk sector data with hcase | ⟨_, hlt, hcase⟩
  · rw [hcase] at h
    cases h
  · rw [hcase] at h
    cases h
    exact List.getElem?_set_self hlt

theorem readSector_frame (disk : Disk) (sector length : Nat) :
    (disk.readSector sector length).2.sectorSize = disk.sectorSize ∧
      (disk.readSector sector length).2.sectors = disk.sectors := by
  rcases readSector_cases disk sector length with h | ⟨_, _, h⟩
  · rw [h]
    exact ⟨rfl, rfl⟩
  · rw [h]
    exact ⟨rfl, rfl⟩

theorem readSector_eq_some {sector length : Nat} {data : Bytes}
    (h : disk.readSector sector length = (some data, after)) :
    disk.sectors[sector]? = some data := by
  rcases readSector_cases disk sector length with hcase | ⟨found, hfound, hcase⟩
  · rw [hcase] at h
    cases h
  · rw [hcase] at h
    cases h
    exact hfound

/-! ## Runs of sectors -/

theorem writeSectors_frame (disk : Disk) (sector count : Nat) (data : Bytes) :
    let written := (writeSectors disk sector count data).2
    written.sectorSize = disk.sectorSize ∧ written.sectors.length = disk.sectors.length ∧
      ∀ i, i < sector ∨ sector + count ≤ i → written.sectors[i]? = disk.sectors[i]? := by
  induction count generalizing disk sector data with
  | zero => exact ⟨rfl, rfl, fun _ _ => rfl⟩
  | succ count ih =>
      have hframe := writeSector_frame disk sector (data.take disk.sectorSize)
      unfold writeSectors
      split
      · rename_i next hnext
        rw [hnext] at hframe
        rcases hframe with ⟨hsize, hlength, hother⟩
        rcases ih next (sector + 1) (data.drop disk.sectorSize) with ⟨hs, hl, ho⟩
        refine ⟨hs.trans hsize, hl.trans hlength, ?_⟩
        intro i hi
        rw [ho i (by omega)]
        exact hother i (by omega)
      · rename_i next hnext
        rw [hnext] at hframe
        rcases hframe with ⟨hsize, hlength, hother⟩
        refine ⟨hsize, hlength, ?_⟩
        intro i hi
        exact hother i (by omega)

theorem writeSectors_content {sector count : Nat} {data : Bytes}
    (h : writeSectors disk sector count data = (none, after))
    (hdata : data.length = count * disk.sectorSize) :
    ((after.sectors.drop sector).take count).flatten = data := by
  induction count generalizing disk sector data with
  | zero =>
      have hnil : data = [] := List.length_eq_zero_iff.mp (by omega)
      simp [hnil]
  | succ count ih =>
      unfold writeSectors at h
      split at h
      · rename_i next hnext
        have hsize := (writeSector_frame disk sector (data.take disk.sectorSize)).1
        rw [hnext] at hsize
        simp only at hsize
        have hrest : (data.drop disk.sectorSize).length = count * next.sectorSize := by
          rw [List.length_drop, hdata, hsize, Nat.succ_mul]
          omega
        have htail := ih h hrest
        have hframe := writeSectors_frame next (sector + 1) count (data.drop disk.sectorSize)
        rw [h] at hframe
        have hhead : after.sectors[sector]? = some (data.take disk.sectorSize) := by
          rw [hframe.2.2 sector (Or.inl (Nat.lt_succ_self sector))]
          exact writeSector_getElem? hnext
        rcases List.getElem?_eq_some_iff.mp hhead with ⟨hlt, hval⟩
        rw [List.drop_eq_getElem_cons hlt, hval, List.take_succ_cons, List.flatten_cons, htail,
          List.take_append_drop]
      · simp at h

theorem readSectors_spec {sector count : Nat} {data : Bytes} {refusal : Option Nat}
    (h : readSectors disk sector count = (data, refusal, after)) :
    after.sectorSize = disk.sectorSize ∧ after.sectors = disk.sectors ∧
      (refusal = none → data = ((disk.sectors.drop sector).take count).flatten) := by
  induction count generalizing disk sector data with
  | zero =>
      cases h
      simp
  | succ count ih =>
      have hframe := readSector_frame disk sector disk.sectorSize
      unfold readSectors at h
      split at h
      · rename_i chunk next hnext
        rw [hnext] at hframe
        rcases hframe with ⟨hsize, hsectors⟩
        simp only [Prod.mk.injEq] at h
        rcases h with ⟨hdata, hrest⟩
        have hread : readSectors next (sector + 1) count =
            ((readSectors next (sector + 1) count).fst, refusal, after) := Prod.ext rfl hrest
        rcases ih hread with ⟨hs, hsec, hcontent⟩
        refine ⟨hs.trans hsize, hsec.trans hsectors, ?_⟩
        intro hnone
        rcases List.getElem?_eq_some_iff.mp (readSector_eq_some hnext) with ⟨hlt, hval⟩
        rw [List.drop_eq_getElem_cons hlt, hval, List.take_succ_cons, List.flatten_cons, ← hdata,
          hcontent hnone, hsectors]
      · rename_i next hnext
        rw [hnext] at hframe
        cases h
        refine ⟨hframe.1, hframe.2, ?_⟩
        intro hnone
        contradiction

/-! ## Slots -/

def slotContent (a : Area) (slot : Nat) : Bytes :=
  match a.disk with
  | some disk => ((disk.sectors.drop (a.firstSector slot)).take a.sectorsPerPage).flatten
  | none => []

/-- The slots of the area are pages of the given size, and the disk has room for all of them. -/
structure Fits (a : Area) (pageBytes : Nat) : Prop where
  slots : a.slots.WellFormed
  page : ∀ disk, a.disk = some disk → a.slotBytes = pageBytes
  sector : ∀ disk, a.disk = some disk → disk.sectorSize = a.sectorSize
  room : ∀ disk, a.disk = some disk → a.slots.total * a.sectorsPerPage ≤ disk.sectors.length
  empty : a.disk = none → a.slots.total = 0

variable {a : Area} {pageBytes slot : Nat}

theorem disabled_fits (pageBytes : Nat) : disabled.Fits pageBytes where
  slots := Bitmap.free_wellFormed 0
  page := by
    intro disk hdisk
    contradiction
  sector := by
    intro disk hdisk
    contradiction
  room := by
    intro disk hdisk
    contradiction
  empty := fun _ => rfl

theorem create_fits {disk : Disk} {pageSize : Nat} (h : create disk pageSize = .ok a) :
    a.Fits pageSize := by
  unfold create at h
  split at h
  · contradiction
  · rename_i hsize
    simp only at h
    split at h
    · contradiction
    · cases h
      refine ⟨Bitmap.free_wellFormed _, ?_, ?_, ?_, ?_⟩
      · intro d _
        have hmod : pageSize % disk.sectorSize = 0 := by
          apply Decidable.byContradiction
          intro hne
          exact hsize (Or.inr hne)
        show disk.sectorSize * (pageSize / disk.sectorSize) = pageSize
        exact Nat.mul_div_cancel' (Nat.dvd_of_mod_eq_zero hmod)
      · intro d hd
        cases hd
        rfl
      · intro d hd
        cases hd
        exact Nat.div_mul_le_self _ _
      · intro hnone
        contradiction

theorem isUsed_create {disk : Disk} {pageSize : Nat} (h : create disk pageSize = .ok a) (s : Nat) :
    a.slots.isUsed s = false := by
  unfold create at h
  split at h
  · contradiction
  · simp only at h
    split at h
    · contradiction
    · cases h
      exact Bitmap.isUsed_free _ s

theorem Fits.exists_disk (h : a.Fits pageBytes) (hslot : slot < a.slots.total) :
    ∃ disk, a.disk = some disk := by
  cases hdisk : a.disk with
  | some disk => exact ⟨disk, rfl⟩
  | none =>
      rw [h.empty hdisk] at hslot
      omega

theorem slot_within (a : Area) {slot : Nat} (hslot : slot < a.slots.total) :
    a.firstSector slot + a.sectorsPerPage ≤ a.slots.total * a.sectorsPerPage := by
  rw [firstSector, ← Nat.succ_mul]
  exact Nat.mul_le_mul_right _ hslot

theorem Fits.slot_inside (h : a.Fits pageBytes) (hdisk : a.disk = some disk)
    (hslot : slot < a.slots.total) :
    a.firstSector slot + a.sectorsPerPage ≤ disk.sectors.length :=
  Nat.le_trans (a.slot_within hslot) (h.room disk hdisk)

theorem Fits.slotContent_length (h : a.Fits pageBytes) (hslot : slot < a.slots.total) :
    (a.slotContent slot).length = pageBytes := by
  rcases h.exists_disk hslot with ⟨disk, hdisk⟩
  have hle := h.slot_inside hdisk hslot
  have huniform : ∀ data ∈ (disk.sectors.drop (a.firstSector slot)).take a.sectorsPerPage,
      data.length = disk.sectorSize := by
    intro data hdata
    exact disk.uniform data (List.mem_of_mem_drop (List.mem_of_mem_take hdata))
  have hsum : ∀ l : List Bytes, (∀ data ∈ l, data.length = disk.sectorSize) →
      l.flatten.length = l.length * disk.sectorSize := by
    intro l hl
    induction l with
    | nil => simp
    | cons data rest ih =>
        rw [List.flatten_cons, List.length_append, hl data List.mem_cons_self,
          ih fun d hd => hl d (List.mem_cons_of_mem data hd), List.length_cons, Nat.succ_mul]
        omega
  rw [slotContent, hdisk]
  simp only
  rw [hsum _ huniform, List.length_take, List.length_drop,
    Nat.min_eq_left (by omega), h.sector disk hdisk, Nat.mul_comm]
  exact h.page disk hdisk

theorem Fits.withDisk (h : a.Fits pageBytes) (hdisk : a.disk = some disk)
    (hsize : after.sectorSize = disk.sectorSize)
    (hlength : after.sectors.length = disk.sectors.length) :
    Fits { a with disk := some after } pageBytes where
  slots := h.slots
  page := by
    intro _ _
    exact h.page disk hdisk
  sector := by
    intro d hd
    cases hd
    exact hsize.trans (h.sector disk hdisk)
  room := by
    intro d hd
    cases hd
    exact hlength.symm ▸ h.room disk hdisk
  empty := by
    intro hnone
    contradiction

theorem Fits.withSlots (h : a.Fits pageBytes) {slots : Bitmap} (hslots : slots.WellFormed)
    (htotal : slots.total = a.slots.total) : Fits { a with slots := slots } pageBytes where
  slots := hslots
  page := h.page
  sector := h.sector
  room := by
    intro d hd
    show slots.total * a.sectorsPerPage ≤ d.sectors.length
    rw [htotal]
    exact h.room d hd
  empty := by
    intro hnone
    exact htotal.trans (h.empty hnone)

/-! ## Transfers of slots -/

def transferResult : Option Nat → Except SlotFailure Unit
  | some sector => .error (.refused sector)
  | none => .ok ()

theorem write_eq {page : Bytes} {refusal : Option Nat} (hdisk : a.disk = some disk)
    (hlength : page.length = a.slotBytes)
    (h : writeSectors disk (a.firstSector slot) a.sectorsPerPage page = (refusal, after)) :
    a.write slot page = (transferResult refusal, { a with disk := some after }) := by
  simp only [write, hdisk]
  rw [if_neg (fun hne => hne hlength), h]
  cases refusal <;> rfl

theorem write_eq_wrongLength {page : Bytes} (h : (a.write slot page).1 = .error .wrongLength) :
    ∃ disk, a.disk = some disk ∧ page.length ≠ a.slotBytes := by
  unfold write at h
  cases hdisk : a.disk with
  | none =>
      rw [hdisk] at h
      cases h
  | some disk =>
      refine ⟨disk, rfl, ?_⟩
      intro hlength
      rw [hdisk] at h
      dsimp only at h
      rw [if_neg (fun hne => hne hlength)] at h
      split at h
      · cases h
      · cases h

theorem read_eq {buffer data : Bytes} {refusal : Option Nat} (hdisk : a.disk = some disk)
    (hlength : buffer.length = a.slotBytes)
    (h : readSectors disk (a.firstSector slot) a.sectorsPerPage = (data, refusal, after)) :
    a.read slot buffer =
      (transferResult refusal, Bytes.overlay buffer 0 data, { a with disk := some after }) := by
  simp only [read, hdisk]
  rw [if_neg (fun hne => hne hlength), h]
  cases refusal <;> rfl

theorem sectors_disjoint {other i : Nat} (h : other ≠ slot) (hi : i < a.sectorsPerPage) :
    a.firstSector other + i < a.firstSector slot ∨
      a.firstSector slot + a.sectorsPerPage ≤ a.firstSector other + i := by
  unfold firstSector
  rcases Nat.lt_or_gt_of_ne h with hlt | hgt
  · have hmul : (other + 1) * a.sectorsPerPage ≤ slot * a.sectorsPerPage :=
      Nat.mul_le_mul_right _ hlt
    rw [Nat.succ_mul] at hmul
    omega
  · have hmul : (slot + 1) * a.sectorsPerPage ≤ other * a.sectorsPerPage :=
      Nat.mul_le_mul_right _ hgt
    rw [Nat.succ_mul] at hmul
    omega

theorem write_frame (a : Area) (slot : Nat) (page : Bytes) :
    (a.write slot page).2.slots = a.slots ∧
      ∀ other, other ≠ slot →
        (a.write slot page).2.slotContent other = a.slotContent other := by
  unfold write
  cases hdisk : a.disk with
  | none => exact ⟨rfl, fun _ _ => rfl⟩
  | some disk =>
      dsimp only
      split
      · exact ⟨rfl, fun _ _ => rfl⟩
      · have hframe := writeSectors_frame disk (a.firstSector slot) a.sectorsPerPage page
        refine ⟨rfl, ?_⟩
        intro other hne
        simp only [slotContent, hdisk]
        congr 1
        apply List.ext_getElem?
        intro i
        rw [List.getElem?_take, List.getElem?_take]
        split
        · rename_i hi
          rw [List.getElem?_drop, List.getElem?_drop]
          exact hframe.2.2 _ (sectors_disjoint hne hi)
        · rfl

theorem Fits.afterWrite (h : a.Fits pageBytes) (slot : Nat) (page : Bytes) :
    (a.write slot page).2.Fits pageBytes := by
  unfold write
  cases hdisk : a.disk with
  | none => exact h
  | some disk =>
      dsimp only
      split
      · exact h
      · rcases writeSectors_frame disk (a.firstSector slot) a.sectorsPerPage page with
          ⟨hsize, hcount, -⟩
        exact h.withDisk hdisk hsize hcount

/-- When writing a page to a slot succeeds, the slot holds the page, and otherwise the disk refused
a sector. -/
theorem write_spec (h : a.Fits pageBytes) (hslot : slot < a.slots.total) {page : Bytes}
    (hpage : page.length = pageBytes) :
    ∃ disk, (a.write slot page).2 = { a with disk := some disk } ∧
      (((a.write slot page).1 = .ok () ∧ (a.write slot page).2.slotContent slot = page) ∨
        ∃ sector, (a.write slot page).1 = .error (.refused sector)) := by
  rcases h.exists_disk hslot with ⟨disk, hdisk⟩
  have hlength : page.length = a.slotBytes := hpage.trans (h.page disk hdisk).symm
  cases hwrite : writeSectors disk (a.firstSector slot) a.sectorsPerPage page with
  | mk refusal after =>
      rw [write_eq hdisk hlength hwrite]
      refine ⟨after, rfl, ?_⟩
      cases refusal with
      | some sector => exact Or.inr ⟨sector, rfl⟩
      | none =>
          left
          refine ⟨rfl, ?_⟩
          apply writeSectors_content hwrite
          rw [hlength, h.sector disk hdisk, Nat.mul_comm]
          rfl

/-- Reading a slot changes no slot; when it succeeds, it delivers what the slot holds, and
otherwise the disk refused a sector. -/
theorem read_spec (h : a.Fits pageBytes) (hslot : slot < a.slots.total) {buffer : Bytes}
    (hbuffer : buffer.length = pageBytes) :
    ∃ disk, (a.read slot buffer).2.2 = { a with disk := some disk } ∧
      (a.read slot buffer).2.2.Fits pageBytes ∧
      (∀ other, (a.read slot buffer).2.2.slotContent other = a.slotContent other) ∧
      (((a.read slot buffer).1 = .ok () ∧ (a.read slot buffer).2.1 = a.slotContent slot) ∨
        ∃ sector, (a.read slot buffer).1 = .error (.refused sector)) := by
  rcases h.exists_disk hslot with ⟨disk, hdisk⟩
  have hlength : buffer.length = a.slotBytes := hbuffer.trans (h.page disk hdisk).symm
  cases hread : readSectors disk (a.firstSector slot) a.sectorsPerPage with
  | mk data rest =>
      rcases rest with ⟨refusal, after⟩
      rcases readSectors_spec hread with ⟨hsize, hsectors, hdata⟩
      rw [read_eq hdisk hlength hread]
      refine ⟨after, rfl, h.withDisk hdisk hsize (congrArg List.length hsectors), ?_, ?_⟩
      · intro other
        simp only [slotContent, hdisk, hsectors]
        rfl
      · cases refusal with
        | some sector => exact Or.inr ⟨sector, rfl⟩
        | none =>
            left
            refine ⟨rfl, ?_⟩
            have hcontent : a.slotContent slot = data := by
              rw [hdata rfl, slotContent, hdisk]
            rw [hcontent]
            apply Bytes.overlay_zero_of_length_eq
            rw [← hcontent, h.slotContent_length hslot, hbuffer]

end Area
end Swap
end DemandPaging
