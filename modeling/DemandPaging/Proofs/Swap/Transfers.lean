import DemandPaging.Proofs.Swap.Area

/-!
# Sequences of transfers

How far a transfer comes is fixed by the schedule of the disk: it goes on to the first call that is
refused. A write leaves the sectors up to there with the page and all others as they were, so after
any sequence of requests a slot holds the page of its last write, as long as that write succeeded.
-/

namespace DemandPaging
namespace Schedule

variable {s : Schedule Bool} {first count done : Nat} {refusal : Option Nat}

def Passes (s : Schedule Bool) (count : Nat) : Prop :=
  ∀ i, i < count → s.outcome (s.calls + i) = true

theorem passes_zero (s : Schedule Bool) : s.Passes 0 := by
  intro i hi
  contradiction

theorem Passes.succ (hpeek : s.peek = true) (h : s.advance.Passes count) :
    s.Passes (count + 1) := by
  intro i hi
  cases i with
  | zero => exact hpeek
  | succ i =>
      have hcall := h i (by omega)
      rwa [outcome_advance, calls_advance, Nat.add_assoc, Nat.add_comm 1] at hcall

/-- How far a transfer of `count` sectors from `first` on comes: to its end, or to the first sector
that is refused, which is the one behind `done` others. -/
inductive Progress (s : Schedule Bool) (first count : Nat) : Nat → Option Nat → Prop where
  | complete : s.Passes count → Progress s first count count none
  | refused {done : Nat} : done < count → s.Passes done → s.outcome (s.calls + done) = false →
      Progress s first count done (some (first + done))

theorem Progress.refused_at_first (hpeek : s.peek = false) :
    s.Progress first (count + 1) 0 (some first) :=
  .refused (Nat.succ_pos count) s.passes_zero hpeek

theorem Progress.succ (hpeek : s.peek = true)
    (h : s.advance.Progress (first + 1) count done refusal) :
    s.Progress first (count + 1) (done + 1) refusal := by
  cases h with
  | complete hpass => exact .complete (hpass.succ hpeek)
  | refused hlt hpass hrefused =>
      rw [outcome_advance, calls_advance, Nat.add_assoc, Nat.add_comm 1] at hrefused
      rw [Nat.add_assoc, Nat.add_comm 1]
      exact .refused (Nat.succ_lt_succ hlt) (hpass.succ hpeek) hrefused

theorem Progress.le (h : s.Progress first count done refusal) : done ≤ count := by
  cases h with
  | complete _ => exact Nat.le_refl count
  | refused hlt _ _ => exact Nat.le_of_lt hlt

end Schedule

namespace Swap
namespace Area

variable {disk after : Disk} {first count done : Nat} {data page : Bytes}

/-! ## Runs of sectors -/

structure Wrote (disk after : Disk) (first done : Nat) (page : Bytes) : Prop where
  sectorSize : after.sectorSize = disk.sectorSize
  count : after.sectors.length = disk.sectors.length
  written : ∀ i, i < done →
    after.sectors[first + i]? = some ((page.drop (i * disk.sectorSize)).take disk.sectorSize)
  kept : ∀ i, i < first ∨ first + done ≤ i → after.sectors[i]? = disk.sectors[i]?

theorem wrote_nothing (disk : Disk) (first : Nat) (page : Bytes) (writing : Schedule Bool) :
    Wrote disk { disk with writing := writing } first 0 page where
  sectorSize := rfl
  count := rfl
  written := by
    intro i hi
    contradiction
  kept := fun _ _ => rfl

theorem writeSector_eq (hdata : data.length = disk.sectorSize)
    (hsector : first < disk.sectors.length) :
    disk.writeSector first data =
      if disk.writing.peek then
        (true, Disk.replace { disk with writing := disk.writing.advance } first data hdata)
      else (false, { disk with writing := disk.writing.advance }) := by
  simp only [Disk.writeSector, dif_pos hdata, hsector, decide_true, Bool.and_true]

theorem Wrote.cons {h : (page.take disk.sectorSize).length = disk.sectorSize}
    (hroom : first < disk.sectors.length)
    (hrest : Wrote (Disk.replace { disk with writing := disk.writing.advance } first
      (page.take disk.sectorSize) h) after (first + 1) done (page.drop disk.sectorSize)) :
    Wrote disk after first (done + 1) page where
  sectorSize := hrest.sectorSize
  count := hrest.count.trans List.length_set
  written := by
    intro i hi
    cases i with
    | zero =>
        rw [Nat.zero_mul, List.drop_zero]
        exact (hrest.kept first (Or.inl (Nat.lt_succ_self first))).trans
          (List.getElem?_set_self hroom)
    | succ i =>
        have hchunk := hrest.written i (Nat.lt_of_succ_lt_succ hi)
        rw [List.drop_drop] at hchunk
        rw [Nat.add_comm i 1, ← Nat.add_assoc, Nat.add_mul, Nat.one_mul]
        exact hchunk
  kept := by
    intro i hi
    refine (hrest.kept i (by omega)).trans ?_
    exact List.getElem?_set_ne (by omega)

theorem writeSectors_progress (hroom : first + count ≤ disk.sectors.length)
    (hpage : page.length = count * disk.sectorSize) :
    ∃ done refusal after, writeSectors disk first count page = (refusal, after) ∧
      disk.writing.Progress first count done refusal ∧ Wrote disk after first done page := by
  induction count generalizing disk first page with
  | zero =>
      exact ⟨0, none, disk, rfl, .complete disk.writing.passes_zero,
        wrote_nothing disk first page disk.writing⟩
  | succ count ih =>
      rw [Nat.succ_mul] at hpage
      have htake : (page.take disk.sectorSize).length = disk.sectorSize := by
        rw [List.length_take]
        omega
      have hsector : first < disk.sectors.length := by omega
      have hwrite := writeSector_eq htake hsector
      unfold writeSectors
      cases hpeek : disk.writing.peek with
      | false =>
          rw [hpeek, if_neg Bool.false_ne_true] at hwrite
          rw [hwrite]
          exact ⟨0, some first, _, rfl, .refused_at_first hpeek,
            wrote_nothing disk first page disk.writing.advance⟩
      | true =>
          rw [hpeek, if_pos rfl] at hwrite
          rw [hwrite]
          have hrest : (page.drop disk.sectorSize).length = count * disk.sectorSize := by
            rw [List.length_drop]
            omega
          have hroom' : first + 1 + count ≤
              (Disk.replace { disk with writing := disk.writing.advance } first
                (page.take disk.sectorSize) htake).sectors.length := by
            simp only [Disk.replace, List.length_set]
            omega
          rcases ih hroom' hrest with ⟨done, refusal, after, heq, hprogress, hwrote⟩
          exact ⟨done + 1, refusal, after, heq, hprogress.succ hpeek, hwrote.cons hsector⟩

theorem readSector_eq (hsector : disk.sectors[first]? = some data) :
    disk.readSector first disk.sectorSize =
      if disk.reading.peek then
        (some data, Disk.countRead { disk with reading := disk.reading.advance })
      else (none, { disk with reading := disk.reading.advance }) := by
  simp only [Disk.readSector, beq_self_eq_true, Bool.and_true, hsector]

theorem readSectors_progress (hroom : first + count ≤ disk.sectors.length) :
    ∃ done refusal data after, readSectors disk first count = (data, refusal, after) ∧
      disk.reading.Progress first count done refusal := by
  induction count generalizing disk first with
  | zero => exact ⟨0, none, [], disk, rfl, .complete disk.reading.passes_zero⟩
  | succ count ih =>
      have hsector : first < disk.sectors.length := by omega
      have hread := readSector_eq (List.getElem?_eq_getElem hsector)
      unfold readSectors
      cases hpeek : disk.reading.peek with
      | false =>
          rw [hpeek, if_neg Bool.false_ne_true] at hread
          rw [hread]
          exact ⟨0, some first, [], _, rfl, .refused_at_first hpeek⟩
      | true =>
          rw [hpeek, if_pos rfl] at hread
          rw [hread]
          have hroom' : first + 1 + count ≤
              (Disk.countRead { disk with reading := disk.reading.advance }).sectors.length := by
            simp only [Disk.countRead]
            omega
          rcases ih hroom' with ⟨done, refusal, data, after, heq, hprogress⟩
          simp only [heq]
          exact ⟨done + 1, refusal, _, after, rfl, hprogress.succ hpeek⟩

/-! ## Slots -/

variable {a : Area} {pageBytes slot : Nat}

/-- Writing a page to a slot comes as far as the schedule lets it, and changes exactly the sectors
that it wrote. -/
theorem Fits.write_progress (h : a.Fits pageBytes) (hdisk : a.disk = some disk)
    (hslot : slot < a.slots.total) (hpage : page.length = pageBytes) :
    ∃ done refusal after,
      a.write slot page = (transferResult refusal, { a with disk := some after }) ∧
        disk.writing.Progress (a.firstSector slot) a.sectorsPerPage done refusal ∧
        Wrote disk after (a.firstSector slot) done page := by
  have hlength : page.length = a.slotBytes := hpage.trans (h.page disk hdisk).symm
  have hsectors : page.length = a.sectorsPerPage * disk.sectorSize := by
    rw [hlength, slotBytes, h.sector disk hdisk, Nat.mul_comm]
  rcases writeSectors_progress (h.slot_inside hdisk hslot) hsectors with
    ⟨done, refusal, after, hwrite, hprogress, hwrote⟩
  exact ⟨done, refusal, after, write_eq hdisk hlength hwrite, hprogress, hwrote⟩

/-- Reading a slot comes as far as the schedule lets it, changes no sector, and delivers what the
slot holds when it comes to the end. -/
theorem Fits.read_progress (h : a.Fits pageBytes) (hdisk : a.disk = some disk)
    (hslot : slot < a.slots.total) {buffer : Bytes} (hbuffer : buffer.length = pageBytes) :
    ∃ done refusal data after,
      a.read slot buffer = (transferResult refusal, data, { a with disk := some after }) ∧
        disk.reading.Progress (a.firstSector slot) a.sectorsPerPage done refusal ∧
        after.sectorSize = disk.sectorSize ∧ after.sectors = disk.sectors ∧
        (refusal = none → data = a.slotContent slot) := by
  have hlength : buffer.length = a.slotBytes := hbuffer.trans (h.page disk hdisk).symm
  rcases readSectors_progress (h.slot_inside hdisk hslot) with
    ⟨done, refusal, data, after, hread, hprogress⟩
  rcases readSectors_spec hread with ⟨hsize, hsectors, hdata⟩
  refine ⟨done, refusal, _, after, read_eq hdisk hlength hread, hprogress, hsize, hsectors, ?_⟩
  intro hnone
  have hcontent : data = a.slotContent slot := by
    rw [hdata hnone, slotContent, hdisk]
  rw [hcontent]
  apply Bytes.overlay_zero_of_length_eq
  rw [h.slotContent_length hslot, hbuffer]

/-! ## Sequences of requests -/

structure WriteRecord where
  slot : Nat
  page : Bytes
  result : Except SlotFailure Unit

/-- The page of the last write of a slot, when that write succeeded. The latest record is first. -/
def saved? : List WriteRecord → Nat → Option Bytes
  | [], _ => none
  | last :: earlier, slot =>
      if last.slot = slot then
        match last.result with
        | .ok _ => some last.page
        | .error _ => none
      else saved? earlier slot

theorem saved?_cons_ne {last : WriteRecord} {earlier : List WriteRecord}
    (h : last.slot ≠ slot) : saved? (last :: earlier) slot = saved? earlier slot :=
  if_neg h

theorem saved?_cons_self {last : WriteRecord} {earlier : List WriteRecord}
    (h : saved? (last :: earlier) last.slot = some page) :
    last.result = .ok () ∧ last.page = page := by
  rw [saved?, if_pos rfl] at h
  split at h
  · rename_i hok
    exact ⟨hok, Option.some.inj h⟩
  · contradiction

/-- An area made on a disk, after any sequence of allocations and releases of slots and of reads
and writes of slots in use, with the writes so far. -/
inductive Served (disk : Disk) (pageBytes : Nat) : List WriteRecord → Area → Prop where
  | start {a : Area} :
      create disk pageBytes = .ok a →
      Served disk pageBytes [] a
  | given {writes : List WriteRecord} {a next : Area} {slot : Nat} :
      Served disk pageBytes writes a →
      a.allocate? = some (slot, next) →
      Served disk pageBytes writes next
  | returned {writes : List WriteRecord} {a next : Area} {slot : Nat} :
      Served disk pageBytes writes a →
      a.release slot = .ok next →
      Served disk pageBytes writes next
  | written {writes : List WriteRecord} {a : Area} {slot : Nat} {page : Bytes} :
      Served disk pageBytes writes a →
      a.slots.isUsed slot = true →
      page.length = pageBytes →
      Served disk pageBytes (⟨slot, page, (a.write slot page).1⟩ :: writes) (a.write slot page).2
  | fetched {writes : List WriteRecord} {a : Area} {slot : Nat} {buffer : Bytes} :
      Served disk pageBytes writes a →
      a.slots.isUsed slot = true →
      buffer.length = pageBytes →
      Served disk pageBytes writes (a.read slot buffer).2.2

/-- The area has its disk cut into as many whole pages as there are, with everything behind them as
it was at first, and every slot holds the page that was saved in it. -/
structure Faithful (initial : Disk) (pageBytes : Nat) (writes : List WriteRecord) (a : Area) :
    Prop where
  fits : a.Fits pageBytes
  positive : 0 < a.sectorsPerPage
  total : a.slots.total = initial.sectors.length / a.sectorsPerPage
  device : ∃ disk, a.disk = some disk ∧ disk.sectorSize = initial.sectorSize ∧
    disk.sectors.length = initial.sectors.length ∧
    ∀ i, a.slots.total * a.sectorsPerPage ≤ i → disk.sectors[i]? = initial.sectors[i]?
  saved : ∀ slot page, saved? writes slot = some page → a.slotContent slot = page

variable {initial : Disk} {writes : List WriteRecord} {next : Area}

theorem create_faithful (h : create initial pageBytes = .ok a) :
    a.Faithful initial pageBytes [] := by
  have hfits := create_fits h
  unfold create at h
  split at h
  · contradiction
  · simp only at h
    split at h
    · contradiction
    · rename_i hpositive
      cases h
      refine ⟨hfits, Nat.pos_of_ne_zero hpositive, rfl, ?_, ?_⟩
      · exact ⟨initial, rfl, rfl, rfl, fun _ _ => rfl⟩
      · intro slot page hsaved
        contradiction

theorem Faithful.withSlots (h : a.Faithful initial pageBytes writes) {slots : Bitmap}
    (hslots : slots.WellFormed) (htotal : slots.total = a.slots.total) :
    Faithful initial pageBytes writes { a with slots := slots } where
  fits := h.fits.withSlots hslots htotal
  positive := h.positive
  total := htotal.trans h.total
  device := by
    rcases h.device with ⟨disk, hdisk, hsize, hcount, htail⟩
    refine ⟨disk, hdisk, hsize, hcount, ?_⟩
    intro i hi
    exact htail i (htotal ▸ hi)
  saved := h.saved

theorem Faithful.read (h : a.Faithful initial pageBytes writes)
    (hused : a.slots.isUsed slot = true) {buffer : Bytes} (hbuffer : buffer.length = pageBytes) :
    (a.read slot buffer).2.2.Faithful initial pageBytes writes := by
  rcases h.device with ⟨disk, hdisk, hsize, hcount, htail⟩
  rcases h.fits.read_progress hdisk (h.fits.slots.lt_total hused) hbuffer with
    ⟨done, refusal, data, after, hread, -, hsame, hsectors, -⟩
  rw [hread]
  refine ⟨h.fits.withDisk hdisk hsame (congrArg List.length hsectors), h.positive, h.total, ?_, ?_⟩
  · refine ⟨after, rfl, hsame.trans hsize, (congrArg List.length hsectors).trans hcount, ?_⟩
    intro i hi
    rw [hsectors]
    exact htail i hi
  · intro other page hsaved
    rw [← h.saved other page hsaved]
    simp only [slotContent, hdisk, hsectors, firstSector]

theorem Faithful.write (h : a.Faithful initial pageBytes writes)
    (hused : a.slots.isUsed slot = true) (hpage : page.length = pageBytes) :
    (a.write slot page).2.Faithful initial pageBytes
      (⟨slot, page, (a.write slot page).1⟩ :: writes) := by
  have hslot := h.fits.slots.lt_total hused
  have hfits := h.fits.afterWrite slot page
  have hframe := write_frame a slot page
  have hspec := write_spec h.fits hslot hpage
  have hlast : ∀ other kept, saved? (⟨slot, page, (a.write slot page).1⟩ :: writes) other =
      some kept → (a.write slot page).2.slotContent other = kept := by
    intro other kept hsaved
    by_cases hsame : other = slot
    · subst hsame
      rcases saved?_cons_self hsaved with ⟨hok, rfl⟩
      rcases hspec with ⟨_, _, ⟨_, hcontent⟩ | ⟨sector, herror⟩⟩
      · exact hcontent
      · rw [herror] at hok
        contradiction
    · rw [saved?_cons_ne (Ne.symm hsame)] at hsaved
      rw [hframe.2 other hsame]
      exact h.saved other kept hsaved
  rcases h.device with ⟨disk, hdisk, hsize, hcount, htail⟩
  rcases h.fits.write_progress hdisk hslot hpage with
    ⟨done, refusal, after, hwrite, hprogress, hwrote⟩
  rw [hwrite] at hfits hlast ⊢
  refine ⟨hfits, h.positive, h.total, ?_, hlast⟩
  refine ⟨after, rfl, hwrote.sectorSize.trans hsize, hwrote.count.trans hcount, ?_⟩
  intro i hi
  -- The sectors behind the last slot lie behind those of this slot.
  have hinside := a.slot_within hslot
  have hdone := hprogress.le
  have hi' : a.slots.total * a.sectorsPerPage ≤ i := hi
  rw [hwrote.kept i (by omega)]
  exact htail i hi

theorem Served.faithful (h : Served initial pageBytes writes a) :
    a.Faithful initial pageBytes writes := by
  induction h with
  | start hcreate => exact create_faithful hcreate
  | given _ halloc ih =>
      rcases Option.map_eq_some_iff.mp halloc with ⟨⟨found, slots⟩, hfound, heq⟩
      cases heq
      rcases Bitmap.allocate?_eq_some ih.fits.slots hfound with ⟨-, -, htotal, hform, -⟩
      exact ih.withSlots hform htotal
  | @returned _ a _ slot _ hrelease ih =>
      cases hslots : a.slots.release slot with
      | error e =>
          rw [release, hslots] at hrelease
          contradiction
      | ok slots =>
          rw [release, hslots] at hrelease
          cases hrelease
          rcases Bitmap.release_of_isUsed ih.fits.slots (Bitmap.isUsed_of_release hslots) with
            ⟨after, hafter, htotal, hform, -⟩
          rw [hslots] at hafter
          cases hafter
          exact ih.withSlots hform htotal
  | written _ hused hpage ih => exact ih.write hused hpage
  | fetched _ hused hbuffer ih => exact ih.read hused hbuffer

/-- After any sequence of requests the disk is cut into whole pages, and the sectors behind them are
as they were at first. The sectors of a slot in use lie inside the device and apart from those of
any other slot. A read of it comes as far as the disk lets it and changes no sector, and when it
succeeds it delivers the page of the last write of the slot, if that write succeeded. A write of it
comes as far as the disk lets it, leaves the sectors up to there with the page, and changes no other
sector. -/
theorem slots_independent_and_faithful (h : Served initial pageBytes writes a) :
    ∃ disk, a.disk = some disk ∧
      disk.sectorSize = initial.sectorSize ∧ disk.sectors.length = initial.sectors.length ∧
      0 < a.sectorsPerPage ∧ a.sectorsPerPage * disk.sectorSize = pageBytes ∧
      a.slots.total = disk.sectors.length / a.sectorsPerPage ∧
      (∀ i, a.slots.total * a.sectorsPerPage ≤ i → disk.sectors[i]? = initial.sectors[i]?) ∧
      ∀ slot, a.slots.isUsed slot = true →
        a.firstSector slot + a.sectorsPerPage ≤ a.slots.total * a.sectorsPerPage ∧
        a.firstSector slot + a.sectorsPerPage ≤ disk.sectors.length ∧
        (∀ other i, other ≠ slot → i < a.sectorsPerPage →
          a.firstSector other + i < a.firstSector slot ∨
            a.firstSector slot + a.sectorsPerPage ≤ a.firstSector other + i) ∧
        (∀ buffer : Bytes, buffer.length = pageBytes → ∃ done refusal data after,
          a.read slot buffer = (transferResult refusal, data, { a with disk := some after }) ∧
            disk.reading.Progress (a.firstSector slot) a.sectorsPerPage done refusal ∧
            after.sectors = disk.sectors ∧
            (refusal = none → data = a.slotContent slot ∧
              ∀ page, saved? writes slot = some page → data = page)) ∧
        ∀ page : Bytes, page.length = pageBytes → ∃ done refusal after,
          a.write slot page = (transferResult refusal, { a with disk := some after }) ∧
            disk.writing.Progress (a.firstSector slot) a.sectorsPerPage done refusal ∧
            Wrote disk after (a.firstSector slot) done page := by
  have hfaithful := h.faithful
  have hfits := hfaithful.fits
  rcases hfaithful.device with ⟨disk, hdisk, hsize, hcount, htail⟩
  have hpage : a.sectorsPerPage * disk.sectorSize = pageBytes := by
    rw [hfits.sector disk hdisk, Nat.mul_comm]
    exact hfits.page disk hdisk
  refine ⟨disk, hdisk, hsize, hcount, hfaithful.positive, hpage, hcount ▸ hfaithful.total, htail,
    ?_⟩
  intro slot hused
  have hslot := hfits.slots.lt_total hused
  refine ⟨a.slot_within hslot, hfits.slot_inside hdisk hslot, ?_, ?_, ?_⟩
  · intro other i hne hi
    exact sectors_disjoint hne hi
  · intro buffer hbuffer
    rcases hfits.read_progress hdisk hslot hbuffer with
      ⟨done, refusal, data, after, hread, hprogress, -, hsectors, hdata⟩
    refine ⟨done, refusal, data, after, hread, hprogress, hsectors, ?_⟩
    intro hnone
    refine ⟨hdata hnone, ?_⟩
    intro page hsaved
    exact (hdata hnone).trans (hfaithful.saved slot page hsaved)
  · intro page hlength
    exact hfits.write_progress hdisk hslot hlength

/-- Both slots of a disk of five sectors are written, and the fourth write of a sector is refused:
the second slot is left with half of its page, and the first one delivers its own. -/
theorem first_slot_kept_beside_torn_slot :
    ∃ a, Served { Disk.blank 5 2 with writing := ⟨fun call => decide (call ≠ 3), 0⟩ } 4
        [⟨1, [5, 6, 7, 8], .error (.refused 3)⟩, ⟨0, [1, 2, 3, 4], .ok ()⟩] a ∧
      a.disk.map Disk.sectors = some [[1, 2], [3, 4], [5, 6], [0, 0], [0, 0]] ∧
      (a.read 0 [0, 0, 0, 0]).1 = .ok () ∧ (a.read 0 [0, 0, 0, 0]).2.1 = [1, 2, 3, 4] := by
  have hstart : Served { Disk.blank 5 2 with
      writing := ⟨fun call => decide (call ≠ 3), 0⟩ } 4 [] _ := .start rfl
  have hone := hstart.given (show _ = some (0, _) from rfl)
  have hgiven := hone.given (show _ = some (1, _) from rfl)
  have hfirst := hgiven.written (show Bitmap.isUsed _ 0 = true by decide)
    (show [1, 2, 3, 4].length = 4 from rfl)
  have hboth := hfirst.written (show Bitmap.isUsed _ 1 = true by decide)
    (show [5, 6, 7, 8].length = 4 from rfl)
  refine ⟨_, hboth, rfl, ?_⟩
  rcases slots_independent_and_faithful hboth with ⟨_, hdisk, -, -, -, -, -, -, hslots⟩
  cases hdisk
  rcases (hslots 0 (by decide)).2.2.2.1 [0, 0, 0, 0] rfl with
    ⟨done, refusal, data, after, hread, hprogress, -, hdata⟩
  cases refusal with
  | none =>
      rw [hread]
      exact ⟨rfl, (hdata rfl).2 _ rfl⟩
  | some sector =>
      cases hprogress with
      | refused _ _ hrefused => contradiction

end Area
end Swap
end DemandPaging
