import DemandPaging.Machine.Fork
import DemandPaging.Proofs.Machine.Devices

/-!
# Relations that evictions and copies keep

A relation between machines that ignores each single step of an eviction is kept by the whole of
it, however it ends. The structures below say which steps a relation ignores: those on the swap
area, those by which a page parts with its frame, those on the ring and the pool, and those by
which a page is copied.
-/

namespace DemandPaging

/-! ## Devices that go on as before -/

def Mmu.AcceptsAlike (u v : Mmu) : Prop :=
  v.accepting.outcome = u.accepting.outcome ∧ u.accepting.calls ≤ v.accepting.calls

def Swap.Area.ReadsAlike (a b : Area) : Prop :=
  b.disk.map Disk.reading = a.disk.map Disk.reading

theorem Mmu.acceptsAlike_map (u : Mmu) (va : Vaddr) (frame : Nat) (writable : Bool) :
    u.AcceptsAlike (u.map va frame writable).2 := by
  unfold AcceptsAlike map
  dsimp only
  split
  · exact ⟨rfl, Nat.le_succ _⟩
  · split
    · exact ⟨rfl, Nat.le_succ _⟩
    · split
      · exact ⟨rfl, Nat.le_succ _⟩
      · exact ⟨rfl, Nat.le_succ _⟩

theorem BackingFile.reading_write (file : BackingFile) (offset : Nat) (data : Bytes) :
    (file.write offset data).2.reading = file.reading := by
  unfold write
  dsimp only
  cases file.writing.peek with
  | whole => rfl
  | short count => rfl
  | refused => rfl

theorem BackingFile.length_write (file : BackingFile) (offset : Nat) (data : Bytes) :
    (file.write offset data).2.content.length = file.content.length := by
  unfold write
  dsimp only
  cases file.writing.peek with
  | whole => exact length_accept _ offset data
  | short count => exact length_accept _ offset _
  | refused => rfl

namespace Swap
namespace Area

theorem reading_writeSector (disk : Disk) (sector : Nat) (data : Bytes) :
    (disk.writeSector sector data).2.reading = disk.reading := by
  rcases writeSector_cases disk sector data with h | ⟨_, _, h⟩
  · rw [h]
  · rw [h]
    rfl

theorem reading_writeSectors (disk : Disk) (sector count : Nat) (data : Bytes) :
    (writeSectors disk sector count data).2.reading = disk.reading := by
  induction count generalizing disk sector data with
  | zero => rfl
  | succ count ih =>
      have hfirst := reading_writeSector disk sector (data.take disk.sectorSize)
      unfold writeSectors
      split
      · rename_i next hnext
        rw [hnext] at hfirst
        exact (ih next _ _).trans hfirst
      · rename_i next hnext
        rw [hnext] at hfirst
        exact hfirst

theorem readsAlike_write (a : Area) (slot : Nat) (page : Bytes) :
    a.ReadsAlike (a.write slot page).2 := by
  unfold ReadsAlike write
  cases hdisk : a.disk with
  | none =>
      dsimp only
      rw [hdisk]
  | some disk =>
      dsimp only
      split
      · rw [hdisk]
      · exact congrArg some (reading_writeSectors disk _ _ page)

end Area
end Swap

namespace Machine

open Routine

/-! ## Relations and what they ignore -/

structure IgnoresSwap (R : Machine → Machine → Prop) : Prop extends Oblivious R where
  setSwap : ∀ m area, m.swap.ReadsAlike area → R m { m with swap := area }

/-- A relation that does not see how a page, which keeps its number, is saved and parts with its
frame. -/
structure IgnoresParting (R : Machine → Machine → Prop) : Prop extends IgnoresSwap R where
  recorded : ∀ m event, R m (m.recorded event)
  modifyPage : ∀ m p va (change : Page → Page), (∀ page, (change page).id = page.id) →
    R m (m.modifyPage p va change)
  modifyMmu : ∀ m p change, (m.process p).mmu.AcceptsAlike (change (m.process p).mmu) →
    R m (m.modifyMmu p change)
  writeFile : ∀ m f offset data,
    R m { m with files := m.files.set f ((file m f).write offset data).2 }

structure IgnoresEviction (R : Machine → Machine → Prop) : Prop extends IgnoresParting R where
  modifyRing : ∀ m (change : FrameRing → FrameRing), R m { m with ring := change m.ring }
  takeFrame : ∀ m, R m { m with pool := m.pool.take.2 }

structure IgnoresCopying (R : Machine → Machine → Prop) : Prop extends IgnoresEviction R where
  setPool : ∀ m pool, R m { m with pool := pool }
  readSlot : ∀ m slot buffer, R m { m with swap := (m.swap.read slot buffer).2.2 }
  withPage : ∀ m p page, R m (m.withPage p page)
  modifyMappings : ∀ m p change, R m (m.modifyMappings p change)

variable {R : Machine → Machine → Prop}

/-! ## The swap area -/

theorem kept_allocateSlot (hR : IgnoresSwap R) : Keeps R allocateSlot := by
  apply Keeps.withLock hR.toOblivious
  intro m
  rw [ends_bind, ends_get]
  cases hgiven : m.swap.allocate? with
  | none => exact hR.refl m
  | some given =>
      rcases Option.map_eq_some_iff.mp hgiven with ⟨slots, _, rfl⟩
      rw [ends_bind, ends_setSwap, ends_pure]
      exact hR.setSwap m _ rfl

theorem kept_releaseSlot (hR : IgnoresSwap R) (slot : Nat) : Keeps R (releaseSlot slot) := by
  apply Keeps.withLock hR.toOblivious
  intro m
  rw [ends_bind, ends_get]
  rcases hreleased : m.swap.slots.release slot with a | slots
  · rw [Swap.Area.release, hreleased]
    trivial
  · rw [Swap.Area.release, hreleased]
    exact hR.setSwap m _ rfl

theorem kept_writeSlot (hR : IgnoresSwap R) (slot : Nat) (bytes : Bytes) :
    Keeps R (writeSlot slot bytes) := by
  intro m
  have hwritten := hR.setSwap m _ (m.swap.readsAlike_write slot bytes)
  unfold writeSlot
  simp only [ends_bind, ends_get, ends_setSwap]
  cases (m.swap.write slot bytes).1 with
  | ok done => exact hwritten
  | error failure =>
      have hfailing : Keeps R (do
          report? (Swap.Area.writeReport? slot failure)
          throw failure.stop : Routine Unit) :=
        .bind hR.toOblivious (.report? hR.toOblivious _) fun _ => .throw hR.toOblivious _
      refine (hfailing _).mono ?_ ?_
      · exact fun _ next => hR.trans m _ next hwritten
      · exact fun _ next => hR.trans m _ next hwritten

theorem kept_saveToSlot (hR : IgnoresSwap R) (bytes : Bytes) : Keeps R (saveToSlot bytes) := by
  apply Keeps.bind hR.toOblivious (kept_allocateSlot hR)
  intro given
  apply Keeps.bind hR.toOblivious (.orFail hR.toOblivious _ given)
  intro slot
  apply Keeps.bind hR.toOblivious (.attempt (kept_writeSlot hR slot bytes))
  intro result
  cases result with
  | ok done => exact .pure hR.toOblivious slot
  | error e =>
      exact .bind hR.toOblivious (kept_releaseSlot hR slot) fun _ => .throw hR.toOblivious _

/-! ## Parting with a frame -/

theorem kept_updatePage (hR : IgnoresParting R) (p : Nat) (va : Vaddr) {change : Page → Page}
    (hid : ∀ page, (change page).id = page.id) : Keeps R (updatePage p va change) :=
  fun m => hR.modifyPage m p va change hid

theorem kept_record (hR : IgnoresParting R) (event : Event) : Keeps R (record event) :=
  fun m => hR.recorded m event

theorem kept_mapPage (hR : IgnoresParting R) (p : Nat) (va : Vaddr) (frame : Nat)
    (writable : Bool) : Keeps R (mapPage p va frame writable) := by
  intro m
  have hmapped := hR.modifyMmu m p (fun _ => ((m.process p).mmu.map va frame writable).2)
    ((m.process p).mmu.acceptsAlike_map va frame writable)
  unfold mapPage
  simp only [ends_bind, ends_get, ends_modify]
  cases ((m.process p).mmu.map va frame writable).1 with
  | ok accepted => exact hmapped
  | error a => trivial

theorem kept_unmapPage (hR : IgnoresParting R) (p : Nat) (va : Vaddr) :
    Keeps R (unmapPage p va) :=
  fun m => hR.modifyMmu m p _ ⟨rfl, Nat.le_refl _⟩

theorem kept_setDirty (hR : IgnoresParting R) (p : Nat) (va : Vaddr) (dirty : Bool) :
    Keeps R (setDirty p va dirty) :=
  fun m => hR.modifyMmu m p _ ⟨rfl, Nat.le_refl _⟩

theorem kept_setAccessed (hR : IgnoresParting R) (p : Nat) (va : Vaddr) (accessed : Bool) :
    Keeps R (setAccessed p va accessed) :=
  fun m => hR.modifyMmu m p _ ⟨rfl, Nat.le_refl _⟩

theorem kept_writeFile (hR : IgnoresParting R) (owner : Owner) (f : Nat) (offset : UInt64)
    (data : Bytes) : Keeps R (writeFile owner f offset data) := by
  intro m
  unfold writeFile
  simp only [ends_bind, ends_get, ends_setFile, ends_record, ends_pure]
  exact hR.trans m _ _ (hR.writeFile m f offset.toNat data) (hR.recorded _ _)

theorem kept_writeBack (hR : IgnoresParting R) (owner : Owner) (x : FileExtent) (bytes : Bytes) :
    Keeps R (writeBack owner x bytes) := by
  unfold writeBack
  dsimp only
  split
  · exact .pure hR.toOblivious ()
  · apply Keeps.bind hR.toOblivious (.ensure hR.toOblivious _ _)
    intro _
    apply Keeps.bind hR.toOblivious (kept_writeFile hR _ _ _ _)
    intro answer
    apply Keeps.bind hR.toOblivious (.orFail hR.toOblivious _ answer)
    intro accepted
    split
    · exact .pure hR.toOblivious ()
    · exact .refuse hR.toOblivious _ _

theorem kept_savePage (hR : IgnoresParting R) (owner : Owner) (state : PageState) (bytes : Bytes)
    (dirty : Bool) : Keeps R (savePage owner state bytes dirty) := by
  cases state with
  | uninit origin => exact .throw hR.toOblivious _
  | anon slot =>
      exact .bind hR.toOblivious (kept_saveToSlot hR.toIgnoresSwap bytes) fun _ =>
        .pure hR.toOblivious _
  | file x =>
      exact .bind hR.toOblivious (.when _ hR.toOblivious (kept_writeBack hR owner x bytes))
        fun _ => .pure hR.toOblivious _

theorem kept_secondChance (hR : IgnoresParting R) (page : Page) : Keeps R (secondChance page) := by
  apply Keeps.bind hR.toOblivious (.get hR.toOblivious)
  intro seen
  exact .bind hR.toOblivious (.when _ hR.toOblivious (kept_setAccessed hR _ _ _)) fun _ =>
    .pure hR.toOblivious _

theorem kept_restoreMapping (hR : IgnoresParting R) (owner : Owner) (page : Page) (frame : Nat)
    (dirty : Bool) : Keeps R (restoreMapping owner page frame dirty) := by
  apply Keeps.bind hR.toOblivious (kept_mapPage hR _ _ _ _)
  intro accepted
  cases accepted with
  | true => exact .when _ hR.toOblivious (kept_setDirty hR _ _ _)
  | false => exact kept_record hR _

theorem kept_pageOut (hR : IgnoresParting R) (owner : Owner) (page : Page) :
    Keeps R (pageOut owner page) := by
  apply Keeps.bind hR.toOblivious (.orFail hR.toOblivious _ page.frame)
  intro frame
  apply Keeps.bind hR.toOblivious (kept_unmapPage hR _ _)
  intro dirty
  apply Keeps.bind hR.toOblivious (x := readFrame frame page.bytes) hR.refl
  intro bytes
  apply Keeps.bind hR.toOblivious (.attempt (kept_savePage hR _ _ _ _))
  intro result
  cases result with
  | ok state =>
      refine .bind hR.toOblivious (kept_updatePage hR _ _ ?_) fun _ => ?_
      · exact fun _ => rfl
      · exact .bind hR.toOblivious (kept_record hR _) fun _ => .pure hR.toOblivious _
  | error e =>
      exact .bind hR.toOblivious (kept_restoreMapping hR _ _ _ _) fun _ =>
        .throw hR.toOblivious _

/-! ## Obtaining a frame -/

theorem kept_modifyRing (hR : IgnoresEviction R) (change : FrameRing → FrameRing) :
    Keeps R (modifyRing change) :=
  fun m => hR.modifyRing m change

theorem kept_evictPage (hR : IgnoresEviction R) (place : Nat) (entry : RingEntry) (page : Page) :
    Keeps R (evictPage place entry page) := by
  apply Keeps.bind hR.toOblivious (.attempt (kept_pageOut hR.toIgnoresParting _ _))
  intro result
  cases result with
  | ok frame =>
      apply Keeps.bind hR.toOblivious (.ensure hR.toOblivious _ _)
      intro _
      apply Keeps.bind hR.toOblivious (kept_modifyRing hR _)
      intro _
      exact .bind hR.toOblivious (.report hR.toOblivious _) fun _ => .pure hR.toOblivious _
  | error e =>
      exact .bind hR.toOblivious (.report hR.toOblivious _) fun _ => .pure hR.toOblivious _

theorem kept_evictEntry (hR : IgnoresEviction R) (place : Nat) (entry : RingEntry) :
    Keeps R (evictEntry place entry) := by
  unfold evictEntry
  split
  · exact .pure hR.toOblivious none
  · apply Keeps.bind hR.toOblivious (.get hR.toOblivious)
    intro seen
    cases seen.ownedPage? entry.owner with
    | none =>
        apply Keeps.bind hR.toOblivious (kept_modifyRing hR _)
        exact fun _ => .pure hR.toOblivious _
    | some page =>
        apply Keeps.withFreeLock hR.toOblivious
        apply Keeps.bind hR.toOblivious (kept_secondChance hR.toIgnoresParting page)
        intro accessed
        cases accessed with
        | true => exact .pure hR.toOblivious none
        | false => exact kept_evictPage hR place entry page

theorem kept_sweep (hR : IgnoresEviction R) (visits : Nat) : Keeps R (sweep visits) := by
  induction visits with
  | zero => exact .throw hR.toOblivious _
  | succ visits ih =>
      apply Keeps.bind hR.toOblivious (.get hR.toOblivious)
      intro seen
      dsimp only
      split
      · exact .throw hR.toOblivious _
      · apply Keeps.bind hR.toOblivious (kept_modifyRing hR _)
        intro _
        apply Keeps.bind hR.toOblivious (kept_evictEntry hR _ _)
        intro taken
        cases taken with
        | some frame => exact .pure hR.toOblivious frame
        | none => exact ih

theorem kept_allocateFrame (hR : IgnoresEviction R) (owner : Owner) :
    Keeps R (allocateFrame owner) := by
  apply Keeps.withLock hR.toOblivious
  have hobtained : Keeps R obtainFrame := by
    apply Keeps.bind hR.toOblivious (x := takeFromPool) hR.takeFrame
    intro taken
    cases taken with
    | some frame => exact .pure hR.toOblivious frame
    | none => exact .bind hR.toOblivious (.get hR.toOblivious) fun _ => kept_sweep hR _
  apply Keeps.bind hR.toOblivious hobtained
  intro frame
  apply Keeps.bind hR.toOblivious (kept_modifyRing hR _)
  exact fun _ => .pure hR.toOblivious frame

/-! ## Frames of copies -/

theorem kept_unpinFrame (hR : IgnoresEviction R) (frame : Nat) : Keeps R (unpinFrame frame) :=
  .withLock hR.toOblivious (kept_modifyRing hR _)

theorem kept_attachFrame (hR : IgnoresParting R) (p : Nat) (page : Page) (frame : Nat) :
    Keeps R (attachFrame p page frame) := by
  apply Keeps.bind hR.toOblivious (.get hR.toOblivious)
  intro seen
  apply Keeps.bind hR.toOblivious (.ensure hR.toOblivious _ _)
  exact fun _ => kept_updatePage hR _ _ fun _ => rfl

theorem kept_detachFrame (hR : IgnoresParting R) (p : Nat) (page : Page) :
    Keeps R (detachFrame p page) :=
  kept_updatePage hR _ _ fun _ => rfl

theorem kept_writeFrame (hR : IgnoresCopying R) (frame start : Nat) (data : Bytes) :
    Keeps R (writeFrame frame start data) :=
  fun m => hR.setPool m _

theorem kept_freeFrame (hR : IgnoresCopying R) (frame : Nat) : Keeps R (freeFrame frame) := by
  have hunlisted : Keeps R (unlistFrame frame) := by
    apply Keeps.bind hR.toOblivious (.get hR.toOblivious)
    intro seen
    cases seen.ring.position? frame with
    | some place => exact kept_modifyRing hR.toIgnoresEviction _
    | none => exact .report hR.toOblivious _
  apply Keeps.bind hR.toOblivious (.withLock hR.toOblivious hunlisted)
  intro _
  apply Keeps.bind hR.toOblivious (.get hR.toOblivious)
  intro seen
  apply Keeps.bind hR.toOblivious (.ofAbort hR.toOblivious _)
  exact fun pool m => hR.setPool m pool

theorem kept_readSlot (hR : IgnoresCopying R) (slot frame length : Nat) :
    Keeps R (readSlot slot frame length) := by
  intro m
  unfold readSlot
  simp only [ends_bind, ends_readFrame, ends_get, ends_setSwap, ends_writeFrame]
  have hread : ∀ buffer pool,
      R m { m with swap := (m.swap.read slot buffer).2.2, pool := pool } :=
    fun buffer pool => hR.trans m _ _ (hR.readSlot m slot buffer) (hR.setPool _ pool)
  split
  · exact hread _ _
  · rename_i failure _
    have hfailing : Keeps R (do
        report? (Swap.Area.readReport? slot failure)
        throw failure.stop : Routine Unit) :=
      .bind hR.toOblivious (.report? hR.toOblivious _) fun _ => .throw hR.toOblivious _
    refine (hfailing _).mono ?_ ?_
    · exact fun _ next => hR.trans m _ next (hread _ _)
    · exact fun _ next => hR.trans m _ next (hread _ _)

/-! ## Copies -/

theorem kept_register (hR : IgnoresCopying R) (p : Nat) (page : Page) :
    Keeps R (register p page) := by
  intro m
  unfold register
  simp only [ends_bind, ends_get, ends_require, ends_set, ends_pure]
  split
  · split
    · split
      · exact hR.withPage m p page
      · exact hR.refl m
    · exact hR.refl m
  · exact hR.refl m

theorem kept_mapCopy (hR : IgnoresCopying R) (t : Nat) (copy : Page) (frame : Nat)
    (dirty : Bool) : Keeps R (mapCopy t copy frame dirty) := by
  apply Keeps.bind hR.toOblivious (kept_attachFrame hR.toIgnoresParting _ _ _)
  intro _
  apply Keeps.bind hR.toOblivious (kept_mapPage hR.toIgnoresParting _ _ _ _)
  intro accepted
  cases accepted with
  | true =>
      apply Keeps.bind hR.toOblivious
        (.when _ hR.toOblivious (kept_setDirty hR.toIgnoresParting _ _ _))
      intro _
      exact .bind hR.toOblivious (kept_unpinFrame hR.toIgnoresEviction frame) fun _ =>
        kept_record hR.toIgnoresParting _
  | false =>
      apply Keeps.bind hR.toOblivious (kept_detachFrame hR.toIgnoresParting t copy)
      intro _
      exact .bind hR.toOblivious (kept_freeFrame hR frame) fun _ => .throw hR.toOblivious _

theorem kept_placeCopy (hR : IgnoresCopying R) (t : Nat) (copy : Page) (dirty : Bool)
    {fill : Nat → Routine Unit} (hfill : ∀ frame, Keeps R (fill frame)) :
    Keeps R (placeCopy t copy dirty fill) := by
  apply Keeps.withLock hR.toOblivious
  apply Keeps.bind hR.toOblivious (kept_allocateFrame hR.toIgnoresEviction _)
  intro frame
  apply Keeps.bind hR.toOblivious (.attempt (hfill frame))
  intro result
  cases result with
  | ok done => exact kept_mapCopy hR t copy frame dirty
  | error e => exact .bind hR.toOblivious (kept_freeFrame hR frame) fun _ => .throw hR.toOblivious _

theorem kept_copyPage (hR : IgnoresCopying R) (s t : Nat) (page : Page) :
    Keeps R (copyPage s t page) := by
  apply Keeps.bind hR.toOblivious (kept_register hR _ _)
  intro copy
  unfold copyContent
  split
  · apply Keeps.bind hR.toOblivious (.get hR.toOblivious)
    intro seen
    apply Keeps.bind hR.toOblivious (x := readFrame _ _) hR.refl
    intro bytes
    exact kept_placeCopy hR t copy _ fun frame => kept_writeFrame hR frame 0 bytes
  · exact kept_placeCopy hR t copy _ fun frame => kept_readSlot hR _ frame _
  · exact .pure hR.toOblivious ()

theorem kept_copyPages (hR : IgnoresCopying R) (s t : Nat) (vas : List Vaddr) :
    Keeps R (copyPages s t vas) := by
  induction vas with
  | nil => exact .pure hR.toOblivious ()
  | cons va rest ih =>
      unfold copyPages
      apply Keeps.bind hR.toOblivious
      · apply Keeps.withLock hR.toOblivious
        apply Keeps.bind hR.toOblivious (.get hR.toOblivious)
        intro seen
        cases seen.page? s va with
        | some page => exact kept_copyPage hR s t page
        | none => exact .pure hR.toOblivious ()
      · exact fun _ => ih

theorem kept_fork (hR : IgnoresCopying R) (s t : Nat) : Keeps R (fork s t) := by
  apply Keeps.bind hR.toOblivious (.get hR.toOblivious)
  intro seen
  apply Keeps.bind hR.toOblivious (.require hR.toOblivious _ _)
  intro _
  apply Keeps.bind hR.toOblivious (kept_copyPages hR _ _ _)
  intro _
  apply Keeps.bind hR.toOblivious
  · exact fun m => hR.modifyMappings m t _
  · exact fun _ => .report hR.toOblivious _

end Machine
end DemandPaging
