import DemandPaging.Proofs.Machine.Operation
import DemandPaging.Proofs.Swap.Allocation

/-!
# Saving a page on any machine

What is said here of saving a page needs no rule that ties the parts of the machine together. A save
leaves the pages, their mappings and the frames alone, and one that fails leaves the used slots and
their content as they were. The aborts on the way are listed as the hypotheses of the lemmas.
-/

namespace DemandPaging

/-! ## Swap areas with the same content -/

structure Swap.Area.SameSlots (a b : Area) : Prop where
  isUsed : ∀ s, b.slots.isUsed s = a.slots.isUsed s
  used : b.slots.used = a.slots.used
  content : ∀ s, a.slots.isUsed s = true → b.slotContent s = a.slotContent s

theorem Swap.Area.SameSlots.refl (a : Area) : a.SameSlots a :=
  ⟨fun _ => rfl, rfl, fun _ _ => rfl⟩

namespace Machine

open Routine

/-! ## What saving leaves alone -/

structure SameFrames (m n : Machine) : Prop where
  layout : n.layout = m.layout
  pool : n.pool = m.pool
  ring : n.ring = m.ring
  held : n.held = m.held
  fits : ∀ size, m.swap.Fits size → n.swap.Fits size

namespace SameFrames

variable {l m n : Machine} {lock : Lock} {event : Event}

theorem refl (m : Machine) : m.SameFrames m :=
  ⟨rfl, rfl, rfl, rfl, fun _ h => h⟩

theorem trans (h : l.SameFrames m) (h' : m.SameFrames n) : l.SameFrames n where
  layout := h'.layout.trans h.layout
  pool := h'.pool.trans h.pool
  ring := h'.ring.trans h.ring
  held := h'.held.trans h.held
  fits := fun size hfits => h'.fits size (h.fits size hfits)

theorem recorded (h : m.SameFrames n) : m.SameFrames (n.recorded event) :=
  { h with }

theorem modifyProcess (h : m.SameFrames n) (p : Nat) (change : Process → Process) :
    m.SameFrames (n.modifyProcess p change) :=
  { h with }

theorem erase_held (h : n.held = lock :: m.held) : n.held.erase lock = m.held := by
  rw [h]
  exact List.erase_cons_head lock m.held

theorem of_locked (h : (m.locked lock).SameFrames n) : m.SameFrames (n.unlocked lock) :=
  { h with held := erase_held h.held }

end SameFrames

/-- The processes are the same as well: the machines differ in the swap area, the files and what was
recorded. -/
structure Saving (m n : Machine) : Prop extends SameFrames m n where
  processes : n.processes = m.processes

namespace Saving

variable {l m n : Machine} {lock : Lock} {event : Event}

theorem refl (m : Machine) : m.Saving m :=
  ⟨.refl m, rfl⟩

theorem trans (h : l.Saving m) (h' : m.Saving n) : l.Saving n :=
  ⟨h.toSameFrames.trans h'.toSameFrames, h'.processes.trans h.processes⟩

theorem recorded (h : m.Saving n) : m.Saving (n.recorded event) :=
  { h with }

theorem of_locked (h : (m.locked lock).Saving n) : m.Saving (n.unlocked lock) :=
  ⟨h.toSameFrames.of_locked, h.processes⟩

theorem process (h : m.Saving n) (p : Nat) : n.process p = m.process p := by
  unfold Machine.process
  rw [h.processes]

theorem page? (h : m.Saving n) : n.page? = m.page? := by
  funext p va
  unfold Machine.page?
  rw [h.process]

theorem mapped? (h : m.Saving n) : n.mapped? = m.mapped? := by
  funext p va
  unfold Machine.mapped?
  rw [h.process]

end Saving

variable {m : Machine} {fatal : Abort → Prop} {bytes : Bytes} {s : Nat}

/-! ## Slots -/

theorem saving_allocateSlot (hwait : Lock.swap ∈ m.held → fatal (.selfDeadlock .swap)) :
    Ends allocateSlot m fatal
      (fun given next => m.Saving next ∧
        match given with
        | some s => ∃ slots, m.swap.slots.allocate? = some (s, slots) ∧
            next.swap = { m.swap with slots := slots }
        | none => next.swap = m.swap)
      fun _ _ => False := by
  apply ends_withLock_of_wait hwait
  rw [ends_bind, ends_get]
  cases hgiven : (m.locked .swap).swap.allocate? with
  | none => exact ⟨(Saving.refl (m.locked .swap)).of_locked, rfl⟩
  | some given =>
      rcases Option.map_eq_some_iff.mp hgiven with ⟨⟨s, slots⟩, hslots, rfl⟩
      rw [ends_bind, ends_setSwap, ends_pure]
      have hsaving : (m.locked .swap).Saving
          { m.locked .swap with swap := { m.swap with slots := slots } } := by
        refine ⟨⟨rfl, rfl, rfl, rfl, ?_⟩, rfl⟩
        intro size hfits
        rcases Swap.Bitmap.allocate?_eq_some hfits.slots hslots with ⟨-, -, htotal, hform, -⟩
        exact hfits.withSlots hform htotal
      exact ⟨hsaving.of_locked, slots, hslots, rfl⟩

theorem saving_releaseSlot (hwait : Lock.swap ∈ m.held → fatal (.selfDeadlock .swap))
    {slots : Swap.Bitmap} (hrelease : m.swap.slots.release s = .ok slots) :
    Ends (releaseSlot s) m fatal
      (fun _ next => m.Saving next ∧ next.swap = { m.swap with slots := slots })
      fun _ _ => False := by
  have harea : (m.locked .swap).swap.release s = .ok { m.swap with slots := slots } := by
    show (m.swap.slots.release s).map _ = _
    rw [hrelease]
    rfl
  have hfits : ∀ size, m.swap.Fits size → Swap.Area.Fits { m.swap with slots := slots } size := by
    intro size hfits
    have hused := Swap.Bitmap.isUsed_of_release hrelease
    rcases Swap.Bitmap.release_of_isUsed hfits.slots hused with ⟨slots', hslots', htotal, hform, -⟩
    rw [hrelease] at hslots'
    cases hslots'
    exact hfits.withSlots hform htotal
  have hsaving : (m.locked .swap).Saving
      { m.locked .swap with swap := { m.swap with slots := slots } } :=
    ⟨⟨rfl, rfl, rfl, rfl, hfits⟩, rfl⟩
  apply ends_withLock_of_wait hwait
  rw [ends_bind, ends_get, ends_bind, harea, ends_ofAbort_ok, ends_setSwap]
  exact ⟨hsaving.of_locked, rfl⟩

theorem saving_writeSlot (hlength : ∀ disk, m.swap.disk = some disk →
      bytes.length ≠ m.swap.slotBytes → fatal .disagreement) :
    Ends (writeSlot s bytes) m fatal
      (fun _ next => m.Saving next ∧ next.swap = (m.swap.write s bytes).2)
      fun _ next => m.Saving next ∧ next.swap = (m.swap.write s bytes).2 := by
  have hsaving : m.Saving { m with swap := (m.swap.write s bytes).2 } :=
    ⟨⟨rfl, rfl, rfl, rfl, fun _ hfits => hfits.afterWrite s bytes⟩, rfl⟩
  unfold writeSlot
  simp only [ends_bind, ends_get, ends_setSwap]
  cases hresult : (m.swap.write s bytes).1 with
  | ok done => exact ⟨hsaving, rfl⟩
  | error failure =>
      cases failure with
      | noDevice => exact ⟨hsaving, rfl⟩
      | refused sector => exact ⟨hsaving.recorded, rfl⟩
      | wrongLength =>
          rcases Swap.Area.write_eq_wrongLength hresult with ⟨disk, hdisk, hwrong⟩
          exact hlength disk hdisk hwrong

theorem saving_saveToSlot (hwait : Lock.swap ∈ m.held → fatal (.selfDeadlock .swap))
    (hlength : ∀ disk, m.swap.disk = some disk →
      bytes.length ≠ m.swap.slotBytes → fatal .disagreement) :
    Ends (saveToSlot bytes) m fatal (fun _ next => m.Saving next)
      fun _ next => m.Saving next ∧ m.swap.SameSlots next.swap := by
  unfold saveToSlot
  rw [ends_bind]
  refine (saving_allocateSlot hwait).mono ?_ fun _ _ hfalse => hfalse.elim
  intro given taken htaken
  rcases htaken with ⟨hsaving, hgiven⟩
  cases given with
  | none =>
      have hsame : taken.swap = m.swap := hgiven
      rw [orFail, ends_bind, ends_fail, hsame]
      exact ⟨hsaving, .refl m.swap⟩
  | some s =>
      rcases hgiven with ⟨slots, hslots, harea⟩
      have hlength' : ∀ disk, taken.swap.disk = some disk →
          bytes.length ≠ taken.swap.slotBytes → fatal .disagreement := by
        rw [harea]
        exact hlength
      rw [ends_bind, ends_orFail_some, ends_bind, ends_attempt]
      refine (saving_writeSlot hlength').mono ?_ ?_
      · intro _ next hnext
        exact hsaving.trans hnext.1
      · intro e next hnext
        rcases hnext with ⟨hwriting, hwritten⟩
        rcases taken.swap.write_frame s bytes with ⟨hmarks, hothers⟩
        rcases Swap.Bitmap.release_of_allocate? hslots with ⟨back, hback, hused, hisUsed⟩
        have hrelease : next.swap.slots.release s = .ok back := by
          rw [hwritten, hmarks, harea]
          exact hback
        have hwait' : Lock.swap ∈ next.held → fatal (.selfDeadlock .swap) := by
          rw [hwriting.held, hsaving.held]
          exact hwait
        rw [ends_bind]
        refine (saving_releaseSlot hwait' hrelease).mono ?_ fun _ _ hfalse => hfalse.elim
        intro _ last hlast
        rcases hlast with ⟨hreleasing, hlast⟩
        refine ⟨(hsaving.trans hwriting).trans hreleasing, ?_⟩
        have hslots' : last.swap.slots = back := by
          rw [hlast]
        constructor
        · intro t
          rw [hslots']
          exact hisUsed t
        · rw [hslots']
          exact hused
        · intro t ht
          have hfree := (Swap.Bitmap.allocate?_eq_mark hslots).2.2.1
          have hne : t ≠ s := by
            intro heq
            rw [heq, hfree] at ht
            contradiction
          have hthere : last.swap.slotContent t = next.swap.slotContent t := by
            rw [hlast]
            rfl
          rw [hthere, hwritten, hothers t hne, harea]
          rfl

/-! ## Files -/

theorem saving_writeBack {owner : Owner} {x : FileExtent}
    (hextent : bytes.length < x.readBytes.toNat →
      fatal (.sliceTooLong x.readBytes.toNat bytes.length)) :
    Ends (writeBack owner x bytes) m fatal
      (fun _ next => m.Saving next ∧ next.swap = m.swap)
      fun _ next => m.Saving next ∧ next.swap = m.swap := by
  have hwritten : ∀ file write, m.Saving (Machine.recorded
      { m with files := m.files.set x.file file } (.wroteBack write)) :=
    fun _ _ => ⟨⟨rfl, rfl, rfl, rfl, fun _ hfits => hfits⟩, rfl⟩
  unfold writeBack
  dsimp only
  split
  · exact ⟨.refl m, rfl⟩
  · rw [ends_bind, ends_ensure]
    split
    · unfold writeFile
      simp only [ends_bind, ends_get, ends_setFile, ends_record, ends_pure]
      cases ((m.file x.file).write x.offset.toNat (bytes.take x.readBytes.toNat)).1 with
      | none => exact ⟨hwritten _ _, rfl⟩
      | some accepted =>
          rw [ends_orFail_some]
          split
          · exact ⟨hwritten _ _, rfl⟩
          · exact ⟨(hwritten _ _).recorded, rfl⟩
    · rename_i hlong
      rw [decide_eq_true_eq, Nat.not_le] at hlong
      exact hextent hlong

/-! ## Pages -/

/-- The aborts that a page in the given state risks when the given bytes are saved. -/
structure SaveRisks (m : Machine) (fatal : Abort → Prop) (state : PageState) (bytes : Bytes) :
    Prop where
  wait : Lock.swap ∈ m.held → fatal (.selfDeadlock .swap)
  length : ∀ disk, m.swap.disk = some disk → bytes.length ≠ m.swap.slotBytes →
    fatal .disagreement
  extent : ∀ x, state = .file x → bytes.length < x.readBytes.toNat →
    fatal (.sliceTooLong x.readBytes.toNat bytes.length)

theorem saving_savePage {owner : Owner} {state : PageState} {dirty : Bool}
    (hrisks : m.SaveRisks fatal state bytes) :
    Ends (savePage owner state bytes dirty) m fatal (fun _ next => m.Saving next)
      fun _ next => m.Saving next ∧ m.swap.SameSlots next.swap := by
  cases state with
  | uninit origin => exact ⟨.refl m, .refl m.swap⟩
  | anon slot =>
      unfold savePage
      rw [ends_bind]
      exact saving_saveToSlot hrisks.wait hrisks.length
  | file x =>
      unfold savePage
      rw [ends_bind, ends_when]
      split
      · refine (saving_writeBack (hrisks.extent x rfl)).mono ?_ ?_
        · intro _ next hnext
          exact hnext.1
        · intro _ next hnext
          rw [hnext.2]
          exact ⟨hnext.1, .refl m.swap⟩
      · exact .refl m

/-! ## Parting with a frame -/

/-- At one address an accessed bit may be gone; nothing else happened to the pages, their mappings
and the frames. -/
structure Spared (m : Machine) (p : Nat) (va : Vaddr) (n : Machine) : Prop
    extends SameFrames m n where
  pages : n.page? = m.page?
  entries : n.mapped? = setAt m.mapped? p va ((m.mapped? p va).map PageEntry.unaccessed)

/-- A page lost its frame and its mapping; nothing else happened to the pages, their mappings and
the frames. -/
structure Parted (m : Machine) (owner : Owner) (page : Page) (n : Machine) : Prop
    extends SameFrames m n where
  pages : ∃ state, n.page? = setAt m.page? owner.process owner.va
    (some { page with state := state, frame := none })
  entries : n.mapped? = setAt m.mapped? page.mmu page.va none

theorem ends_restoreMapping_of_accepted {owner : Owner} {page : Page} {f : Nat} {dirty : Bool}
    (haccepted : ((m.process page.mmu).mmu.map page.va f page.writable).1 = .ok true) :
    Ends (restoreMapping owner page f dirty) m fatal
      (fun _ next => next = m.modifyMmu page.mmu fun _ =>
        (m.process page.mmu).mmu.remapped page.va f page.writable dirty)
      fun _ _ => False := by
  unfold restoreMapping mapPage
  simp only [ends_bind, ends_get, ends_modify, haccepted, ends_ofAbort_ok, if_true]
  cases dirty with
  | true => exact modifyMmu_modifyMmu m page.mmu _ _
  | false => exact rfl

theorem spared_restoreMapping {l : Machine} {owner : Owner} {page : Page} {f : Nat}
    (hsaving : (l.unmapped page.mmu page.va).Saving m)
    (hlink : l.link? page.mmu page.va = some (f, page.writable))
    (hreadmits : (l.process page.mmu).mmu.readmits page.va f page.writable = true) :
    Ends (restoreMapping owner page f ((l.process page.mmu).mmu.unmap page.va).1) m fatal
      (fun _ next => l.Spared page.mmu page.va next ∧ next.swap = m.swap)
      fun _ _ => False := by
  rcases link?_eq_some_iff.mp hlink with ⟨e, hentry, rfl, hwritable⟩
  have hp := lt_of_mapped?_eq_some hentry
  have hunits : ∀ q, (m.process q).mmu =
      if q = page.mmu then ((l.process page.mmu).mmu.unmap page.va).2 else (l.process q).mmu := by
    intro q
    rw [hsaving.process, mmu_unmapped hp]
  have hp' : page.mmu < m.processes.length := by
    rw [hsaving.processes]
    exact Nat.lt_of_lt_of_eq hp (length_modifyProcess l page.mmu _).symm
  have hdirty : ((l.process page.mmu).mmu.unmap page.va).1 = e.dirty := by
    show (l.mapped? page.mmu page.va).any PageEntry.dirty = e.dirty
    rw [hentry]
    rfl
  have hunit := (hunits page.mmu).trans (if_pos rfl)
  rw [hdirty]
  refine (ends_restoreMapping_of_accepted ?_).mono ?_ fun _ _ hfalse => hfalse
  · rw [hunit]
    exact Mmu.map_unmap_of_readmits hreadmits
  · rintro _ next rfl
    rw [hunit]
    refine ⟨⟨?_, ?_, ?_⟩, rfl⟩
    · exact (((SameFrames.refl l).modifyProcess page.mmu _).trans
        hsaving.toSameFrames).modifyProcess page.mmu _
    · rw [page?_modifyMmu_eq, hsaving.page?, page?_unmapped]
    · have hlast : ∀ q, ((m.modifyMmu page.mmu fun _ =>
          ((l.process page.mmu).mmu.unmap page.va).2.remapped page.va e.frame page.writable
            e.dirty).process q).mmu =
          if q = page.mmu then
            ((l.process page.mmu).mmu.unmap page.va).2.remapped page.va e.frame page.writable
              e.dirty
          else (l.process q).mmu := by
        intro q
        rw [mmu_modifyMmu hp', hunits q]
        split <;> rfl
      rw [hentry]
      apply mapped?_eq_setAt hlast
      intro wa
      rw [← hwritable] at hreadmits ⊢
      exact Mmu.mapped?_restored hreadmits

/-- Either a page gives up its frame, or the page, its mapping, its frame and the used slots are as
before. -/
theorem saving_pageOut {owner : Owner} {page : Page} {f : Nat}
    (hpage : m.page? owner.process owner.va = some page) (hframe : page.frame = some f)
    (hlink : m.link? page.mmu page.va = some (f, page.writable))
    (hreadmits : (m.process page.mmu).mmu.readmits page.va f page.writable = true)
    (hrisks : m.SaveRisks fatal page.state ((m.pool.content f).take page.bytes)) :
    Ends (pageOut owner page) m fatal
      (fun taken next => taken = f ∧ m.Parted owner page next)
      fun _ next => m.Spared page.mmu page.va next ∧ m.swap.SameSlots next.swap := by
  have hp : page.mmu < m.processes.length := by
    rcases link?_eq_some_iff.mp hlink with ⟨e, hentry, -⟩
    exact lt_of_mapped?_eq_some hentry
  have hrisks' : (m.unmapped page.mmu page.va).SaveRisks fatal page.state
      ((m.pool.content f).take page.bytes) := { hrisks with }
  have hunmapped : m.SameFrames (m.unmapped page.mmu page.va) :=
    (SameFrames.refl m).modifyProcess page.mmu _
  unfold pageOut
  rw [hframe, ends_bind, ends_orFail_some, ends_bind, ends_unmapPage, ends_bind, ends_readFrame,
    ends_bind, ends_attempt]
  refine (saving_savePage hrisks').mono ?_ ?_
  · intro saved next hsaving
    have hpages : next.page? = m.page? := by
      rw [hsaving.page?, page?_unmapped]
    rw [ends_bind, ends_updatePage, ends_bind, ends_record, ends_pure]
    refine ⟨rfl, ?_, ⟨saved, ?_⟩, ?_⟩
    · exact ((hunmapped.trans hsaving.toSameFrames).modifyProcess owner.process _).recorded
    · rw [← hpages] at hpage ⊢
      exact page?_modifyPage_eq hpage
    · funext q wa
      refine (mapped?_modifyPage next owner.process q owner.va wa _).trans ?_
      rw [hsaving.mapped?, mapped?_unmapped hp]
  · intro e next hnext
    rw [ends_bind]
    refine (spared_restoreMapping hnext.1 hlink hreadmits).mono ?_ fun _ _ hfalse => hfalse.elim
    intro _ last hlast
    rw [ends_fail, hlast.2]
    exact ⟨hlast.1, hnext.2⟩

/-! ## A failed save -/

/-- When a resident page that is mapped cannot be saved, for whatever reason, every page is as it
was, with its kind, its frame and its slot, and so are the bytes of all frames. The page is mapped
to its frame as before, with its dirty bit; no other mapping was touched; and the same slots are in
use, with the same content. -/
theorem failed_save_leaves_page {m next : Machine} {owner : Owner} {page : Page} {e : PageEntry}
    {failure : PagingError} (hpage : m.page? owner.process owner.va = some page)
    (hframe : page.frame = some e.frame) (hentry : m.mapped? page.mmu page.va = some e)
    (hwritable : e.writable = page.writable)
    (hreadmits : (m.process page.mmu).mmu.readmits page.va e.frame page.writable = true)
    (hfailed : pageOut owner page m = .error (.failed failure) next) :
    next.page? = m.page? ∧ next.pool = m.pool ∧
      next.mapped? page.mmu page.va = some { e with accessed := false } ∧
      (∀ q wa, ¬(q = page.mmu ∧ wa = page.va) → next.mapped? q wa = m.mapped? q wa) ∧
      (∀ s, next.swap.slots.isUsed s = m.swap.slots.isUsed s) ∧
      ∀ s, m.swap.slots.isUsed s = true → next.swap.slotContent s = m.swap.slotContent s := by
  have hlink : m.link? page.mmu page.va = some (e.frame, page.writable) :=
    link?_eq_some_iff.mpr ⟨e, hentry, rfl, hwritable⟩
  have hrisks : m.SaveRisks Anyhow page.state ((m.pool.content e.frame).take page.bytes) :=
    ⟨fun _ => trivial, fun _ _ _ => trivial, fun _ _ _ => trivial⟩
  rcases (saving_pageOut hpage hframe hlink hreadmits hrisks).of_failed hfailed with
    ⟨hspared, hslots⟩
  refine ⟨hspared.pages, hspared.pool, ?_, ?_, hslots.isUsed, hslots.content⟩
  · rw [hspared.entries, setAt_self, hentry]
    rfl
  · intro q wa hne
    rw [hspared.entries, setAt_of_ne hne]

def unsavable (m : Machine) (owner : Owner) (page : Page) : Bool :=
  match pageOut owner page m with
  | .error (.failed _) _ => true
  | _ => false

theorem exists_of_unsavable {m : Machine} {owner : Owner} {page : Page}
    (h : m.unsavable owner page = true) :
    ∃ failure next, pageOut owner page m = .error (.failed failure) next := by
  unfold unsavable at h
  split at h
  · rename_i failure next hend
    exact ⟨failure, next, hend⟩
  · contradiction

def wornDisk : Swap.Disk :=
  { Swap.Disk.blank 8 8 with writing := .budget 1 }

/-- The first half of a page goes to a slot, the second one is refused. -/
theorem half_saved_page_left : ∃ (m next : Machine) (owner : Owner) (page : Page) (e : PageEntry)
    (failure : PagingError), m.Reachable ∧ m.page? owner.process owner.va = some page ∧
      pageOut owner page m = .error (.failed failure) next ∧
      m.mapped? page.mmu page.va = some e ∧ e.dirty = true ∧
      next.page? owner.process owner.va = some page ∧
      next.mapped? page.mmu page.va = some { e with accessed := false } ∧
      ∀ s, next.swap.slots.isUsed s = m.swap.slots.isUsed s := by
  have hrun := Reachable.of_run smallConfig (smallHardware (some wornDisk) [])
    [.start (.always true), .allocate 0 .anon 0x1000 true none, .claim 0 0x1000,
      .write 0 0x1000 [7]]
    (fun m => (m.page? 0 0x1000).any fun page => (m.mapped? page.mmu page.va).any fun e =>
      page.frame == some e.frame && e.writable == page.writable && e.dirty &&
        (m.process page.mmu).mmu.readmits page.va e.frame page.writable &&
        m.unsavable ⟨0, 0x1000, page.id⟩ page) (by decide +kernel)
  rcases hrun with ⟨m, hm, hcheck⟩
  rcases (Option.any_eq_true ..).mp hcheck with ⟨page, hpage, hcheck⟩
  rcases (Option.any_eq_true ..).mp hcheck with ⟨e, hentry, hcheck⟩
  simp only [Bool.and_eq_true, beq_iff_eq] at hcheck
  rcases hcheck with ⟨⟨⟨⟨hframe, hwritable⟩, hdirty⟩, hreadmits⟩, hunsavable⟩
  rcases exists_of_unsavable hunsavable with ⟨failure, next, hfailed⟩
  rcases failed_save_leaves_page hpage hframe hentry hwritable hreadmits hfailed with
    ⟨hpages, -, hrestored, -, hslots, -⟩
  refine ⟨m, next, _, page, e, failure, hm, hpage, hfailed, hentry, hdirty, ?_, hrestored, hslots⟩
  rw [hpages]
  exact hpage

end Machine
end DemandPaging
