import DemandPaging.Machine.Operation
import DemandPaging.Proofs.LockOrder

/-!
# Locks of operations

Every operation keeps the order of locks. The lemmas follow the text of the routines, from those
that take no lock over those that lock the swap area and the ring to those that lock pages. A
routine below the ring may be started with the swap area free alone; one that locks a page needs
the ring free as well.
-/

namespace DemandPaging
namespace Machine

open Routine

variable {free : List Lock}

/-! ## Parts of the machine -/

theorem ordered_updatePage (p : Nat) (va : Vaddr) (f : Page → Page) :
    Ordered free (updatePage p va f) :=
  .change (fun _ => rfl) fun _ => rfl

theorem ordered_mapPage (p : Nat) (va : Vaddr) (frame : Nat) (writable : Bool) :
    Ordered free (mapPage p va frame writable) :=
  .bind .get fun _ => .bind (.change (fun _ => rfl) fun _ => rfl) fun _ => .ofAbort _

theorem ordered_unmapPage (p : Nat) (va : Vaddr) : Ordered free (unmapPage p va) :=
  .bind .get fun _ => .bind (.change (fun _ => rfl) fun _ => rfl) fun _ => .pure _

theorem ordered_setDirty (p : Nat) (va : Vaddr) (dirty : Bool) :
    Ordered free (setDirty p va dirty) :=
  .change (fun _ => rfl) fun _ => rfl

theorem ordered_setAccessed (p : Nat) (va : Vaddr) (accessed : Bool) :
    Ordered free (setAccessed p va accessed) :=
  .change (fun _ => rfl) fun _ => rfl

theorem ordered_takeFromPool : Ordered free takeFromPool :=
  .bind .get fun _ => .bind (.change (fun _ => rfl) fun _ => rfl) fun _ => .pure _

theorem ordered_returnToPool (frame : Nat) : Ordered free (returnToPool frame) :=
  .bind .get fun _ => .bind (.ofAbort _) fun _ => .change (fun _ => rfl) fun _ => rfl

theorem ordered_writeFrame (frame start : Nat) (data : Bytes) :
    Ordered free (writeFrame frame start data) :=
  .change (fun _ => rfl) fun _ => rfl

theorem ordered_readFrame (frame length : Nat) : Ordered free (readFrame frame length) :=
  .bind .get fun _ => .pure _

theorem ordered_modifyRing (f : FrameRing → FrameRing) : Ordered free (modifyRing f) :=
  .change (fun _ => rfl) fun _ => rfl

theorem ordered_setSwap (area : Swap.Area) : Ordered free (setSwap area) :=
  .change (fun _ => rfl) fun _ => rfl

theorem ordered_setFile (f : Nat) (file : BackingFile) : Ordered free (setFile f file) :=
  .change (fun _ => rfl) fun _ => rfl

theorem ordered_allocateSlot : Ordered free allocateSlot := by
  refine .withSwapLock (.bind .get fun m => ?_)
  cases m.swap.allocate? with
  | none => exact .pure none
  | some given => exact .bind (ordered_setSwap _) fun _ => .pure _

theorem ordered_releaseSlot (slot : Nat) : Ordered free (releaseSlot slot) :=
  .withSwapLock (.bind .get fun _ => .bind (.ofAbort _) fun area => ordered_setSwap area)

theorem ordered_writeSlot (slot : Nat) (page : Bytes) : Ordered free (writeSlot slot page) := by
  refine .bind .get fun m => .bind (ordered_setSwap _) fun _ => ?_
  split
  · exact .pure _
  · exact .bind (.report? _) fun _ => .throw _

theorem ordered_readSlot (slot frame length : Nat) :
    Ordered free (readSlot slot frame length) := by
  refine .bind (ordered_readFrame _ _) fun buffer => .bind .get fun m => ?_
  refine .bind (ordered_setSwap _) fun _ => .bind (ordered_writeFrame _ _ _) fun _ => ?_
  split
  · exact .pure _
  · exact .bind (.report? _) fun _ => .throw _

theorem ordered_readFile (f offset count : Nat) : Ordered free (readFile f offset count) :=
  .bind .get fun _ => .bind (ordered_setFile _ _) fun _ => .pure _

theorem ordered_writeFile (page : Owner) (f : Nat) (offset : UInt64) (data : Bytes) :
    Ordered free (writeFile page f offset data) :=
  .bind .get fun _ => .bind (ordered_setFile _ _) fun _ => .bind (.record rfl) fun _ => .pure _

/-! ## Page content -/

theorem ordered_readExtent (extent : FileExtent) (frame length : Nat) :
    Ordered free (readExtent extent frame length) := by
  refine .bind (.require _ _) fun _ => .bind (ordered_readFile _ _ _) fun answer => ?_
  refine .bind (.orFail _ answer) fun data => .bind (ordered_writeFrame _ _ _) fun _ => ?_
  split
  · exact ordered_writeFrame _ _ _
  · exact .refuse _ _

theorem ordered_writeBack (page : Owner) (extent : FileExtent) (bytes : Bytes) :
    Ordered free (writeBack page extent bytes) := by
  unfold writeBack
  dsimp only
  split
  · exact .pure ()
  · refine .bind (.ensure _ _) fun _ => .bind (ordered_writeFile _ _ _ _) fun answer => ?_
    refine .bind (.orFail _ answer) fun accepted => ?_
    split
    · exact .pure ()
    · exact .refuse _ _

theorem ordered_runCustom (loader : CustomLoader) (frame length : Nat) :
    Ordered free (runCustom loader frame length) := by
  refine .bind (ordered_writeFrame _ _ _) fun _ => .bind (ordered_readFrame _ _) fun buffer => ?_
  refine .bind .get fun m => .bind (.change (fun _ => rfl) fun _ => rfl) fun _ => ?_
  refine .bind (ordered_writeFrame _ _ _) fun _ => ?_
  split
  · exact .throw _
  · exact .pure ()

theorem ordered_loadOrigin (origin : Origin) (frame length : Nat) :
    Ordered free (loadOrigin origin frame length) := by
  unfold loadOrigin
  split
  · exact ordered_writeFrame _ _ _
  · exact ordered_readExtent _ _ _
  · exact ordered_runCustom _ _ _
  · exact ordered_readExtent _ _ _

theorem ordered_loadState (state : PageState) (frame length : Nat) :
    Ordered free (loadState state frame length) := by
  unfold loadState
  split
  · exact .bind (ordered_loadOrigin _ _ _) fun _ => .pure _
  · exact .bind (ordered_readSlot _ _ _) fun _ => .bind (ordered_releaseSlot _) fun _ => .pure _
  · exact .bind (ordered_writeFrame _ _ _) fun _ => .pure _
  · exact .bind (ordered_readExtent _ _ _) fun _ => .pure _

theorem ordered_loadPage (p : Nat) (page : Page) (frame : Nat) :
    Ordered free (loadPage p page frame) :=
  .bind (ordered_loadState _ _ _) fun _ => .bind (ordered_updatePage _ _ _) fun _ => .record rfl

theorem ordered_saveToSlot (bytes : Bytes) : Ordered free (saveToSlot bytes) := by
  refine .bind ordered_allocateSlot fun given => .bind (.orFail _ given) fun slot => ?_
  refine .bind (.attempt (ordered_writeSlot slot bytes)) fun result => ?_
  cases result with
  | ok done => exact .pure slot
  | error e => exact .bind (ordered_releaseSlot slot) fun _ => .throw _

theorem ordered_savePage (owner : Owner) (state : PageState) (bytes : Bytes) (dirty : Bool) :
    Ordered free (savePage owner state bytes dirty) := by
  cases state with
  | uninit origin => exact .throw _
  | anon slot => exact .bind (ordered_saveToSlot bytes) fun _ => .pure _
  | file extent => exact .bind (.when _ (ordered_writeBack _ _ _)) fun _ => .pure _

/-! ## Below the ring -/

theorem ordered_secondChance (page : Page) : Ordered free (secondChance page) :=
  .bind .get fun _ => .bind (.when _ (ordered_setAccessed _ _ _)) fun _ => .pure _

theorem ordered_restoreMapping (owner : Owner) (page : Page) (frame : Nat) (dirty : Bool) :
    Ordered free (restoreMapping owner page frame dirty) := by
  refine .bind (ordered_mapPage _ _ _ _) fun accepted => ?_
  cases accepted with
  | true => exact .when _ (ordered_setDirty _ _ _)
  | false => exact .record rfl

theorem ordered_pageOut (owner : Owner) (page : Page) : Ordered free (pageOut owner page) := by
  refine .bind (.orFail _ page.frame) fun frame => .bind (ordered_unmapPage _ _) fun dirty => ?_
  refine .bind (ordered_readFrame _ _) fun bytes => ?_
  refine .bind (.attempt (ordered_savePage _ _ _ _)) fun result => ?_
  cases result with
  | ok state =>
      exact .bind (ordered_updatePage _ _ _) fun _ => .bind (.record rfl) fun _ => .pure _
  | error e => exact .bind (ordered_restoreMapping _ _ _ _) fun _ => .throw _

theorem ordered_evictPage (place : Nat) (entry : RingEntry) (page : Page) :
    Ordered free (evictPage place entry page) := by
  refine .bind (.attempt (ordered_pageOut _ _)) fun result => ?_
  cases result with
  | ok frame =>
      refine .bind (.ensure _ _) fun _ => .bind (ordered_modifyRing _) fun _ => ?_
      exact .bind (.report _) fun _ => .pure _
  | error e => exact .bind (.report _) fun _ => .pure _

theorem ordered_evictUnlessAccessed (place : Nat) (entry : RingEntry) (page : Page) :
    Ordered free (evictUnlessAccessed place entry page) := by
  refine .bind (ordered_secondChance page) fun accessed => ?_
  cases accessed with
  | true => exact .pure none
  | false => exact ordered_evictPage place entry page

/-- The lock of the candidate is tried, and under it only the swap area is locked. -/
theorem ordered_evictEntry (hswap : .swap ∈ free) (place : Nat) (entry : RingEntry) :
    Ordered free (evictEntry place entry) := by
  unfold evictEntry
  split
  · exact .pure none
  · refine .bind .get fun m => ?_
    cases m.ownedPage? entry.owner with
    | none => exact .bind (ordered_modifyRing _) fun _ => .pure _
    | some page =>
        exact .withFreeLock hswap (ordered_evictUnlessAccessed place entry page)

theorem ordered_sweep (hswap : .swap ∈ free) (visits : Nat) : Ordered free (sweep visits) := by
  induction visits with
  | zero => exact .throw _
  | succ visits ih =>
      refine .bind .get fun m => ?_
      dsimp only
      split
      · exact .throw _
      · refine .bind (ordered_modifyRing _) fun _ => ?_
        refine .bind (ordered_evictEntry hswap _ _) fun taken => ?_
        cases taken with
        | some frame => exact .pure frame
        | none => exact ih

theorem ordered_obtainFrame (hswap : .swap ∈ free) : Ordered free obtainFrame := by
  refine .bind ordered_takeFromPool fun given => ?_
  cases given with
  | some frame => exact .pure frame
  | none => exact .bind .get fun _ => ordered_sweep hswap _

theorem ordered_allocateFrame (hswap : .swap ∈ free) (owner : Owner) :
    Ordered free (allocateFrame owner) :=
  .withRingLock hswap (.bind (ordered_obtainFrame List.mem_cons_self) fun _ =>
    .bind (ordered_modifyRing _) fun _ => .pure _)

theorem ordered_unpinFrame (hswap : .swap ∈ free) (frame : Nat) :
    Ordered free (unpinFrame frame) :=
  .withRingLock hswap (ordered_modifyRing _)

theorem ordered_unlistFrame (frame : Nat) : Ordered free (unlistFrame frame) := by
  refine .bind .get fun m => ?_
  cases m.ring.position? frame with
  | some place => exact ordered_modifyRing _
  | none => exact .report _

theorem ordered_freeFrame (hswap : .swap ∈ free) (frame : Nat) :
    Ordered free (freeFrame frame) :=
  .bind (.withRingLock hswap (ordered_unlistFrame frame)) fun _ => ordered_returnToPool frame

/-! ## Claims and releases -/

theorem ordered_attachFrame (p : Nat) (page : Page) (frame : Nat) :
    Ordered free (attachFrame p page frame) :=
  .bind .get fun _ => .bind (.ensure _ _) fun _ => ordered_updatePage _ _ _

theorem ordered_mapAndLoad (p : Nat) (page : Page) (frame : Nat) :
    Ordered free (mapAndLoad p page frame) :=
  .bind (ordered_mapPage _ _ _ _) fun _ => .bind (.require _ _) fun _ => ordered_loadPage _ _ _

theorem ordered_undoClaim (hswap : .swap ∈ free) (p : Nat) (page : Page) (frame : Nat) :
    Ordered free (undoClaim p page frame) :=
  .bind (ordered_unmapPage _ _) fun _ => .bind (ordered_updatePage _ _ _) fun _ =>
    ordered_freeFrame hswap frame

theorem ordered_makeResident (hswap : .swap ∈ free) (p : Nat) (page : Page) :
    Ordered free (makeResident p page) := by
  refine .bind (ordered_allocateFrame hswap _) fun frame => ?_
  refine .bind (ordered_attachFrame _ _ _) fun _ => ?_
  refine .bind (.attempt (ordered_mapAndLoad _ _ _)) fun result => ?_
  cases result with
  | ok done => exact .bind (ordered_unpinFrame hswap frame) fun _ => .report _
  | error e => exact .bind (ordered_undoClaim hswap _ _ _) fun _ => .refuse _ _

theorem ordered_claim (p : Nat) (va : Vaddr) : Ordered [.ring, .swap] (claim p va) :=
  .withPageLock (.bind .get fun _ => .bind (.orFail _ _) fun page =>
    .when _ (ordered_makeResident (by simp) p page))

theorem ordered_claimPage (p : Nat) (va : Vaddr) : Ordered [.ring, .swap] (claimPage p va) :=
  .bind .get fun _ => .bind (.orFail _ _) fun page => ordered_claim p page.va

theorem ordered_saveChanges (p : Nat) (page : Page) (extent : FileExtent) (frame : Nat) :
    Ordered free (saveChanges p page extent frame) := by
  refine .bind (ordered_readFrame _ _) fun bytes => ?_
  refine .bind (.attempt (ordered_writeBack _ _ _)) fun result => ?_
  cases result with
  | ok done => exact .pure _
  | error e => exact .report _

theorem ordered_releaseBacking (p : Nat) (page : Page) (dirty : Bool) :
    Ordered free (releaseBacking p page dirty) := by
  unfold releaseBacking
  split
  · exact ordered_releaseSlot _
  · exact .when _ (ordered_saveChanges _ _ _ _)
  · exact .pure ()

theorem ordered_unmapResident (p : Nat) (page : Page) : Ordered free (unmapResident p page) := by
  unfold unmapResident
  split
  · exact ordered_unmapPage _ _
  · exact .pure false

theorem ordered_releasePage (p : Nat) (page : Page) :
    Ordered [.ring, .swap] (releasePage p page) := by
  refine .withPageLock (.bind (ordered_unmapResident _ _) fun dirty => ?_)
  refine .bind (ordered_releaseBacking _ _ _) fun _ => ?_
  cases page.frame with
  | some frame =>
      refine .bind (ordered_readFrame _ _) fun _ => .bind (.record rfl) fun _ => ?_
      exact ordered_freeFrame (by simp) frame
  | none => exact .pure ()

/-! ## Registered pages -/

theorem ordered_register (p : Nat) (page : Page) : Ordered free (register p page) := by
  intro m _
  unfold register
  simp only [ends_bind, ends_get, ends_require, ends_set, ends_pure]
  split
  · split
    · split
      · exact .of_same rfl rfl
      · exact .refl m
    · exact .refl m
  · exact .refl m

theorem ordered_allocatePage (p : Nat) (type : PageClass) (va : Vaddr) (writable : Bool)
    (loader : Option Loader) : Ordered free (allocatePage p type va writable loader) :=
  .bind .get fun _ => .bind (.ofStop _) fun page => ordered_register p page

theorem ordered_takePage (p : Nat) (va : Vaddr) : Ordered free (takePage p va) :=
  .bind .get fun _ => .bind (.change (fun _ => rfl) fun _ => rfl) fun _ => .pure _

theorem ordered_dropPage (p : Nat) (va : Vaddr) : Ordered [.ring, .swap] (dropPage p va) := by
  refine .bind (ordered_takePage p va) fun taken => ?_
  cases taken with
  | some page => exact ordered_releasePage p page
  | none => exact .pure ()

theorem ordered_dropPages (p : Nat) (vas : List Vaddr) :
    Ordered [.ring, .swap] (dropPages p vas) := by
  induction vas with
  | nil => exact .pure ()
  | cons va rest ih => exact .bind (ordered_dropPage p va) fun _ => ih

theorem ordered_mappingOf (p : Nat) (page : Page) : Ordered [.ring, .swap] (mappingOf p page) :=
  .withPageLock (.pure _)

theorem ordered_removePage (p : Nat) (va : Vaddr) : Ordered [.ring, .swap] (removePage p va) := by
  refine .bind .get fun m => .bind (ordered_takePage p _) fun taken => ?_
  refine .bind (.orFail _ taken) fun page => .bind (ordered_mappingOf p page) fun base => ?_
  cases base with
  | some base =>
      exact .bind (.change (fun _ => rfl) fun _ => rfl) fun _ => ordered_releasePage p page
  | none => exact ordered_releasePage p page

theorem ordered_classAt (p : Nat) (va : Vaddr) : Ordered [.ring, .swap] (classAt p va) := by
  refine .bind .get fun m => ?_
  cases m.lookup p va with
  | some page => exact .withPageLock (.pure _)
  | none => exact .pure none

theorem ordered_releasePages (p : Nat) (pages : List Page) :
    Ordered [.ring, .swap] (releasePages p pages) := by
  induction pages with
  | nil => exact .pure ()
  | cons page rest ih => exact .bind (ordered_releasePage p page) fun _ => ih

theorem ordered_teardown (p : Nat) : Ordered [.ring, .swap] (teardown p) := by
  refine .bind .get fun m => .bind (.change (fun _ => rfl) fun _ => rfl) fun _ => ?_
  refine .bind (ordered_releasePages p _) fun _ => ?_
  exact .bind (.change (fun _ => rfl) fun _ => rfl) fun _ => .when _ (.report _)

theorem ordered_endProcess (p : Nat) : Ordered [.ring, .swap] (endProcess p) :=
  .bind (ordered_teardown p) fun _ => .change (fun _ => rfl) fun _ => rfl

theorem ordered_startProcess (accepting : Schedule Bool) :
    Ordered free (startProcess accepting) :=
  fun _ _ => .of_same rfl rfl

/-! ## File mappings -/

theorem ordered_registerMapped (p : Nat) (base : Vaddr) (writable : Bool) (f : Nat)
    (offset : UInt64) (count index : Nat) (va : Vaddr) (remaining : UInt64) :
    Ordered free (registerMapped p base writable f offset count index va remaining) := by
  induction count generalizing index va remaining with
  | zero => exact .pure _
  | succ count ih =>
      refine .bind .get fun m => .bind (.ofAbort _) fun extent => .bind (.ofStop _) fun page => ?_
      refine .bind (.attempt (ordered_register p page)) fun result => ?_
      cases result with
      | error e => exact .pure _
      | ok registered => exact ih _ _ _

theorem ordered_registerRange (p : Nat) (start stop : Vaddr) (length : UInt64) (writable : Bool)
    (f : Nat) (offset : UInt64) :
    Ordered [.ring, .swap] (registerRange p start stop length writable f offset) := by
  refine .bind .get fun m => .bind (ordered_registerMapped _ _ _ _ _ _ _ _ _) fun result => ?_
  rcases result with ⟨registered, failure⟩
  cases failure with
  | some e => exact .bind (ordered_dropPages p _) fun _ => .throw _
  | none => exact .bind (.report _) fun _ => .change (fun _ => rfl) fun _ => rfl

theorem ordered_mapFile (p : Nat) (start : Vaddr) (length : UInt64) (writable : Bool) (f : Nat)
    (offset : UInt64) : Ordered [.ring, .swap] (mapFile p start length writable f offset) := by
  refine .bind .get fun m => .bind (.require _ _) fun _ => .bind (.require _ _) fun _ => ?_
  refine .bind (.orFail _ _) fun stop => .bind (.require _ _) fun _ => ?_
  exact .bind (ordered_registerRange _ _ _ _ _ _ _) fun _ => .pure _

theorem ordered_unmapBase (p : Nat) (base : Vaddr) : Ordered [.ring, .swap] (unmapBase p base) := by
  refine .bind .get fun m => ?_
  cases (m.process p).mappings.get? base with
  | none => exact .pure ()
  | some mapping =>
      refine .bind (.change (fun _ => rfl) fun _ => rfl) fun _ => ?_
      exact .bind (ordered_dropPages p _) fun _ => .report _

theorem ordered_mappingBaseAt (p : Nat) (va : Vaddr) :
    Ordered [.ring, .swap] (mappingBaseAt p va) := by
  refine .bind .get fun m => ?_
  cases m.lookup p va with
  | some page => exact ordered_mappingOf p page
  | none => exact .pure none

theorem ordered_unmapFile (p : Nat) (va : Vaddr) : Ordered [.ring, .swap] (unmapFile p va) := by
  refine .bind (ordered_mappingBaseAt p va) fun base => ?_
  cases base with
  | some base => exact ordered_unmapBase p base
  | none => exact .pure ()

theorem ordered_mappingAt (p : Nat) (va : Vaddr) : Ordered [.ring, .swap] (mappingAt p va) := by
  refine .bind (ordered_mappingBaseAt p va) fun base => ?_
  cases base with
  | some base => exact .bind .get fun _ => .pure _
  | none => exact .pure none

/-! ## Copies -/

theorem ordered_mapCopy (hswap : .swap ∈ free) (p : Nat) (copy : Page) (frame : Nat)
    (dirty : Bool) : Ordered free (mapCopy p copy frame dirty) := by
  refine .bind (ordered_attachFrame _ _ _) fun _ => .bind (ordered_mapPage _ _ _ _) fun mapped => ?_
  cases mapped with
  | true =>
      refine .bind (.when _ (ordered_setDirty _ _ _)) fun _ => ?_
      exact .bind (ordered_unpinFrame hswap frame) fun _ => .record rfl
  | false =>
      refine .bind (ordered_updatePage _ _ _) fun _ => ?_
      exact .bind (ordered_freeFrame hswap frame) fun _ => .throw _

theorem ordered_placeCopy (p : Nat) (copy : Page) (dirty : Bool) {fill : Nat → Routine Unit}
    (hfill : ∀ frame, Ordered [.ring, .swap] (fill frame)) :
    Ordered [.ring, .swap] (placeCopy p copy dirty fill) := by
  have hswap : Lock.swap ∈ [Lock.ring, .swap] := by simp
  refine .withPageLock (.bind (ordered_allocateFrame hswap _) fun frame => ?_)
  refine .bind (.attempt (hfill frame)) fun result => ?_
  cases result with
  | ok done => exact ordered_mapCopy hswap _ _ _ _
  | error e => exact .bind (ordered_freeFrame hswap frame) fun _ => .throw _

theorem ordered_copyPage (s t : Nat) (page : Page) : Ordered [.ring, .swap] (copyPage s t page) := by
  refine .bind (ordered_register t _) fun copy => ?_
  unfold copyContent
  split
  · refine .bind .get fun m => .bind (ordered_readFrame _ _) fun bytes => ?_
    exact ordered_placeCopy t copy _ fun place => ordered_writeFrame place 0 bytes
  · exact ordered_placeCopy t copy _ fun place => ordered_readSlot _ place _
  · exact .pure ()

theorem ordered_copyPages (s t : Nat) (vas : List Vaddr) :
    Ordered [.ring, .swap] (copyPages s t vas) := by
  induction vas with
  | nil => exact .pure ()
  | cons va rest ih =>
      refine .bind (.withPageLock (.bind .get fun m => ?_)) fun _ => ih
      cases m.page? s va with
      | some page => exact ordered_copyPage s t page
      | none => exact .pure ()

theorem ordered_fork (s t : Nat) : Ordered [.ring, .swap] (fork s t) := by
  refine .bind .get fun m => .bind (.require _ _) fun _ => ?_
  refine .bind (ordered_copyPages s t _) fun _ => ?_
  exact .bind (.change (fun _ => rfl) fun _ => rfl) fun _ => .report _

/-! ## Faults and accesses -/

theorem ordered_growStack (p : Nat) (va : Vaddr) : Ordered [.ring, .swap] (growStack p va) := by
  refine .bind .get fun m => .bind (.ofStop _) fun page => ?_
  refine .bind (ordered_register p page) fun _ => ?_
  refine .bind (.attempt (ordered_claim p va)) fun result => ?_
  cases result with
  | ok done => exact .report _
  | error e => exact .bind (.attempt (ordered_removePage p va)) fun _ => .throw _

theorem ordered_forbidsWrite (p : Nat) (page : Page) (cause : FaultCause) :
    Ordered [.ring, .swap] (forbidsWrite p page cause) := by
  unfold forbidsWrite
  split
  · exact .withPageLock (.pure _)
  · exact .pure false

theorem ordered_resolveFault (p : Nat) (f : Fault) :
    Ordered [.ring, .swap] (resolveFault p f) := by
  refine .bind .get fun m => ?_
  split
  · exact .refuse _ _
  · split
    · exact .refuse _ _
    · split
      · rename_i page _
        refine .bind (ordered_forbidsWrite p page f.cause) fun forbidden => ?_
        cases forbidden with
        | true => exact .refuse _ _
        | false => exact ordered_claim p page.va
      · split
        · exact ordered_growStack p _
        · exact .refuse _ _

theorem ordered_ofAccess {α : Type} (result : Except AccessStop α) :
    Ordered free (ofAccess result) := by
  rcases result with ⟨fault | _⟩ | a
  · exact .pure _
  · exact .throw _
  · exact .pure _

theorem ordered_userRead (p : Nat) (va : Vaddr) (length : Nat) :
    Ordered free (userRead p va length) :=
  .update (fun _ => rfl) (fun _ => rfl) fun _ _ => ordered_ofAccess _

theorem ordered_userWrite (p : Nat) (va : Vaddr) (data : Bytes) :
    Ordered free (userWrite p va data) :=
  .update (fun _ => rfl) (fun _ => rfl) fun _ _ => .bind (.record rfl) fun _ => ordered_ofAccess _

/-! ## Operations -/

/-- Every operation that is started without locks keeps their order and gives up all of them. -/
theorem ordered_perform (op : Operation) : Ordered [.ring, .swap] op.perform := by
  cases op with
  | start accepting => exact .bind (ordered_startProcess _) fun _ => .pure _
  | finish p => exact .bind (ordered_endProcess p) fun _ => .pure _
  | allocate p type va writable loader =>
      exact .bind (ordered_allocatePage _ _ _ _ _) fun _ => .pure _
  | remove p va => exact .bind (ordered_removePage p va) fun _ => .pure _
  | claim p va => exact .bind (ordered_claimPage p va) fun _ => .pure _
  | fault p f => exact .bind (ordered_resolveFault p f) fun _ => .pure _
  | read p va length => exact .bind (ordered_userRead _ _ _) fun _ => .pure _
  | write p va data => exact .bind (ordered_userWrite _ _ _) fun _ => .pure _
  | map p va length writable f offset =>
      exact .bind (ordered_mapFile _ _ _ _ _ _) fun _ => .pure _
  | unmap p va => exact .bind (ordered_unmapFile p va) fun _ => .pure _
  | fork s t => exact .bind (ordered_fork s t) fun _ => .pure _
  | teardown p => exact .bind (ordered_teardown p) fun _ => .pure _
  | classAt p va => exact .bind (ordered_classAt p va) fun _ => .pure _
  | mappingAt p va => exact .bind (ordered_mappingAt p va) fun _ => .pure _

end Machine
end DemandPaging
