import DemandPaging.Machine.Operation
import DemandPaging.Proofs.Machine.Keeping
import DemandPaging.Proofs.Origin

/-!
# What operations keep

A relation between machines that ignores the parts of the machine that a routine changes is kept by
the routine. Here this is said of everything that serves an operation: a relation that ignores all
of it but the runs of custom loaders is kept by every routine that loads no page, and one that
ignores these as well is kept by every operation.
-/

namespace DemandPaging
namespace Machine

open Routine

/-! ## Relations and what they ignore -/

structure IgnoresServing (R : Machine → Machine → Prop) : Prop extends IgnoresCopying R where
  readFile : ∀ m f offset count,
    R m { m with files := m.files.set f ((file m f).read offset count).2 }
  setMmu : ∀ m p unit, R m (m.modifyMmu p fun _ => unit)
  erasePage : ∀ m p va, R m (m.modifyPages p fun pages => pages.erase va)
  clearPages : ∀ m p, R m (m.modifyPages p fun _ => .empty)
  shut : ∀ m p, R m (m.modifyProcess p fun q => { q with mappings := .empty, tornDown := true })
  finish : ∀ m p, R m (m.modifyProcess p fun q => { q with ended := true })
  withProcess : ∀ m accepting, R m (m.withProcess accepting)

structure IgnoresLoading (R : Machine → Machine → Prop) : Prop extends IgnoresServing R where
  countRun : ∀ m counter, R m (m.countRun counter)

variable {R : Machine → Machine → Prop}

theorem kept_ofStop {α : Type} (hR : Oblivious R) (x : Except Stop α) : Keeps R (ofStop x) := by
  cases x with
  | ok a => exact .pure hR a
  | error stop => exact .throw hR stop

theorem kept_modifyMappings (hR : IgnoresCopying R) (p : Nat)
    (change : Machine → AddressMap FileMapping → AddressMap FileMapping) :
    Keeps R (modify fun m => m.modifyMappings p (change m)) :=
  fun m => hR.modifyMappings m p (change m)

/-! ## Content -/

theorem kept_readExtent (hR : IgnoresServing R) (x : FileExtent) (frame length : Nat) :
    Keeps R (readExtent x frame length) := by
  unfold readExtent
  apply Keeps.bind hR.toOblivious (.require hR.toOblivious _ _)
  intro _
  have hread : Keeps R (readFile x.file x.offset.toNat x.readBytes.toNat) :=
    fun m => hR.readFile m _ _ _
  apply Keeps.bind hR.toOblivious hread
  intro answer
  apply Keeps.bind hR.toOblivious (.orFail hR.toOblivious _ answer)
  intro data
  apply Keeps.bind hR.toOblivious (kept_writeFrame hR.toIgnoresCopying _ _ _)
  intro _
  split
  · exact kept_writeFrame hR.toIgnoresCopying _ _ _
  · exact .refuse hR.toOblivious _ _

theorem kept_runCustom (hR : IgnoresCopying R) {loader : CustomLoader}
    (hcount : ∀ m, R m (m.countRun loader.counter)) (frame length : Nat) :
    Keeps R (runCustom loader frame length) := by
  apply Keeps.bind hR.toOblivious (kept_writeFrame hR _ _ _)
  intro _
  apply Keeps.bind hR.toOblivious (x := readFrame frame length) hR.refl
  intro buffer
  apply Keeps.bind hR.toOblivious (.get hR.toOblivious)
  intro seen
  refine .bind hR.toOblivious (fun m => hcount m) fun _ => ?_
  generalize loader.run (seen.loaderRuns loader.counter) buffer = outcome
  apply Keeps.bind hR.toOblivious (kept_writeFrame hR _ _ _)
  intro _
  cases outcome.2 with
  | some e => exact .throw hR.toOblivious _
  | none => exact .pure hR.toOblivious _

theorem kept_loadState (hR : IgnoresServing R) {state : PageState}
    (hcount : ∀ loader, state.customLoader? = some loader → ∀ m, R m (m.countRun loader.counter))
    (frame length : Nat) :
    Keeps R (loadState state frame length) := by
  rcases state with origin | (slot | slot) | x
  · refine .bind hR.toOblivious ?_ fun _ => .pure hR.toOblivious _
    rcases origin with (loader | x | loader) | x
    · exact kept_writeFrame hR.toIgnoresCopying _ _ _
    · exact kept_readExtent hR _ _ _
    · exact kept_runCustom hR.toIgnoresCopying (hcount loader rfl) _ _
    · exact kept_readExtent hR _ _ _
  · exact .bind hR.toOblivious (kept_writeFrame hR.toIgnoresCopying _ _ _) fun _ =>
      .pure hR.toOblivious _
  · apply Keeps.bind hR.toOblivious (kept_readSlot hR.toIgnoresCopying _ _ _)
    intro _
    exact .bind hR.toOblivious (kept_releaseSlot hR.toIgnoresSwap _) fun _ =>
      .pure hR.toOblivious _
  · exact .bind hR.toOblivious (kept_readExtent hR _ _ _) fun _ => .pure hR.toOblivious _

theorem kept_loadPage (hR : IgnoresLoading R) (p : Nat) (page : Page) (frame : Nat) :
    Keeps R (loadPage p page frame) := by
  apply Keeps.bind hR.toOblivious
    (kept_loadState hR.toIgnoresServing (fun loader _ m => hR.countRun m loader.counter) _ _)
  intro state
  exact .bind hR.toOblivious (kept_updatePage hR.toIgnoresParting _ _ fun _ => rfl) fun _ =>
    kept_record hR.toIgnoresParting _

/-! ## Residency -/

theorem kept_undoClaim (hR : IgnoresCopying R) (p : Nat) (page : Page) (frame : Nat) :
    Keeps R (undoClaim p page frame) := by
  apply Keeps.bind hR.toOblivious (kept_unmapPage hR.toIgnoresParting _ _)
  intro _
  exact .bind hR.toOblivious (kept_detachFrame hR.toIgnoresParting p page) fun _ =>
    kept_freeFrame hR frame

theorem kept_makeResident (hR : IgnoresLoading R) (p : Nat) (page : Page) :
    Keeps R (makeResident p page) := by
  apply Keeps.bind hR.toOblivious (kept_allocateFrame hR.toIgnoresEviction _)
  intro frame
  apply Keeps.bind hR.toOblivious (kept_attachFrame hR.toIgnoresParting p page frame)
  intro _
  have hloaded : Keeps R (mapAndLoad p page frame) := by
    apply Keeps.bind hR.toOblivious (kept_mapPage hR.toIgnoresParting _ _ _ _)
    intro accepted
    exact .bind hR.toOblivious (.require hR.toOblivious _ _) fun _ => kept_loadPage hR _ _ _
  apply Keeps.bind hR.toOblivious (.attempt hloaded)
  intro result
  cases result with
  | ok done =>
      exact .bind hR.toOblivious (kept_unpinFrame hR.toIgnoresEviction frame)
        fun _ => .report hR.toOblivious _
  | error e =>
      exact .bind hR.toOblivious (kept_undoClaim hR.toIgnoresCopying p page frame) fun _ =>
        .refuse hR.toOblivious _ _

theorem kept_claim (hR : IgnoresLoading R) (p : Nat) (va : Vaddr) : Keeps R (claim p va) := by
  apply Keeps.withLock hR.toOblivious
  apply Keeps.bind hR.toOblivious (.get hR.toOblivious)
  intro seen
  apply Keeps.bind hR.toOblivious (.orFail hR.toOblivious _ _)
  intro page
  exact .when _ hR.toOblivious (kept_makeResident hR p page)

theorem kept_claimPage (hR : IgnoresLoading R) (p : Nat) (va : Vaddr) :
    Keeps R (claimPage p va) := by
  apply Keeps.bind hR.toOblivious (.get hR.toOblivious)
  intro seen
  exact .bind hR.toOblivious (.orFail hR.toOblivious _ _) fun page => kept_claim hR p page.va

theorem kept_releaseBacking (hR : IgnoresServing R) (p : Nat) (page : Page) (dirty : Bool) :
    Keeps R (releaseBacking p page dirty) := by
  unfold releaseBacking
  split
  · exact kept_releaseSlot hR.toIgnoresSwap _
  · apply Keeps.when _ hR.toOblivious
    apply Keeps.bind hR.toOblivious (x := readFrame _ _) hR.refl
    intro bytes
    apply Keeps.bind hR.toOblivious (.attempt (kept_writeBack hR.toIgnoresParting _ _ _))
    intro result
    cases result with
    | ok done => exact .pure hR.toOblivious _
    | error e => exact .report hR.toOblivious _
  · exact .pure hR.toOblivious _

theorem kept_releasePage (hR : IgnoresServing R) (p : Nat) (page : Page) :
    Keeps R (releasePage p page) := by
  apply Keeps.withLock hR.toOblivious
  have hunmapped : Keeps R (unmapResident p page) := by
    unfold unmapResident
    split
    · exact kept_unmapPage hR.toIgnoresParting _ _
    · exact .pure hR.toOblivious _
  apply Keeps.bind hR.toOblivious hunmapped
  intro dirty
  apply Keeps.bind hR.toOblivious (kept_releaseBacking hR p page dirty)
  intro _
  cases page.frame with
  | some frame =>
      apply Keeps.bind hR.toOblivious (x := readFrame _ _) hR.refl
      intro bytes
      exact .bind hR.toOblivious (kept_record hR.toIgnoresParting _) fun _ =>
        kept_freeFrame hR.toIgnoresCopying frame
  | none => exact .pure hR.toOblivious _

/-! ## Registration -/

theorem kept_allocatePage (hR : IgnoresServing R) (p : Nat) (type : PageClass) (va : Vaddr)
    (writable : Bool) (loader : Option Loader) :
    Keeps R (allocatePage p type va writable loader) := by
  apply Keeps.bind hR.toOblivious (.get hR.toOblivious)
  intro seen
  exact .bind hR.toOblivious (kept_ofStop hR.toOblivious _) fun page =>
    kept_register hR.toIgnoresCopying p page

theorem kept_takePage (hR : IgnoresServing R) (p : Nat) (va : Vaddr) : Keeps R (takePage p va) := by
  apply Keeps.bind hR.toOblivious (.get hR.toOblivious)
  intro seen
  exact .bind hR.toOblivious (fun m => hR.erasePage m p va) fun _ => .pure hR.toOblivious _

theorem kept_dropPages (hR : IgnoresServing R) (p : Nat) (vas : List Vaddr) :
    Keeps R (dropPages p vas) := by
  induction vas with
  | nil => exact .pure hR.toOblivious ()
  | cons va rest ih =>
      refine .bind hR.toOblivious ?_ fun _ => ih
      apply Keeps.bind hR.toOblivious (kept_takePage hR p va)
      intro taken
      cases taken with
      | some page => exact kept_releasePage hR p page
      | none => exact .pure hR.toOblivious _

theorem kept_mappingOf (hR : Oblivious R) (p : Nat) (page : Page) : Keeps R (mappingOf p page) :=
  .withLock hR (.pure hR _)

theorem kept_removePage (hR : IgnoresServing R) (p : Nat) (va : Vaddr) :
    Keeps R (removePage p va) := by
  apply Keeps.bind hR.toOblivious (.get hR.toOblivious)
  intro seen
  apply Keeps.bind hR.toOblivious (kept_takePage hR p _)
  intro taken
  apply Keeps.bind hR.toOblivious (.orFail hR.toOblivious _ taken)
  intro page
  apply Keeps.bind hR.toOblivious (kept_mappingOf hR.toOblivious p page)
  intro base
  cases base with
  | some base =>
      exact .bind hR.toOblivious (kept_modifyMappings hR.toIgnoresCopying p fun _ => _) fun _ =>
        kept_releasePage hR p page
  | none => exact kept_releasePage hR p page

theorem kept_classAt (hR : Oblivious R) (p : Nat) (va : Vaddr) : Keeps R (classAt p va) := by
  apply Keeps.bind hR (.get hR)
  intro seen
  cases seen.lookup p va with
  | some page => exact .withLock hR (.pure hR _)
  | none => exact .pure hR _

theorem kept_releasePages (hR : IgnoresServing R) (p : Nat) (pages : List Page) :
    Keeps R (releasePages p pages) := by
  induction pages with
  | nil => exact .pure hR.toOblivious ()
  | cons page rest ih => exact .bind hR.toOblivious (kept_releasePage hR p page) fun _ => ih

theorem kept_teardown (hR : IgnoresServing R) (p : Nat) : Keeps R (teardown p) := by
  apply Keeps.bind hR.toOblivious (.get hR.toOblivious)
  intro seen
  refine .bind hR.toOblivious (fun m => hR.clearPages m p) fun _ => ?_
  apply Keeps.bind hR.toOblivious (kept_releasePages hR p _)
  intro _
  exact .bind hR.toOblivious (fun m => hR.shut m p) fun _ =>
    .when _ hR.toOblivious (.report hR.toOblivious _)

theorem kept_endProcess (hR : IgnoresServing R) (p : Nat) : Keeps R (endProcess p) := by
  apply Keeps.bind hR.toOblivious (kept_teardown hR p)
  exact fun _ m => hR.finish m p

/-! ## Faults and user accesses -/

theorem kept_growStack (hR : IgnoresLoading R) (p : Nat) (va : Vaddr) :
    Keeps R (growStack p va) := by
  apply Keeps.bind hR.toOblivious (.get hR.toOblivious)
  intro seen
  apply Keeps.bind hR.toOblivious (kept_ofStop hR.toOblivious _)
  intro page
  apply Keeps.bind hR.toOblivious (kept_register hR.toIgnoresCopying p page)
  intro _
  apply Keeps.bind hR.toOblivious (.attempt (kept_claim hR p va))
  intro result
  cases result with
  | ok done => exact .report hR.toOblivious _
  | error e =>
      exact .bind hR.toOblivious (.attempt (kept_removePage hR.toIgnoresServing p va)) fun _ =>
        .throw hR.toOblivious _

theorem kept_forbidsWrite (hR : Oblivious R) (p : Nat) (page : Page) (cause : FaultCause) :
    Keeps R (forbidsWrite p page cause) := by
  unfold forbidsWrite
  split
  · exact .withLock hR (.pure hR _)
  · exact .pure hR _

theorem kept_resolveAtPage (hR : IgnoresLoading R) (p : Nat) (page : Page) (f : Fault) :
    Keeps R (resolveAtPage p page f) := by
  apply Keeps.bind hR.toOblivious (kept_forbidsWrite hR.toOblivious p page f.cause)
  intro forbidden
  cases forbidden with
  | true => exact .refuse hR.toOblivious _ _
  | false => exact kept_claim hR p page.va

theorem kept_resolveFault (hR : IgnoresLoading R) (p : Nat) (f : Fault) :
    Keeps R (resolveFault p f) := by
  apply Keeps.bind hR.toOblivious (.get hR.toOblivious)
  intro seen
  split
  · exact .refuse hR.toOblivious _ _
  · split
    · exact .refuse hR.toOblivious _ _
    · split
      · exact kept_resolveAtPage hR _ _ _
      · split
        · exact kept_growStack hR _ _
        · exact .refuse hR.toOblivious _ _

theorem kept_ofAccess (hR : Oblivious R) {α : Type} (result : Except AccessStop α) :
    Keeps R (ofAccess result) := by
  rcases result with (fault | _) | a
  · exact .pure hR _
  · exact .throw hR _
  · exact .pure hR _

theorem kept_userRead (hR : IgnoresServing R) (p : Nat) (va : Vaddr) (length : Nat) :
    Keeps R (userRead p va length) := by
  intro m
  unfold userRead
  simp only [ends_bind, ends_get, ends_set]
  have hread := hR.setMmu m p ((m.process p).mmu.userRead m.pool.frames va length).mmu
  refine (kept_ofAccess hR.toOblivious _ _).mono ?_ ?_
  · exact fun _ next => hR.trans m _ next hread
  · exact fun _ next => hR.trans m _ next hread

theorem kept_userWrite (hR : IgnoresServing R) (p : Nat) (va : Vaddr) (data : Bytes) :
    Keeps R (userWrite p va data) := by
  intro m
  unfold userWrite
  simp only [ends_bind, ends_get, ends_set, ends_record]
  have hwritten : ∀ (unit : Mmu) (pool : FramePool) (event : Event),
      R m (Machine.recorded { m.modifyMmu p fun _ => unit with pool := pool } event) := by
    intro unit pool event
    have hpoured := hR.trans m _ _ (hR.setMmu m p unit) (hR.setPool _ pool)
    exact hR.trans m _ _ hpoured (hR.recorded _ event)
  refine (kept_ofAccess hR.toOblivious _ _).mono ?_ ?_
  · exact fun _ next => hR.trans m _ next (hwritten _ _ _)
  · exact fun _ next => hR.trans m _ next (hwritten _ _ _)

/-! ## File mappings -/

theorem kept_registerMapped (hR : IgnoresServing R) (p : Nat) (base : Vaddr) (writable : Bool)
    (f : Nat) (offset : UInt64) (count index : Nat) (va : Vaddr) (remaining : UInt64) :
    Keeps R (registerMapped p base writable f offset count index va remaining) := by
  induction count generalizing index va remaining with
  | zero => exact .pure hR.toOblivious _
  | succ count ih =>
      unfold registerMapped
      apply Keeps.bind hR.toOblivious (.get hR.toOblivious)
      intro seen
      dsimp only
      apply Keeps.bind hR.toOblivious (.ofAbort hR.toOblivious _)
      intro extent
      apply Keeps.bind hR.toOblivious (kept_ofStop hR.toOblivious _)
      intro page
      apply Keeps.bind hR.toOblivious (.attempt (kept_register hR.toIgnoresCopying p page))
      intro result
      cases result with
      | ok given => exact ih _ _ _
      | error e => exact .pure hR.toOblivious _

theorem kept_mapFile (hR : IgnoresServing R) (p : Nat) (start : Vaddr) (length : UInt64)
    (writable : Bool) (f : Nat) (offset : UInt64) :
    Keeps R (mapFile p start length writable f offset) := by
  apply Keeps.bind hR.toOblivious (.get hR.toOblivious)
  intro seen
  apply Keeps.bind hR.toOblivious (.require hR.toOblivious _ _)
  intro _
  apply Keeps.bind hR.toOblivious (.require hR.toOblivious _ _)
  intro _
  apply Keeps.bind hR.toOblivious (.orFail hR.toOblivious _ _)
  intro stop
  apply Keeps.bind hR.toOblivious (.require hR.toOblivious _ _)
  intro _
  refine .bind hR.toOblivious ?_ fun _ => .pure hR.toOblivious _
  apply Keeps.bind hR.toOblivious (.get hR.toOblivious)
  intro seen
  apply Keeps.bind hR.toOblivious (kept_registerMapped hR _ _ _ _ _ _ _ _ _)
  intro outcome
  rcases outcome with ⟨registered, failure | failure⟩
  · exact .bind hR.toOblivious (.report hR.toOblivious _) fun _ =>
      kept_modifyMappings hR.toIgnoresCopying p fun _ => _
  · exact .bind hR.toOblivious (kept_dropPages hR p _) fun _ => .throw hR.toOblivious _

theorem kept_mappingBaseAt (hR : Oblivious R) (p : Nat) (va : Vaddr) :
    Keeps R (mappingBaseAt p va) := by
  apply Keeps.bind hR (.get hR)
  intro seen
  cases seen.lookup p va with
  | some page => exact kept_mappingOf hR p page
  | none => exact .pure hR _

theorem kept_unmapFile (hR : IgnoresServing R) (p : Nat) (va : Vaddr) :
    Keeps R (unmapFile p va) := by
  apply Keeps.bind hR.toOblivious (kept_mappingBaseAt hR.toOblivious p va)
  intro base
  cases base with
  | none => exact .pure hR.toOblivious _
  | some base =>
      apply Keeps.bind hR.toOblivious (.get hR.toOblivious)
      intro seen
      cases (seen.process p).mappings.get? base with
      | none => exact .pure hR.toOblivious _
      | some mapping =>
          apply Keeps.bind hR.toOblivious (kept_modifyMappings hR.toIgnoresCopying p fun _ => _)
          intro _
          exact .bind hR.toOblivious (kept_dropPages hR p _) fun _ => .report hR.toOblivious _

theorem kept_mappingAt (hR : Oblivious R) (p : Nat) (va : Vaddr) : Keeps R (mappingAt p va) := by
  apply Keeps.bind hR (kept_mappingBaseAt hR p va)
  intro base
  cases base with
  | none => exact .pure hR _
  | some base => exact .bind hR (.get hR) fun _ => .pure hR _

/-! ## Operations -/

theorem kept_startProcess (hR : IgnoresServing R) (accepting : Schedule Bool) :
    Keeps R (startProcess accepting) :=
  fun m => hR.withProcess m accepting

/-- What every operation keeps but a claim and a fault, all operations keep if these do. -/
theorem kept_perform_of (hR : IgnoresServing R) {op : Operation}
    (hclaim : ∀ p va, op = .claim p va → Keeps R (claimPage p va))
    (hfault : ∀ p f, op = .fault p f → Keeps R (resolveFault p f)) : Keeps R op.perform := by
  have hanswered : ∀ {α : Type} {r : Routine α} (answer : α → Reply), Keeps R r →
      Keeps R (do let a ← r; pure (answer a)) := by
    intro α r answer hr
    exact .bind hR.toOblivious hr fun _ => .pure hR.toOblivious _
  cases op with
  | start accepting => exact hanswered _ (kept_startProcess hR accepting)
  | finish p => exact hanswered _ (kept_endProcess hR p)
  | allocate p type va writable loader => exact hanswered _ (kept_allocatePage hR _ _ _ _ _)
  | remove p va => exact hanswered _ (kept_removePage hR p va)
  | claim p va => exact hanswered _ (hclaim p va rfl)
  | fault p f => exact hanswered _ (hfault p f rfl)
  | read p va length => exact hanswered _ (kept_userRead hR p va length)
  | write p va data => exact hanswered _ (kept_userWrite hR p va data)
  | map p start length writable f offset => exact hanswered _ (kept_mapFile hR _ _ _ _ _ _)
  | unmap p va => exact hanswered _ (kept_unmapFile hR p va)
  | fork s t => exact hanswered _ (kept_fork hR.toIgnoresCopying s t)
  | teardown p => exact hanswered _ (kept_teardown hR p)
  | classAt p va => exact hanswered _ (kept_classAt hR.toOblivious p va)
  | mappingAt p va => exact hanswered _ (kept_mappingAt hR.toOblivious p va)

theorem kept_perform (hR : IgnoresLoading R) (op : Operation) : Keeps R op.perform :=
  kept_perform_of hR.toIgnoresServing (fun p va _ => kept_claimPage hR p va)
    fun p f _ => kept_resolveFault hR p f

end Machine
end DemandPaging
