import DemandPaging.Machine.Operation
import DemandPaging.Proofs.Residue.Agreement

/-!
# Routines that do not look at the pool

Most routines neither read nor change the pool: with another pool they do the same and leave it as
it is. This holds of everything that is done to page tables, mappings, the ring, slots and files.
-/

namespace DemandPaging
namespace Routine

variable {α β : Type} {m : Machine} {q : FramePool}

/-- With either pool the routine ends alike, and it leaves the pool alone. -/
def Ignores (r : Routine α) (m : Machine) (q : FramePool) : Prop :=
  Agree r r m q (fun _ next q' => next.pool = m.pool ∧ q' = q)
    fun _ next q' => next.pool = m.pool ∧ q' = q

def Blind (r : Routine α) : Prop :=
  ∀ m q, Ignores r m q

namespace Ignores

variable {r : Routine α}

theorem bind {f : α → Routine β} (h : Ignores r m q)
    (hf : ∀ a next, next.pool = m.pool → Ignores (f a) next q) : Ignores (r >>= f) m q := by
  refine Agree.bind h ?_
  rintro a next _ ⟨hpool, rfl⟩
  refine (hf a next hpool).mono ?_ ?_
  · rintro b last _ ⟨hlast, rfl⟩
    exact ⟨hlast.trans hpool, rfl⟩
  · rintro e last _ ⟨hlast, rfl⟩
    exact ⟨hlast.trans hpool, rfl⟩

theorem attempt (h : Ignores r m q) : Ignores (Routine.attempt r) m q :=
  Agree.attempt h

end Ignores

namespace Blind

variable {r : Routine α}

theorem pure (a : α) : Blind (Pure.pure a : Routine α) :=
  fun _ _ => .pure ⟨rfl, rfl⟩

theorem throw (stop : Stop) : Blind (MonadExcept.throw stop : Routine α) :=
  fun _ _ => .throw fun _ _ => ⟨rfl, rfl⟩

theorem bind {f : α → Routine β} (h : Blind r) (hf : ∀ a, Blind (f a)) : Blind (r >>= f) :=
  fun m q => (h m q).bind fun a next _ => hf a next q

theorem get {k : Machine → Routine α} (hk : ∀ m q, k (m.withPool q) = k m)
    (h : ∀ m, Blind (k m)) : Blind (MonadState.get >>= k) := by
  intro m q
  refine Agree.get ?_
  rw [hk]
  exact h m m q

theorem change {f : Machine → Machine} (hf : ∀ m q, f (m.withPool q) = (f m).withPool q)
    (hpool : ∀ m, (f m).pool = m.pool) : Blind (modify f : Routine PUnit) :=
  fun m q => .change q (hf m q) ⟨hpool m, rfl⟩

theorem ofAbort (x : Except Abort α) : Blind (Routine.ofAbort x) :=
  fun _ _ => .ofAbort fun _ _ => ⟨rfl, rfl⟩

theorem ofStop (x : Except Stop α) : Blind (Routine.ofStop x) :=
  fun _ _ => .ofStop (fun _ _ => ⟨rfl, rfl⟩) fun _ _ => ⟨rfl, rfl⟩

theorem orFail (e : PagingError) (x : Option α) : Blind (Routine.orFail e x) :=
  fun _ _ => .orFail (fun _ _ => ⟨rfl, rfl⟩) fun _ => ⟨rfl, rfl⟩

theorem require (condition : Bool) (e : PagingError) : Blind (Routine.require condition e) :=
  fun _ _ => .require (fun _ => ⟨rfl, rfl⟩) fun _ => ⟨rfl, rfl⟩

theorem ensure (rule : Bool) (a : Abort) : Blind (Routine.ensure rule a) :=
  fun _ _ => .ensure fun _ => ⟨rfl, rfl⟩

theorem when (condition : Bool) {body : Routine Unit} (h : Blind body) :
    Blind (Routine.when condition body) :=
  fun m q => .when (fun _ => h m q) fun _ => ⟨rfl, rfl⟩

theorem attempt (h : Blind r) : Blind (Routine.attempt r) :=
  fun m q => (h m q).attempt

theorem record (event : Event) : Blind (Routine.record event) :=
  fun _ _ => .record ⟨rfl, rfl⟩

theorem report (message : Message) : Blind (Routine.report message) :=
  record _

theorem report? (message : Option Message) : Blind (Routine.report? message) := by
  cases message with
  | some message => exact report message
  | none => exact pure ()

theorem refuse (message : Message) (e : PagingError) :
    Blind (Routine.refuse message e : Routine α) :=
  fun _ _ => .refuse ⟨rfl, rfl⟩

theorem withLock {lock : Lock} (h : Blind r) : Blind (Routine.withLock lock r) :=
  fun m q => .withLock (h (m.locked lock) q)

end Blind
end Routine

namespace Machine

open Routine

/-! ## Page tables and mappings -/

theorem blind_updatePage (p : Nat) (va : Vaddr) (f : Page → Page) : Blind (updatePage p va f) :=
  .change (fun _ _ => rfl) fun _ => rfl

theorem blind_mapPage (p : Nat) (va : Vaddr) (frame : Nat) (writable : Bool) :
    Blind (mapPage p va frame writable) := by
  refine .get (fun _ _ => rfl) fun m => ?_
  exact .bind (.change (fun _ _ => rfl) fun _ => rfl) fun _ => .ofAbort _

theorem blind_unmapPage (p : Nat) (va : Vaddr) : Blind (unmapPage p va) := by
  refine .get (fun _ _ => rfl) fun m => ?_
  exact .bind (.change (fun _ _ => rfl) fun _ => rfl) fun _ => .pure _

theorem blind_setDirty (p : Nat) (va : Vaddr) (dirty : Bool) : Blind (setDirty p va dirty) :=
  .change (fun _ _ => rfl) fun _ => rfl

theorem blind_setAccessed (p : Nat) (va : Vaddr) (accessed : Bool) :
    Blind (setAccessed p va accessed) :=
  .change (fun _ _ => rfl) fun _ => rfl

theorem blind_attachFrame (p : Nat) (page : Page) (frame : Nat) :
    Blind (attachFrame p page frame) :=
  .get (fun _ _ => rfl) fun _ => .bind (.ensure _ _) fun _ => blind_updatePage _ _ _

theorem blind_detachFrame (p : Nat) (page : Page) : Blind (detachFrame p page) :=
  blind_updatePage _ _ _

theorem blind_unmapResident (p : Nat) (page : Page) : Blind (unmapResident p page) := by
  unfold unmapResident
  split
  · exact blind_unmapPage _ _
  · exact .pure _

theorem blind_forbidsWrite (p : Nat) (page : Page) (cause : FaultCause) :
    Blind (forbidsWrite p page cause) := by
  unfold forbidsWrite
  split
  · exact .withLock (.pure _)
  · exact .pure _

/-! ## The ring, slots and files -/

theorem blind_modifyRing (f : FrameRing → FrameRing) : Blind (modifyRing f) :=
  .change (fun _ _ => rfl) fun _ => rfl

theorem blind_unpinFrame (frame : Nat) : Blind (unpinFrame frame) :=
  .withLock (blind_modifyRing _)

theorem blind_unlistFrame (frame : Nat) : Blind (unlistFrame frame) := by
  refine .get (fun _ _ => rfl) fun m => ?_
  cases m.ring.position? frame with
  | some place => exact blind_modifyRing _
  | none => exact .report _

theorem blind_setSwap (area : Swap.Area) : Blind (setSwap area) :=
  .change (fun _ _ => rfl) fun _ => rfl

theorem blind_allocateSlot : Blind allocateSlot := by
  refine .withLock (.get (fun _ _ => rfl) fun m => ?_)
  cases m.swap.allocate? with
  | some given => exact .bind (blind_setSwap _) fun _ => .pure _
  | none => exact .pure _

theorem blind_releaseSlot (slot : Nat) : Blind (releaseSlot slot) := by
  refine .withLock (.get (fun _ _ => rfl) fun m => ?_)
  exact .bind (.ofAbort _) fun area => blind_setSwap area

theorem blind_writeSlot (slot : Nat) (bytes : Bytes) : Blind (writeSlot slot bytes) := by
  refine .get (fun _ _ => rfl) fun m => ?_
  obtain ⟨outcome, area⟩ := m.swap.write slot bytes
  refine .bind (blind_setSwap area) fun _ => ?_
  cases outcome with
  | ok done => exact .pure _
  | error failure => exact .bind (.report? _) fun _ => .throw _

theorem blind_readFile (f offset count : Nat) : Blind (readFile f offset count) := by
  refine .get (fun _ _ => rfl) fun m => ?_
  exact .bind (.change (fun _ _ => rfl) fun _ => rfl) fun _ => .pure _

theorem blind_writeFile (owner : Owner) (f : Nat) (offset : UInt64) (data : Bytes) :
    Blind (writeFile owner f offset data) := by
  refine .get (fun _ _ => rfl) fun m => ?_
  refine .bind (.change (fun _ _ => rfl) fun _ => rfl) fun _ => ?_
  exact .bind (.record _) fun _ => .pure _

/-! ## Saving -/

theorem blind_writeBack (owner : Owner) (x : FileExtent) (bytes : Bytes) :
    Blind (writeBack owner x bytes) := by
  unfold writeBack
  dsimp only
  split
  · exact .pure _
  · refine .bind (.ensure _ _) fun _ => ?_
    refine .bind (blind_writeFile _ _ _ _) fun answer => ?_
    refine .bind (.orFail _ answer) fun accepted => ?_
    split
    · exact .pure _
    · exact .refuse _ _

theorem blind_savePage (owner : Owner) (state : PageState) (bytes : Bytes) (dirty : Bool) :
    Blind (savePage owner state bytes dirty) := by
  have hslot : Blind (saveToSlot bytes) := by
    refine .bind blind_allocateSlot fun given => ?_
    refine .bind (.orFail _ given) fun slot => ?_
    refine .bind (.attempt (blind_writeSlot slot bytes)) fun result => ?_
    cases result with
    | ok done => exact .pure _
    | error e => exact .bind (blind_releaseSlot slot) fun _ => .throw _
  cases state with
  | uninit origin => exact .throw _
  | anon slot => exact .bind hslot fun _ => .pure _
  | file x => exact .bind (.when _ (blind_writeBack owner x bytes)) fun _ => .pure _

theorem blind_secondChance (page : Page) : Blind (secondChance page) := by
  refine .get (fun _ _ => rfl) fun m => ?_
  exact .bind (.when _ (blind_setAccessed _ _ _)) fun _ => .pure _

theorem blind_restoreMapping (owner : Owner) (page : Page) (frame : Nat) (dirty : Bool) :
    Blind (restoreMapping owner page frame dirty) := by
  refine .bind (blind_mapPage _ _ _ _) fun accepted => ?_
  cases accepted with
  | true => exact .when _ (blind_setDirty _ _ _)
  | false => exact .record _

/-! ## Registration -/

theorem blind_register (p : Nat) (page : Page) : Blind (register p page) := by
  intro m q
  -- The page is added to the state of the beginning, so the checks have to leave that alone.
  have required : ∀ (condition : Bool) (e : PagingError),
      Agree (require condition e) (require condition e) m q (fun _ next q' => next = m ∧ q' = q)
        fun _ next q' => next.pool = m.pool ∧ q' = q :=
    fun _ _ => .require (fun _ => ⟨rfl, rfl⟩) fun _ => ⟨rfl, rfl⟩
  refine Agree.get (Agree.bind (required _ _) ?_)
  rintro _ _ _ ⟨rfl, rfl⟩
  refine Agree.bind (required _ _) ?_
  rintro _ _ _ ⟨rfl, rfl⟩
  refine Agree.bind (required _ _) ?_
  rintro _ _ _ ⟨rfl, rfl⟩
  exact ⟨_, rfl, rfl, rfl⟩

theorem blind_allocatePage (p : Nat) (type : PageClass) (va : Vaddr) (writable : Bool)
    (loader : Option Loader) : Blind (allocatePage p type va writable loader) := by
  refine .get (fun _ _ => rfl) fun m => ?_
  exact .bind (.ofStop _) fun page => blind_register p page

theorem blind_leaveMapping (p : Nat) (base va : Vaddr) : Blind (leaveMapping p base va) :=
  .change (fun _ _ => rfl) fun _ => rfl

theorem blind_mappingOf (p : Nat) (page : Page) : Blind (mappingOf p page) :=
  .withLock (.pure _)

theorem blind_classAt (p : Nat) (va : Vaddr) : Blind (classAt p va) := by
  refine .get (fun _ _ => rfl) fun m => ?_
  cases m.lookup p va with
  | some page => exact .withLock (.pure _)
  | none => exact .pure _

theorem blind_startProcess (accepting : Schedule Bool) : Blind (startProcess accepting) :=
  fun _ q => Agree.get (.bind (.set q rfl ⟨rfl, rfl⟩) fun _ _ _ h => .pure h)

theorem blind_registerMapped (p : Nat) (base : Vaddr) (writable : Bool) (f : Nat)
    (offset : UInt64) (count index : Nat) (va : Vaddr) (remaining : UInt64) :
    Blind (registerMapped p base writable f offset count index va remaining) := by
  induction count generalizing index va remaining with
  | zero => exact .pure _
  | succ count ih =>
      unfold registerMapped
      refine .get (fun _ _ => rfl) fun m => ?_
      refine .bind (.ofAbort _) fun extent => ?_
      refine .bind (.ofStop _) fun page => ?_
      refine .bind (.attempt (blind_register p page)) fun result => ?_
      cases result with
      | ok given => exact ih _ _ _
      | error e => exact .pure _

theorem blind_mappingBaseAt (p : Nat) (va : Vaddr) : Blind (mappingBaseAt p va) := by
  refine .get (fun _ _ => rfl) fun m => ?_
  cases m.lookup p va with
  | some page => exact blind_mappingOf p page
  | none => exact .pure _

theorem blind_mappingAt (p : Nat) (va : Vaddr) : Blind (mappingAt p va) := by
  refine .bind (blind_mappingBaseAt p va) fun base => ?_
  cases base with
  | some base => exact .get (fun _ _ => rfl) fun m => .pure _
  | none => exact .pure _

end Machine
end DemandPaging
