import DemandPaging.Proofs.Routine

/-!
# The order of locks

The locks that are held form a stack. A requester never waits for a lock that it holds; it waits for
the lock of a page only while it does not hold the ring, under which pages are locked without
waiting; and under the lock of the swap area no lock is asked for at all. `Routine.Ordered` says of
a routine that it keeps to this however it ends, if it is started with certain locks free.
-/

namespace DemandPaging

/-! ## Events that change what is held -/

def Event.lock? : Event → Option Lock
  | acquired lock | seized lock | released lock | contended lock => some lock
  | _ => none

/-- What may happen to the locks that are held, of which the latest comes first. -/
inductive LockStep : List Lock → Event → List Lock → Prop where
  /-- Waiting is never for a lock that is held, and for a page only without the ring. -/
  | acquired {held : List Lock} {lock : Lock} (free : lock ∉ held) (leaf : .swap ∉ held)
      (ordered : ∀ p va, lock = .page p va → .ring ∉ held) :
      LockStep held (.acquired lock) (lock :: held)
  | seized {held : List Lock} {lock : Lock} (free : lock ∉ held) (leaf : .swap ∉ held) :
      LockStep held (.seized lock) (lock :: held)
  | contended {held : List Lock} {lock : Lock} (taken : lock ∈ held) (leaf : .swap ∉ held) :
      LockStep held (.contended lock) held
  /-- The latest lock is released first. -/
  | released {held : List Lock} {lock : Lock} : LockStep (lock :: held) (.released lock) held
  | other {held : List Lock} {event : Event} (h : event.lock? = none) :
      LockStep held event held

inductive LockSteps (start : List Lock) : List Event → List Lock → Prop where
  | nil : LockSteps start [] start
  | cons {middle last : List Lock} {event : Event} {earlier : List Event}
      (steps : LockSteps start earlier middle) (step : LockStep middle event last) :
      LockSteps start (event :: earlier) last

theorem LockSteps.append {first middle last : List Lock} {earlier later : List Event}
    (h : LockSteps first earlier middle) (h' : LockSteps middle later last) :
    LockSteps first (later ++ earlier) last := by
  induction h' with
  | nil => exact h
  | cons _ step ih => exact .cons ih step

theorem LockSteps.single {first last : List Lock} {event : Event} (h : LockStep first event last) :
    LockSteps first [event] last :=
  .cons .nil h

/-! ## Machines that hold the same -/

namespace Machine

/-- The same locks are held, and what happened to them in between kept the order. -/
structure KeepsOrder (m next : Machine) : Prop where
  held : next.held = m.held
  steps : ∃ recent, next.trace = recent ++ m.trace ∧ LockSteps m.held recent next.held

namespace KeepsOrder

variable {l m n next : Machine} {lock : Lock} {event : Event}

theorem of_same (hheld : next.held = m.held) (htrace : next.trace = m.trace) :
    m.KeepsOrder next := by
  refine ⟨hheld, [], htrace, ?_⟩
  rw [hheld]
  exact .nil

theorem refl (m : Machine) : m.KeepsOrder m :=
  .of_same rfl rfl

theorem trans (h : l.KeepsOrder m) (h' : m.KeepsOrder n) : l.KeepsOrder n := by
  rcases h.steps with ⟨earlier, hearlier, hsteps⟩
  rcases h'.steps with ⟨later, hlater, hsteps'⟩
  refine ⟨h'.held.trans h.held, later ++ earlier, ?_, hsteps.append hsteps'⟩
  rw [hlater, hearlier, List.append_assoc]

theorem recorded (hevent : event.lock? = none) : m.KeepsOrder (m.recorded event) :=
  ⟨rfl, [event], rfl, .single (.other hevent)⟩

theorem contended (htaken : lock ∈ m.held) (hleaf : .swap ∉ m.held) :
    m.KeepsOrder (m.recorded (.contended lock)) :=
  ⟨rfl, [.contended lock], rfl, .single (.contended htaken hleaf)⟩

theorem around {inner : Machine} (hheld : inner.held = lock :: m.held)
    (htrace : inner.trace = event :: m.trace) (hstep : LockStep m.held event (lock :: m.held))
    (h : inner.KeepsOrder next) : m.KeepsOrder (next.unlocked lock) := by
  have hlast : next.held = lock :: m.held := h.held.trans hheld
  have hback : (next.unlocked lock).held = m.held := by
    show next.held.erase lock = m.held
    rw [hlast, List.erase_cons_head]
  rcases h.steps with ⟨recent, hrecent, hsteps⟩
  rw [hheld, hlast] at hsteps
  refine ⟨hback, .released lock :: (recent ++ [event]), ?_, ?_⟩
  · show .released lock :: next.trace = _
    rw [hrecent, htrace, List.cons_append, List.append_assoc]
    rfl
  · rw [hback]
    exact .cons ((LockSteps.single hstep).append hsteps) .released

end KeepsOrder
end Machine

/-! ## Routines that keep the order -/

namespace Routine

variable {α β : Type} {free under : List Lock} {r : Routine α} {lock : Lock}

/-- Started while none of the given locks is held, the routine keeps the order of locks and gives up
all that it took, however it ends. -/
def Ordered (free : List Lock) (r : Routine α) : Prop :=
  ∀ m, (∀ lock ∈ free, lock ∉ m.held) →
    Ends r m Anyhow (fun _ next => m.KeepsOrder next) fun _ next => m.KeepsOrder next

namespace Ordered

theorem pure (a : α) : Ordered free (Pure.pure a : Routine α) :=
  fun m _ => .refl m

theorem throw (stop : Stop) : Ordered free (MonadExcept.throw stop : Routine α) := by
  intro m _
  cases stop with
  | failed e => exact .refl m
  | aborted a => trivial

theorem bind {f : α → Routine β} (hr : Ordered free r) (hf : ∀ a, Ordered free (f a)) :
    Ordered free (r >>= f) := by
  intro m hfree
  rw [ends_bind]
  refine (hr m hfree).mono ?_ fun _ _ h => h
  intro a next hnext
  have hfree' : ∀ lock ∈ free, lock ∉ next.held := by
    rw [hnext.held]
    exact hfree
  exact (hf a next hfree').mono (fun _ _ => hnext.trans) fun _ _ => hnext.trans

theorem get : Ordered free (MonadState.get : Routine Machine) :=
  fun m _ => .refl m

theorem change {f : Machine → Machine} (hheld : ∀ m, (f m).held = m.held)
    (htrace : ∀ m, (f m).trace = m.trace) : Ordered free (modify f : Routine PUnit) :=
  fun m _ => .of_same (hheld m) (htrace m)

theorem update {f : Machine → Machine} {rest : Machine → PUnit → Routine β}
    (hheld : ∀ m, (f m).held = m.held) (htrace : ∀ m, (f m).trace = m.trace)
    (hrest : ∀ m u, Ordered free (rest m u)) :
    Ordered free (MonadState.get >>= fun m => set (f m) >>= rest m) := by
  intro m hfree
  have hset : m.KeepsOrder (f m) := .of_same (hheld m) (htrace m)
  have hfree' : ∀ lock ∈ free, lock ∉ (f m).held := by
    rw [hheld]
    exact hfree
  rw [ends_bind, ends_get, ends_bind, ends_set]
  exact (hrest m ⟨⟩ (f m) hfree').mono (fun _ _ => hset.trans) fun _ _ => hset.trans

theorem ofAbort (x : Except Abort α) : Ordered free (Routine.ofAbort x) := by
  cases x with
  | ok a => exact pure a
  | error a => exact throw _

theorem ofStop (x : Except Stop α) : Ordered free (Routine.ofStop x) := by
  cases x with
  | ok a => exact pure a
  | error s => exact throw s

theorem orFail (e : PagingError) (x : Option α) : Ordered free (Routine.orFail e x) := by
  cases x with
  | some a => exact pure a
  | none => exact throw _

theorem require (condition : Bool) (e : PagingError) :
    Ordered free (Routine.require condition e) := by
  cases condition with
  | true => exact pure ()
  | false => exact throw _

theorem ensure (rule : Bool) (a : Abort) : Ordered free (Routine.ensure rule a) := by
  cases rule with
  | true => exact pure ()
  | false => exact throw _

theorem when (condition : Bool) {body : Routine Unit} (h : Ordered free body) :
    Ordered free (Routine.when condition body) := by
  cases condition with
  | true => exact h
  | false => exact pure ()

theorem attempt (h : Ordered free r) : Ordered free (Routine.attempt r) := by
  intro m hfree
  rw [ends_attempt]
  exact h m hfree

theorem record {event : Event} (hevent : event.lock? = none) :
    Ordered free (Routine.record event) :=
  fun _ _ => .recorded hevent

theorem report (message : Message) : Ordered free (Routine.report message) :=
  record rfl

theorem report? (message : Option Message) : Ordered free (Routine.report? message) := by
  cases message with
  | some message => exact report message
  | none => exact pure ()

theorem refuse (message : Message) (e : PagingError) :
    Ordered free (Routine.refuse message e : Routine α) :=
  bind (report message) fun _ => throw _

/-- A lock may be waited for while the swap area is not locked, and the lock of a page only while
the ring is not locked either. -/
theorem withLock (hleaf : .swap ∈ free ∨ lock = .swap)
    (hordered : ∀ p va, lock = .page p va → .ring ∈ free)
    (hunder : ∀ other ∈ under, other ∈ free ∧ other ≠ lock) (h : Ordered under r) :
    Ordered free (Routine.withLock lock r) := by
  intro m hfree
  by_cases htaken : lock ∈ m.held
  · exact (ends_withLock_of_held htaken).mpr trivial
  · have hswap : .swap ∉ m.held := by
      rcases hleaf with hswap | rfl
      · exact hfree .swap hswap
      · exact htaken
    have hinner : ∀ other ∈ under, other ∉ (m.locked lock).held := by
      intro other hother hin
      rcases hunder other hother with ⟨hmem, hne⟩
      rcases List.mem_cons.mp hin with heq | hin
      · exact hne heq
      · exact hfree other hmem hin
    have hstep : LockStep m.held (.acquired lock) (lock :: m.held) :=
      .acquired htaken hswap fun p va heq => hfree .ring (hordered p va heq)
    rw [ends_withLock htaken]
    exact (h (m.locked lock) hinner).mono (fun _ _ => .around rfl rfl hstep)
      fun _ _ => .around rfl rfl hstep

theorem withFreeLock {r : Routine (Option α)} (hleaf : .swap ∈ free) (h : Ordered [] r) :
    Ordered free (Routine.withFreeLock lock r) := by
  intro m hfree
  rw [ends_withFreeLock]
  split
  · rename_i htaken
    exact .contended htaken (hfree .swap hleaf)
  · rename_i htaken
    have hstep : LockStep m.held (.seized lock) (lock :: m.held) :=
      .seized htaken (hfree .swap hleaf)
    exact (h (m.seized lock) nofun).mono (fun _ _ => .around rfl rfl hstep)
      fun _ _ => .around rfl rfl hstep

theorem withPageLock {p : Nat} {va : Vaddr} (h : Ordered [.ring, .swap] r) :
    Ordered [.ring, .swap] (Routine.withLock (.page p va) r) :=
  withLock (by simp) (by simp) (by simp) h

theorem withRingLock (hswap : .swap ∈ free) (h : Ordered [.swap] r) :
    Ordered free (Routine.withLock .ring r) :=
  withLock (Or.inl hswap) (by simp) (by simpa using hswap) h

theorem withSwapLock (h : Ordered [] r) : Ordered free (Routine.withLock .swap r) :=
  withLock (Or.inr rfl) (by simp) (by simp) h

end Ordered
end Routine
end DemandPaging
