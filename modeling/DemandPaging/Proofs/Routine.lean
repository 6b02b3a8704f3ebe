import DemandPaging.Machine.Routine

/-!
# How routines end

`Routine.Ends` says of a routine, started in a given state, that each way in which it can end
meets a condition of its own: a result, a failure, and an abort. It is computed along the text of
a routine by the rules below, and a lemma about a routine is used through `Ends.mono`.
-/

namespace DemandPaging
namespace Routine

variable {α β : Type} {m : Machine} {fatal : Abort → Prop}

/-- Each end of the routine meets its condition. -/
def Ends (r : Routine α) (m : Machine) (fatal : Abort → Prop) (done : α → Machine → Prop)
    (failed : PagingError → Machine → Prop) : Prop :=
  match r m with
  | .ok a next => done a next
  | .error (.failed e) next => failed e next
  | .error (.aborted a) _ => fatal a

variable {done : α → Machine → Prop} {failed : PagingError → Machine → Prop}

/-! ## Weakening -/

theorem Ends.mono {r : Routine α} {done' : α → Machine → Prop}
    {failed' : PagingError → Machine → Prop} (h : Ends r m fatal done failed)
    (hdone : ∀ a next, done a next → done' a next)
    (hfailed : ∀ e next, failed e next → failed' e next) : Ends r m fatal done' failed' := by
  unfold Ends at h ⊢
  split at h
  · exact hdone _ _ h
  · exact hfailed _ _ h
  · exact h

theorem Ends.and {r : Routine α} {fatal' : Abort → Prop} {done' : α → Machine → Prop}
    {failed' : PagingError → Machine → Prop} (h : Ends r m fatal done failed)
    (h' : Ends r m fatal' done' failed') :
    Ends r m fatal (fun a next => done a next ∧ done' a next)
      fun e next => failed e next ∧ failed' e next := by
  unfold Ends at *
  cases hend : r m with
  | ok a next =>
      rw [hend] at h h'
      exact ⟨h, h'⟩
  | error stop next =>
      rw [hend] at h h'
      cases stop with
      | failed e => exact ⟨h, h'⟩
      | aborted a => exact h

theorem Ends.exists_result {r : Routine α}
    (h : Ends r m (fun _ => False) done fun _ _ => False) :
    ∃ a next, r m = .ok a next ∧ done a next := by
  unfold Ends at h
  cases hend : r m with
  | ok a next =>
      rw [hend] at h
      exact ⟨a, next, rfl, h⟩
  | error stop next =>
      rw [hend] at h
      cases stop with
      | failed e => exact h.elim
      | aborted a => exact h.elim

theorem Ends.of_ok {r : Routine α} {a : α} {next : Machine} (h : Ends r m fatal done failed)
    (hend : r m = .ok a next) : done a next := by
  unfold Ends at h
  rw [hend] at h
  exact h

theorem Ends.of_failed {r : Routine α} {e : PagingError} {next : Machine}
    (h : Ends r m fatal done failed) (hend : r m = .error (.failed e) next) : failed e next := by
  unfold Ends at h
  rw [hend] at h
  exact h

theorem Ends.of_aborted {r : Routine α} {a : Abort} {next : Machine}
    (h : Ends r m fatal done failed) (hend : r m = .error (.aborted a) next) : fatal a := by
  unfold Ends at h
  rw [hend] at h
  exact h

/-! ## Results and stops -/

@[simp]
theorem ends_pure {a : α} : Ends (pure a : Routine α) m fatal done failed ↔ done a m := Iff.rfl

@[simp]
theorem ends_throw_failed {e : PagingError} :
    Ends (throw (.failed e) : Routine α) m fatal done failed ↔ failed e m := Iff.rfl

@[simp]
theorem ends_throw_aborted {a : Abort} :
    Ends (throw (.aborted a) : Routine α) m fatal done failed ↔ fatal a := Iff.rfl

@[simp]
theorem ends_fail {e : PagingError} :
    Ends (fail e : Routine α) m fatal done failed ↔ failed e m := Iff.rfl

@[simp]
theorem ends_abort {a : Abort} :
    Ends (abort a : Routine α) m fatal done failed ↔ fatal a := Iff.rfl

@[simp]
theorem ends_ofAbort_ok {a : α} :
    Ends (ofAbort (.ok a)) m fatal done failed ↔ done a m := Iff.rfl

@[simp]
theorem ends_ofStop_ok {a : α} :
    Ends (ofStop (.ok a)) m fatal done failed ↔ done a m := Iff.rfl

@[simp]
theorem ends_orFail_some {e : PagingError} {a : α} :
    Ends (orFail e (some a)) m fatal done failed ↔ done a m := Iff.rfl

@[simp]
theorem ends_orFail_none {e : PagingError} :
    Ends (orFail e (none : Option α)) m fatal done failed ↔ failed e m := Iff.rfl

/-! ## Steps -/

@[simp]
theorem ends_bind {x : Routine α} {f : α → Routine β} {done : β → Machine → Prop} :
    Ends (x >>= f) m fatal done failed ↔
      Ends x m fatal (fun a next => Ends (f a) next fatal done failed) failed := by
  show (match EStateM.bind x f m with
    | .ok a next => done a next
    | .error (.failed e) next => failed e next
    | .error (.aborted a) _ => fatal a) ↔ _
  unfold Ends EStateM.bind
  cases x m with
  | ok a next => rfl
  | error s next => cases s <;> rfl

theorem bind_eq_ok_iff {x : Routine α} {f : α → Routine β} {b : β} {last : Machine} :
    (x >>= f) m = .ok b last ↔ ∃ a next, x m = .ok a next ∧ f a next = .ok b last := by
  show (EStateM.bind x f m) = _ ↔ _
  unfold EStateM.bind
  cases x m with
  | ok a next =>
      constructor
      · exact fun hlast => ⟨a, next, rfl, hlast⟩
      · rintro ⟨_, _, ⟨⟩, hlast⟩
        exact hlast
  | error s next =>
      constructor
      · exact fun hlast => by contradiction
      · rintro ⟨_, _, ⟨⟩, -⟩

theorem bind_eq_error_iff {x : Routine α} {f : α → Routine β} {stop : Stop} {last : Machine} :
    (x >>= f) m = .error stop last ↔
      x m = .error stop last ∨ ∃ a next, x m = .ok a next ∧ f a next = .error stop last := by
  show (EStateM.bind x f m) = _ ↔ _
  unfold EStateM.bind
  cases x m with
  | ok a next =>
      constructor
      · exact fun hlast => Or.inr ⟨a, next, rfl, hlast⟩
      · rintro (hstop | ⟨_, _, ⟨⟩, hlast⟩)
        · contradiction
        · exact hlast
  | error s next =>
      constructor
      · rintro ⟨⟩
        exact Or.inl rfl
      · rintro (hstop | ⟨_, _, ⟨⟩, -⟩)
        cases hstop
        rfl

@[simp]
theorem ends_get {done : Machine → Machine → Prop} :
    Ends (get : Routine Machine) m fatal done failed ↔ done m m := Iff.rfl

@[simp]
theorem ends_set {next : Machine} {done : PUnit → Machine → Prop} :
    Ends (set next : Routine PUnit) m fatal done failed ↔ done ⟨⟩ next := Iff.rfl

@[simp]
theorem ends_modify {f : Machine → Machine} {done : PUnit → Machine → Prop} :
    Ends (modify f : Routine PUnit) m fatal done failed ↔ done ⟨⟩ (f m) := Iff.rfl

@[simp]
theorem ends_attempt {r : Routine α} {done : Except PagingError α → Machine → Prop} :
    Ends (attempt r) m fatal done failed ↔
      Ends r m fatal (fun a next => done (.ok a) next) (fun e next => done (.error e) next) := by
  unfold Ends attempt
  cases r m with
  | ok a next => rfl
  | error s next => cases s <;> rfl

@[simp]
theorem ends_require {condition : Bool} {e : PagingError} {done : Unit → Machine → Prop} :
    Ends (require condition e) m fatal done failed ↔
      if condition then done () m else failed e m := by
  cases condition <;> rfl

@[simp]
theorem ends_ensure {rule : Bool} {a : Abort} {done : Unit → Machine → Prop} :
    Ends (ensure rule a) m fatal done failed ↔ if rule then done () m else fatal a := by
  cases rule <;> rfl

@[simp]
theorem ends_when {condition : Bool} {body : Routine Unit} {done : Unit → Machine → Prop} :
    Ends (when condition body) m fatal done failed ↔
      if condition then Ends body m fatal done failed else done () m := by
  cases condition <;> rfl

/-! ## Reports -/

@[simp]
theorem ends_record {event : Event} {done : Unit → Machine → Prop} :
    Ends (record event) m fatal done failed ↔ done () (m.recorded event) := Iff.rfl

@[simp]
theorem ends_report {message : Message} {done : Unit → Machine → Prop} :
    Ends (report message) m fatal done failed ↔ done () (m.recorded (.reported message)) :=
  Iff.rfl

@[simp]
theorem ends_refuse {message : Message} {e : PagingError} :
    Ends (refuse message e : Routine α) m fatal done failed ↔
      failed e (m.recorded (.reported message)) := Iff.rfl

end Routine

/-! ## Locks -/

namespace Machine

def locked (m : Machine) (lock : Lock) : Machine :=
  { m with held := lock :: m.held, trace := .acquired lock :: m.trace }

def seized (m : Machine) (lock : Lock) : Machine :=
  { m with held := lock :: m.held, trace := .seized lock :: m.trace }

def unlocked (m : Machine) (lock : Lock) : Machine :=
  { m with held := m.held.erase lock, trace := .released lock :: m.trace }

end Machine

namespace Routine

variable {α : Type} {m : Machine} {fatal : Abort → Prop} {done : α → Machine → Prop}
  {failed : PagingError → Machine → Prop}

@[simp]
theorem ends_releasing {lock : Lock} {body : Routine α} :
    Ends (releasing lock body) m fatal done failed ↔
      Ends body m fatal (fun a next => done a (next.unlocked lock))
        (fun e next => failed e (next.unlocked lock)) := by
  unfold releasing
  rw [ends_bind, ends_attempt]
  rfl

theorem ends_withLock {lock : Lock} {body : Routine α} (hfree : lock ∉ m.held) :
    Ends (withLock lock body) m fatal done failed ↔
      Ends body (m.locked lock) fatal (fun a next => done a (next.unlocked lock))
        (fun e next => failed e (next.unlocked lock)) := by
  unfold withLock acquire hold
  simp only [ends_bind, ends_get, ends_ensure, ends_modify, ends_record, ends_releasing]
  rw [if_pos (decide_eq_true hfree)]
  rfl

theorem ends_withFreeLock {lock : Lock} {body : Routine (Option α)}
    {done : Option α → Machine → Prop} :
    Ends (withFreeLock lock body) m fatal done failed ↔
      if lock ∈ m.held then done none (m.recorded (.contended lock))
      else Ends body (m.seized lock) fatal (fun a next => done a (next.unlocked lock))
        (fun e next => failed e (next.unlocked lock)) := by
  unfold withFreeLock hold
  rw [ends_bind, ends_get]
  split
  · rfl
  · simp only [ends_bind, ends_modify, ends_record, ends_releasing]
    rfl

theorem ends_withLock_of_held {lock : Lock} {body : Routine α} (hheld : lock ∈ m.held) :
    Ends (withLock lock body) m fatal done failed ↔ fatal (.selfDeadlock lock) := by
  unfold withLock acquire
  simp only [ends_bind, ends_get, ends_ensure]
  rw [if_neg (by simpa using hheld)]

/-- When that abort does not matter, it does not matter either whether the lock is free. -/
theorem ends_withLock_of_wait {lock : Lock} {body : Routine α}
    (hwait : lock ∈ m.held → fatal (.selfDeadlock lock))
    (h : Ends body (m.locked lock) fatal (fun a next => done a (next.unlocked lock))
      fun e next => failed e (next.unlocked lock)) :
    Ends (withLock lock body) m fatal done failed := by
  by_cases hheld : lock ∈ m.held
  · exact (ends_withLock_of_held hheld).mpr (hwait hheld)
  · exact (ends_withLock hheld).mpr h

def Anyhow : Abort → Prop :=
  fun _ => True

theorem ends_withLock_of {lock : Lock} {body : Routine α}
    (h : Ends body (m.locked lock) Anyhow (fun a next => done a (next.unlocked lock))
      fun e next => failed e (next.unlocked lock)) :
    Ends (withLock lock body) m Anyhow done failed :=
  ends_withLock_of_wait (fun _ => trivial) h

end Routine

/-! ## What an abort leaves -/

namespace Routine

variable {α β : Type} {r : Routine α} {m : Machine} {left : Machine → Prop}

/-- If the routine aborts, the machine that it leaves meets a condition. -/
def Breaks (r : Routine α) (m : Machine) (left : Machine → Prop) : Prop :=
  ∀ a last, r m = .error (.aborted a) last → left last

theorem ends_anyhow {done : α → Machine → Prop} {failed : PagingError → Machine → Prop}
    (hdone : ∀ a next, done a next) (hfailed : ∀ e next, failed e next) :
    Ends r m Anyhow done failed := by
  unfold Ends
  split
  · exact hdone _ _
  · exact hfailed _ _
  · trivial

theorem Ends.anyhow {fatal : Abort → Prop} {done : α → Machine → Prop}
    {failed : PagingError → Machine → Prop} (h : Ends r m fatal done failed) :
    Ends r m Anyhow done failed :=
  ((ends_anyhow (fun _ _ => trivial) fun _ _ => trivial).and h).mono (fun _ _ hend => hend.2)
    fun _ _ hend => hend.2

namespace Breaks

theorem mono {left' : Machine → Prop} (h : Breaks r m left)
    (hleft : ∀ last, left last → left' last) : Breaks r m left' :=
  fun a last hend => hleft last (h a last hend)

theorem of_ends {done : α → Machine → Prop} {failed : PagingError → Machine → Prop}
    (h : Ends r m (fun _ => False) done failed) : Breaks r m left :=
  fun _ _ hend => (h.of_aborted hend).elim

theorem pure (a : α) : Breaks (Pure.pure a : Routine α) m left := by
  intro a last hend
  cases hend

theorem fail (e : PagingError) : Breaks (Routine.fail e : Routine α) m left := by
  intro a last hend
  cases hend

theorem report (message : Message) : Breaks (Routine.report message) m left := by
  intro a last hend
  cases hend

theorem refuse (message : Message) (e : PagingError) :
    Breaks (Routine.refuse message e : Routine α) m left := by
  intro a last hend
  cases hend

theorem abort (a : Abort) (h : left m) : Breaks (Routine.abort a : Routine α) m left := by
  intro a last hend
  cases hend
  exact h

theorem bind {f : α → Routine β} (h : Breaks r m left)
    (hf : Ends r m Anyhow (fun a next => Breaks (f a) next left) fun _ _ => True) :
    Breaks (r >>= f) m left := by
  intro a last hend
  have hbind : EStateM.bind r f m = .error (.aborted a) last := hend
  unfold EStateM.bind at hbind
  cases hfirst : r m with
  | ok b next =>
      rw [hfirst] at hbind
      exact hf.of_ok hfirst a last hbind
  | error stop next =>
      rw [hfirst] at hbind
      cases hbind
      exact h a last hfirst

theorem after {f : α → Routine β}
    (h : Ends r m (fun _ => False) (fun a next => Breaks (f a) next left) fun _ _ => True) :
    Breaks (r >>= f) m left :=
  (of_ends h).bind h.anyhow

theorem attempt (h : Breaks r m left) : Breaks (Routine.attempt r) m left := by
  intro a last hend
  unfold Routine.attempt at hend
  cases hbody : r m with
  | ok b next =>
      rw [hbody] at hend
      contradiction
  | error stop next =>
      rw [hbody] at hend
      cases stop with
      | failed e => contradiction
      | aborted a' =>
          cases hend
          exact h a last hbody

/-- The lock is free, and it is held when the body aborts. -/
theorem withLock {lock : Lock} (hfree : lock ∉ m.held) (h : Breaks r (m.locked lock) left) :
    Breaks (Routine.withLock lock r) m left := by
  have hreleased : ∀ (result : Except PagingError α) (next : Machine),
      Breaks (release lock >>= fun _ => ofError result) next left := by
    intro result next
    refine of_ends (?_ : Ends _ next _ (fun _ _ => True) fun _ _ => True)
    cases result <;> trivial
  have hbody : Breaks (releasing lock r) (m.locked lock) left := by
    refine h.attempt.bind (ends_attempt.mpr (ends_anyhow ?_ ?_))
    · exact fun b => hreleased (.ok b)
    · exact fun e => hreleased (.error e)
  unfold Routine.withLock acquire hold
  apply after
  simp only [ends_bind, ends_get, ends_ensure, ends_modify, ends_record]
  rw [if_pos (decide_eq_true hfree)]
  exact hbody

end Breaks
end Routine

/-! ## What a routine keeps -/

/-- A relation between machines that does not see locks and reports. -/
structure Machine.Oblivious (R : Machine → Machine → Prop) : Prop where
  refl : ∀ m, R m m
  trans : ∀ l m n, R l m → R m n → R l n
  locked : ∀ m lock, R m (m.locked lock)
  seized : ∀ m lock, R m (m.seized lock)
  unlocked : ∀ m lock, R m (m.unlocked lock)
  contended : ∀ m lock, R m (m.recorded (.contended lock))
  reported : ∀ m message, R m (m.recorded (.reported message))

namespace Routine

variable {α β : Type} {R : Machine → Machine → Prop}

/-- However the routine ends, the machine that it leaves is related to the one that it found. -/
def Keeps (R : Machine → Machine → Prop) (r : Routine α) : Prop :=
  ∀ m, Ends r m Anyhow (fun _ next => R m next) fun _ next => R m next

namespace Keeps

theorem pure (hR : Machine.Oblivious R) (a : α) : Keeps R (Pure.pure a : Routine α) :=
  fun m => hR.refl m

theorem throw (hR : Machine.Oblivious R) (stop : Stop) :
    Keeps R (MonadExcept.throw stop : Routine α) := by
  intro m
  cases stop with
  | failed e => exact hR.refl m
  | aborted a => trivial

theorem bind (hR : Machine.Oblivious R) {x : Routine α} {f : α → Routine β} (hx : Keeps R x)
    (hf : ∀ a, Keeps R (f a)) : Keeps R (x >>= f) := by
  intro m
  rw [ends_bind]
  refine (hx m).mono ?_ fun _ _ h => h
  intro a next hnext
  exact (hf a next).mono (fun _ last => hR.trans m next last hnext)
    fun _ last => hR.trans m next last hnext

theorem get (hR : Machine.Oblivious R) : Keeps R (MonadState.get : Routine Machine) :=
  fun m => hR.refl m

theorem ofAbort (hR : Machine.Oblivious R) (x : Except Abort α) : Keeps R (Routine.ofAbort x) := by
  intro m
  cases x with
  | ok a => exact hR.refl m
  | error a => trivial

theorem ensure (hR : Machine.Oblivious R) (rule : Bool) (a : Abort) :
    Keeps R (Routine.ensure rule a) := by
  cases rule with
  | true => exact pure hR ()
  | false => exact fun _ => trivial

theorem require (hR : Machine.Oblivious R) (condition : Bool) (e : PagingError) :
    Keeps R (Routine.require condition e) := by
  cases condition with
  | true => exact pure hR ()
  | false => exact hR.refl

theorem orFail (hR : Machine.Oblivious R) (e : PagingError) (x : Option α) :
    Keeps R (Routine.orFail e x) := by
  cases x with
  | some a => exact pure hR a
  | none => exact hR.refl

theorem report (hR : Machine.Oblivious R) (message : Message) : Keeps R (Routine.report message) :=
  fun m => hR.reported m message

theorem refuse (hR : Machine.Oblivious R) (message : Message) (e : PagingError) :
    Keeps R (Routine.refuse message e : Routine α) :=
  fun m => hR.reported m message

theorem report? (hR : Machine.Oblivious R) (message : Option Message) :
    Keeps R (Routine.report? message) := by
  cases message with
  | some message => exact report hR message
  | none => exact pure hR ()

theorem when (condition : Bool) {body : Routine Unit} (hR : Machine.Oblivious R)
    (h : Keeps R body) : Keeps R (Routine.when condition body) := by
  cases condition with
  | true => exact h
  | false => exact pure hR ()

theorem attempt {x : Routine α} (hx : Keeps R x) : Keeps R (Routine.attempt x) := by
  intro m
  rw [ends_attempt]
  exact hx m

theorem withLock (hR : Machine.Oblivious R) {lock : Lock} {x : Routine α} (hx : Keeps R x) :
    Keeps R (Routine.withLock lock x) := by
  intro m
  apply ends_withLock_of
  have hopened : ∀ next, R (m.locked lock) next → R m (next.unlocked lock) := by
    intro next hnext
    exact hR.trans m next _ (hR.trans m _ next (hR.locked m lock) hnext) (hR.unlocked next lock)
  exact (hx (m.locked lock)).mono (fun _ => hopened) fun _ => hopened

theorem withFreeLock (hR : Machine.Oblivious R) {lock : Lock} {x : Routine (Option α)}
    (hx : Keeps R x) : Keeps R (Routine.withFreeLock lock x) := by
  intro m
  have hopened : ∀ next, R (m.seized lock) next → R m (next.unlocked lock) := by
    intro next hnext
    exact hR.trans m next _ (hR.trans m _ next (hR.seized m lock) hnext) (hR.unlocked next lock)
  rw [ends_withFreeLock]
  split
  · exact hR.contended m lock
  · exact (hx (m.seized lock)).mono (fun _ => hopened) fun _ => hopened

end Keeps
end Routine
end DemandPaging
