import DemandPaging.Proofs.Routine

/-!
# Runs with two pools

`Routine.Agree` says that a routine ends in the same way with another pool in the place of its own:
with the same answer, the same failure or the same abort, and in a state that differs in the pool
alone. What holds of the two pools afterwards depends on the end. The rules compute this along the
text of a routine.
-/

namespace DemandPaging

def Machine.withPool (m : Machine) (q : FramePool) : Machine :=
  { m with pool := q }

namespace Routine

variable {α β : Type} {m : Machine} {q : FramePool}

/-- Run with either pool, the two routines end alike. -/
def Agree (r r' : Routine α) (m : Machine) (q : FramePool)
    (done : α → Machine → FramePool → Prop) (failed : PagingError → Machine → FramePool → Prop) :
    Prop :=
  match r m with
  | .ok a next => ∃ q', r' (m.withPool q) = .ok a (next.withPool q') ∧ done a next q'
  | .error (.failed e) next =>
      ∃ q', r' (m.withPool q) = .error (.failed e) (next.withPool q') ∧ failed e next q'
  | .error (.aborted a) next => ∃ q', r' (m.withPool q) = .error (.aborted a) (next.withPool q')

namespace Agree

variable {r r' : Routine α} {done : α → Machine → FramePool → Prop}
  {failed : PagingError → Machine → FramePool → Prop}

/-! ## Weakening -/

theorem mono {done' : α → Machine → FramePool → Prop}
    {failed' : PagingError → Machine → FramePool → Prop} (h : Agree r r' m q done failed)
    (hdone : ∀ a next q', done a next q' → done' a next q')
    (hfailed : ∀ e next q', failed e next q' → failed' e next q') :
    Agree r r' m q done' failed' := by
  unfold Agree at h ⊢
  split at h
  · rcases h with ⟨q', hend, h⟩
    exact ⟨q', hend, hdone _ _ _ h⟩
  · rcases h with ⟨q', hend, h⟩
    exact ⟨q', hend, hfailed _ _ _ h⟩
  · exact h

theorem and_ends {ended : α → Machine → Prop} {refused : PagingError → Machine → Prop}
    (h : Agree r r' m q done failed) (hends : Ends r m Anyhow ended refused) :
    Agree r r' m q (fun a next q' => done a next q' ∧ ended a next)
      fun e next q' => failed e next q' ∧ refused e next := by
  unfold Agree at h ⊢
  unfold Ends at hends
  cases hr : r m with
  | ok a next =>
      rw [hr] at h hends
      rcases h with ⟨q', hend, h⟩
      exact ⟨q', hend, h, hends⟩
  | error stop next =>
      rw [hr] at h hends
      cases stop with
      | failed e =>
          rcases h with ⟨q', hend, h⟩
          exact ⟨q', hend, h, hends⟩
      | aborted a => exact h

theorem and_ends_other {ended : α → Machine → Prop} {refused : PagingError → Machine → Prop}
    (h : Agree r r' m q done failed) (hends : Ends r' (m.withPool q) Anyhow ended refused) :
    Agree r r' m q (fun a next q' => done a next q' ∧ ended a (next.withPool q'))
      fun e next q' => failed e next q' ∧ refused e (next.withPool q') := by
  unfold Agree at h ⊢
  cases hr : r m with
  | ok a next =>
      rw [hr] at h
      rcases h with ⟨q', hend, h⟩
      exact ⟨q', hend, h, hends.of_ok hend⟩
  | error stop next =>
      rw [hr] at h
      cases stop with
      | failed e =>
          rcases h with ⟨q', hend, h⟩
          exact ⟨q', hend, h, hends.of_failed hend⟩
      | aborted a => exact h

/-! ## Results and stops -/

theorem pure {a : α} (h : done a m q) : Agree (pure a) (Pure.pure a) m q done failed :=
  ⟨q, rfl, h⟩

theorem fail {e : PagingError} (h : failed e m q) :
    Agree (Routine.fail e : Routine α) (Routine.fail e) m q done failed :=
  ⟨q, rfl, h⟩

theorem abort (a : Abort) :
    Agree (Routine.abort a : Routine α) (Routine.abort a) m q done failed :=
  ⟨q, rfl⟩

theorem throw {stop : Stop} (h : ∀ e, stop = .failed e → failed e m q) :
    Agree (MonadExcept.throw stop : Routine α) (MonadExcept.throw stop) m q done failed := by
  cases stop with
  | failed e => exact ⟨q, rfl, h e rfl⟩
  | aborted a => exact ⟨q, rfl⟩

/-! ## Steps -/

theorem bind {f f' : α → Routine β} {done' : β → Machine → FramePool → Prop}
    (h : Agree r r' m q done failed)
    (hf : ∀ a next q', done a next q' → Agree (f a) (f' a) next q' done' failed) :
    Agree (r >>= f) (r' >>= f') m q done' failed := by
  have hfirst : (r >>= f) m = EStateM.bind r f m := rfl
  have hsecond : (r' >>= f') (m.withPool q) = EStateM.bind r' f' (m.withPool q) := rfl
  unfold Agree at h ⊢
  rw [hfirst, hsecond]
  unfold EStateM.bind
  cases hr : r m with
  | ok a next =>
      rw [hr] at h
      rcases h with ⟨q', hend, h⟩
      rw [hend]
      exact hf a next q' h
  | error stop next =>
      rw [hr] at h
      cases stop with
      | failed e =>
          rcases h with ⟨q', hend, h⟩
          rw [hend]
          exact ⟨q', rfl, h⟩
      | aborted a =>
          rcases h with ⟨q', hend⟩
          rw [hend]
          exact ⟨q', rfl⟩

theorem bind_ends {f f' : α → Routine β} {done' : β → Machine → FramePool → Prop}
    {ended : α → Machine → Prop} {refused : PagingError → Machine → Prop}
    (h : Agree r r' m q done failed) (hends : Ends r m Anyhow ended refused)
    (hf : ∀ a next q', done a next q' → ended a next →
      Agree (f a) (f' a) next q' done' failed) :
    Agree (r >>= f) (r' >>= f') m q done' failed :=
  bind ((h.and_ends hends).mono (fun _ _ _ hdone => hdone) fun _ _ _ hfailed => hfailed.1)
    fun a next q' hdone => hf a next q' hdone.1 hdone.2

theorem get {k k' : Machine → Routine α}
    (h : Agree (k m) (k' (m.withPool q)) m q done failed) :
    Agree (MonadState.get >>= k) (MonadState.get >>= k') m q done failed :=
  h

theorem require_bind {condition : Bool} {e : PagingError} {k k' : Unit → Routine β}
    {done : β → Machine → FramePool → Prop}
    (h : condition = true → Agree (k ()) (k' ()) m q done failed)
    (hfailed : condition = false → failed e m q) :
    Agree (Routine.require condition e >>= k) (Routine.require condition e >>= k') m q done
      failed := by
  cases condition with
  | true => exact h rfl
  | false => exact bind (fail (hfailed rfl)) fun _ _ _ hnone => hnone

theorem orFail_bind {e : PagingError} {x : Option α} {k k' : α → Routine β}
    {done : β → Machine → FramePool → Prop}
    (h : ∀ a, x = some a → Agree (k a) (k' a) m q done failed)
    (hfailed : x = none → failed e m q) :
    Agree (Routine.orFail e x >>= k) (Routine.orFail e x >>= k') m q done failed := by
  cases x with
  | some a => exact h a rfl
  | none => exact bind (fail (hfailed rfl)) fun _ _ _ hnone => hnone

theorem ofStop_bind {x : Except Stop α} {k k' : α → Routine β}
    {done : β → Machine → FramePool → Prop}
    (h : ∀ a, x = .ok a → Agree (k a) (k' a) m q done failed)
    (hfailed : ∀ e, x = .error (.failed e) → failed e m q) :
    Agree (Routine.ofStop x >>= k) (Routine.ofStop x >>= k') m q done failed := by
  cases x with
  | ok a => exact h a rfl
  | error stop =>
      exact bind (throw fun e he => hfailed e (congrArg Except.error he)) fun _ _ _ hnone => hnone

theorem change {f f' : Machine → Machine} {done : PUnit → Machine → FramePool → Prop}
    (q' : FramePool) (hchange : f' (m.withPool q) = (f m).withPool q')
    (h : done ⟨⟩ (f m) q') :
    Agree (modify f : Routine PUnit) (modify f') m q done failed :=
  ⟨q', congrArg _ hchange, h⟩

theorem set {next next' : Machine} {done : PUnit → Machine → FramePool → Prop} (q' : FramePool)
    (hnext : next' = next.withPool q') (h : done ⟨⟩ next q') :
    Agree (MonadStateOf.set next : Routine PUnit) (MonadStateOf.set next') m q done failed :=
  ⟨q', congrArg _ hnext, h⟩

theorem attempt {done : Except PagingError α → Machine → FramePool → Prop}
    (h : Agree r r' m q (fun a next q' => done (.ok a) next q')
      fun e next q' => done (.error e) next q') :
    Agree (Routine.attempt r) (Routine.attempt r') m q done failed := by
  unfold Agree at h ⊢
  unfold Routine.attempt
  cases hr : r m with
  | ok a next =>
      rw [hr] at h
      rcases h with ⟨q', hend, h⟩
      exact ⟨q', by rw [hend], h⟩
  | error stop next =>
      rw [hr] at h
      cases stop with
      | failed e =>
          rcases h with ⟨q', hend, h⟩
          exact ⟨q', by rw [hend], h⟩
      | aborted a =>
          rcases h with ⟨q', hend⟩
          exact ⟨q', by rw [hend]⟩

theorem ofAbort {x : Except Abort α} (h : ∀ a, x = .ok a → done a m q) :
    Agree (Routine.ofAbort x) (Routine.ofAbort x) m q done failed := by
  cases x with
  | ok a => exact pure (h a rfl)
  | error a => exact abort a

theorem ofStop {x : Except Stop α} (h : ∀ a, x = .ok a → done a m q)
    (hstop : ∀ e, x = .error (.failed e) → failed e m q) :
    Agree (Routine.ofStop x) (Routine.ofStop x) m q done failed := by
  cases x with
  | ok a => exact pure (h a rfl)
  | error stop => exact throw fun e he => hstop e (congrArg Except.error he)

theorem orFail {e : PagingError} {x : Option α} (h : ∀ a, x = some a → done a m q)
    (hnone : x = none → failed e m q) :
    Agree (Routine.orFail e x) (Routine.orFail e x) m q done failed := by
  cases x with
  | some a => exact pure (h a rfl)
  | none => exact fail (hnone rfl)

theorem require {condition : Bool} {e : PagingError} {done : Unit → Machine → FramePool → Prop}
    (h : condition = true → done () m q) (hfailed : condition = false → failed e m q) :
    Agree (Routine.require condition e) (Routine.require condition e) m q done failed := by
  cases condition with
  | true => exact pure (h rfl)
  | false => exact fail (hfailed rfl)

theorem ensure {rule : Bool} {a : Abort} {done : Unit → Machine → FramePool → Prop}
    (h : rule = true → done () m q) :
    Agree (Routine.ensure rule a) (Routine.ensure rule a) m q done failed := by
  cases rule with
  | true => exact pure (h rfl)
  | false => exact abort a

theorem when {condition : Bool} {body body' : Routine Unit}
    {done : Unit → Machine → FramePool → Prop}
    (h : condition = true → Agree body body' m q done failed)
    (hskipped : condition = false → done () m q) :
    Agree (Routine.when condition body) (Routine.when condition body') m q done failed := by
  cases condition with
  | true => exact h rfl
  | false => exact pure (hskipped rfl)

/-! ## Reports and locks -/

theorem record {event : Event} {done : Unit → Machine → FramePool → Prop}
    (h : done () (m.recorded event) q) :
    Agree (Routine.record event) (Routine.record event) m q done failed :=
  ⟨q, rfl, h⟩

theorem report {message : Message} {done : Unit → Machine → FramePool → Prop}
    (h : done () (m.recorded (.reported message)) q) :
    Agree (Routine.report message) (Routine.report message) m q done failed :=
  record h

theorem refuse {message : Message} {e : PagingError}
    (h : failed e (m.recorded (.reported message)) q) :
    Agree (Routine.refuse message e : Routine α) (Routine.refuse message e) m q done failed :=
  ⟨q, rfl, h⟩

theorem attempt_bind {k k' : Except PagingError α → Routine β}
    {done : β → Machine → FramePool → Prop}
    (h : Agree r r' m q
      (fun a next q' => Agree (k (.ok a)) (k' (.ok a)) next q' done failed)
      fun e next q' => Agree (k (.error e)) (k' (.error e)) next q' done failed) :
    Agree (Routine.attempt r >>= k) (Routine.attempt r' >>= k') m q done failed := by
  have htried : Agree (Routine.attempt r) (Routine.attempt r') m q
      (fun result next q' => Agree (k result) (k' result) next q' done failed) failed := attempt h
  exact bind htried fun _ _ _ hrest => hrest

theorem releasing {lock : Lock}
    (h : Agree r r' m q (fun a next q' => done a (next.unlocked lock) q')
      fun e next q' => failed e (next.unlocked lock) q') :
    Agree (Routine.releasing lock r) (Routine.releasing lock r') m q done failed := by
  refine attempt_bind (h.mono ?_ ?_)
  · exact fun a next q' hdone => ⟨q', rfl, hdone⟩
  · exact fun e next q' hfailed => ⟨q', rfl, hfailed⟩

theorem withLock {lock : Lock}
    (h : Agree r r' (m.locked lock) q (fun a next q' => done a (next.unlocked lock) q')
      fun e next q' => failed e (next.unlocked lock) q') :
    Agree (Routine.withLock lock r) (Routine.withLock lock r') m q done failed := by
  have hacquired : Agree (acquire lock) (acquire lock) m q
      (fun _ next q' => next = m.locked lock ∧ q' = q) failed := by
    have hensured : Agree (Routine.ensure (lock ∉ m.held) (.selfDeadlock lock))
        (Routine.ensure (lock ∉ m.held) (.selfDeadlock lock)) m q
        (fun _ next q' => next = m ∧ q' = q) failed := ensure fun _ => ⟨rfl, rfl⟩
    refine get (bind hensured ?_)
    rintro _ _ _ ⟨rfl, rfl⟩
    exact ⟨_, rfl, rfl, rfl⟩
  refine bind hacquired ?_
  rintro _ _ _ ⟨rfl, rfl⟩
  exact releasing h

theorem withFreeLock {lock : Lock} {r r' : Routine (Option α)}
    {done : Option α → Machine → FramePool → Prop}
    (h : Agree r r' (m.seized lock) q (fun a next q' => done a (next.unlocked lock) q')
      fun e next q' => failed e (next.unlocked lock) q')
    (hheld : lock ∈ m.held → done none (m.recorded (.contended lock)) q) :
    Agree (Routine.withFreeLock lock r) (Routine.withFreeLock lock r') m q done failed := by
  refine get ?_
  show Agree (if lock ∈ m.held then _ else _) (if lock ∈ m.held then _ else _) m q done failed
  split
  · rename_i hin
    exact ⟨q, rfl, hheld hin⟩
  · have hheld : Agree (hold lock) (hold lock) m q
        (fun _ next q' => next = { m with held := lock :: m.held } ∧ q' = q) failed :=
      ⟨q, rfl, rfl, rfl⟩
    refine bind hheld ?_
    rintro _ _ pool ⟨rfl, rfl⟩
    have hnoted : Agree (Routine.record (.seized lock)) (Routine.record (.seized lock))
        { m with held := lock :: m.held } pool
        (fun _ next q' => next = m.seized lock ∧ q' = pool) failed := record ⟨rfl, rfl⟩
    refine bind hnoted ?_
    rintro _ _ _ ⟨rfl, rfl⟩
    exact releasing h

end Agree
end Routine
end DemandPaging
