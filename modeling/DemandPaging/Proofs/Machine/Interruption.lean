import DemandPaging.Proofs.Interrupt.Requests
import DemandPaging.Proofs.Machine.Aborts
import DemandPaging.Proofs.Machine.LockOrder
import Mathlib.Data.List.Basic

/-!
# Locks and interrupts of operations

The locks of the machine are spin locks, and each disables interrupts while it is held. Since an
operation gives them up in the reverse order, it leaves the interrupt word as it found it.
-/

namespace DemandPaging

open Interrupt

/-! ## Events as requests -/

/-- What is asked of the spin locks in an event, where each lock has the number of its place in a
list. -/
def Event.lockRequest? (locks : List Lock) : Event → Option Request
  | .acquired lock => some (.acquire (locks.idxOf lock))
  | .seized lock | .contended lock => some (.tryAcquire (locks.idxOf lock))
  | .released lock => some (.release (locks.idxOf lock))
  | _ => none

def lockRequests (locks : List Lock) (events : List Event) : List Request :=
  (events.filterMap (Event.lockRequest? locks)).reverse

def holdersOf (locks held : List Lock) : List Holder :=
  held.map fun lock => .lock (locks.idxOf lock)

theorem lockRequests_cons (locks : List Lock) (event : Event) (earlier : List Event) :
    lockRequests locks (event :: earlier) =
      lockRequests locks earlier ++ (event.lockRequest? locks).toList := by
  unfold lockRequests
  cases hrequest : event.lockRequest? locks with
  | none => rw [List.filterMap_cons_none hrequest, Option.toList_none, List.append_nil]
  | some request => rw [List.filterMap_cons_some hrequest, List.reverse_cons, Option.toList_some]

variable {locks held start last : List Lock} {lock : Lock} {c : Controller} {count : Nat}
  {n : Nest} {event : Event} {events : List Event}

theorem mem_holdersOf (hlock : lock ∈ locks) :
    .lock (locks.idxOf lock) ∈ holdersOf locks held ↔ lock ∈ held := by
  unfold holdersOf
  constructor
  · intro hmem
    rcases List.mem_map.mp hmem with ⟨other, hother, heq⟩
    have hsame := ((List.idxOf_inj hlock).mp (Holder.lock.inj heq).symm)
    rwa [hsame]
  · exact fun hmem => List.mem_map_of_mem hmem

theorem LockStep.mem (h : LockStep start event last) (hknown : ∀ lock ∈ event.lock?, lock ∈ locks)
    (hstart : ∀ lock ∈ start, lock ∈ locks) : ∀ lock ∈ last, lock ∈ locks := by
  cases h with
  | acquired | seized =>
      intro lock hlock
      rcases List.mem_cons.mp hlock with rfl | hlock
      · exact hknown lock rfl
      · exact hstart lock hlock
  | contended => exact hstart
  | released => exact fun lock hlock => hstart lock (List.mem_cons_of_mem _ hlock)
  | other => exact hstart

theorem LockStep.served (h : LockStep start event last)
    (hknown : ∀ lock ∈ event.lock?, lock ∈ locks) (hcount : locks.length ≤ count)
    (hword : c.flags ≠ nothingSaved) (hn : Nest.Holds c count (holdersOf locks start) n) :
    ∃ next, n.run (event.lockRequest? locks).toList = some next ∧
      Nest.Holds c count (holdersOf locks last) next := by
  have hplace : ∀ {lock : Lock}, lock ∈ locks → locks.idxOf lock < count :=
    fun hlock => Nat.lt_of_lt_of_le (List.idxOf_lt_length_iff.mpr hlock) hcount
  cases h with
  | acquired free =>
      have hlock := hknown _ rfl
      exact hn.acquire hword (hplace hlock) (mt (mem_holdersOf hlock).mp free) (Or.inl rfl)
  | seized free =>
      have hlock := hknown _ rfl
      exact hn.acquire hword (hplace hlock) (mt (mem_holdersOf hlock).mp free) (Or.inr rfl)
  | contended taken => exact hn.contend hword ((mem_holdersOf (hknown _ rfl)).mpr taken)
  | released => exact hn.release hword
  | other hother =>
      have hnone : event.lockRequest? locks = none := by
        cases event with
        | acquired | seized | released | contended => cases hother
        | reported | filled | cloned | stored | wroteBack | parted | stranded => rfl
      rw [hnone]
      exact ⟨n, rfl, hn⟩

theorem LockSteps.served (h : LockSteps start events last)
    (hknown : ∀ event ∈ events, ∀ lock ∈ event.lock?, lock ∈ locks)
    (hcount : locks.length ≤ count) (hword : c.flags ≠ nothingSaved)
    (hn : Nest.Holds c count (holdersOf locks start) n) :
    ∃ next, n.run (lockRequests locks events) = some next ∧
      Nest.Holds c count (holdersOf locks last) next := by
  induction h with
  | nil => exact ⟨n, rfl, hn⟩
  | cons _ step ih =>
      rcases ih fun event hevent => hknown event (List.mem_cons_of_mem _ hevent) with
        ⟨middle, hmiddle, hheld⟩
      rcases step.served (hknown _ List.mem_cons_self) hcount hword hheld with ⟨next, hnext, hlast⟩
      refine ⟨next, ?_, hlast⟩
      rw [lockRequests_cons, Nest.run_append, hmiddle]
      exact hnext

namespace Machine

variable {m : Machine}

/-- Between two operations no lock is held, and no operation waits for a lock that it holds. Whether
it is served or fails, it gives up its locks in the reverse order, waits for the lock of a page only
without the ring, and takes nothing under the lock of the swap area. On spin locks it leaves the
interrupt word as it found it. -/
theorem Reachable.locks_in_order (hm : m.Reachable) (op : Operation) :
    m.held = [] ∧
      (∀ lock last, op.perform m ≠ .error (.aborted (.selfDeadlock lock)) last) ∧
      ∀ next, m.after? op = some next → next.held = [] ∧
        ∃ recent, next.trace = recent ++ m.trace ∧ LockSteps [] recent [] ∧
          ∀ (c : Controller) (locks : List Lock) (values : List Int64), c.registered = true →
            c.flags ≠ nothingSaved → (∀ event ∈ recent, ∀ lock ∈ event.lock?, lock ∈ locks) →
            locks.length ≤ values.length →
            ∃ n, (Nest.start c values).run (lockRequests locks recent) = some n ∧
              n.pending = [] ∧ n.bank.controller.flags = c.flags := by
  rcases hm.sound with ⟨mem, k⟩
  have hheld : m.held = [] := k.held
  refine ⟨hheld, ?_, ?_⟩
  · intro lock last haborted
    rcases k.foreseen haborted with ⟨hexhausted, -⟩ | ⟨hoverrun, -⟩
    · cases hexhausted
    · cases hoverrun
  · intro next hnext
    have hfree : ∀ lock ∈ [Lock.ring, .swap], lock ∉ m.held := by
      rw [hheld]
      exact fun _ _ => List.not_mem_nil
    have horder : m.KeepsOrder next := of_after? (ordered_perform op m hfree) hnext
    rcases horder.steps with ⟨recent, hrecent, hsteps⟩
    have hback : next.held = [] := horder.held.trans hheld
    rw [hheld, hback] at hsteps
    refine ⟨hback, recent, hrecent, hsteps, ?_⟩
    intro c locks values hregistered hword hknown hcount
    have hstart : Nest.Holds c values.length (holdersOf locks []) (Nest.start c values) :=
      ⟨Nest.kept_start hregistered, rfl, List.length_map ..⟩
    rcases hsteps.served hknown hcount hword hstart with ⟨n, hn, hlast⟩
    exact ⟨n, hn, List.map_eq_nil_iff.mp hlast.pending, hlast.flags_of_nil⟩

def bothResident : List Operation :=
  [.start (.always true), .start (.always true), .allocate 0 .anon 0x1000 true none,
    .allocate 0 .anon 0x2000 true none, .claim 0 0x1000, .claim 0 0x2000]

/-- A fork holds the lock of the page that it copies and that of the copy while it evicts a page: it
finds the one page locked, by itself, and takes the other. -/
theorem locks_of_crowded_fork : ∃ (m next : Machine) (recent : List Event), m.Reachable ∧
    m.after? (.fork 0 1) = some next ∧ next.trace = recent ++ m.trace ∧
    .contended (.page 0 0x1000) ∈ recent ∧ .seized (.page 0 0x2000) ∈ recent ∧
    LockSteps [] recent [] ∧
    ∃ n, (Nest.start ⟨1, 1, true, []⟩ (recent.map fun _ => 0)).run
      (lockRequests (recent.filterMap Event.lock?) recent) = some n ∧
      n.bank.controller.flags = 1 := by
  have hexists := exists_run smallConfig (smallHardware (some (.blank 8 8)) []) bothResident
    (fun _ m => m.serves (.fork 0 1) fun _ next =>
      decide (.contended (.page 0 0x1000) ∈ next.trace) &&
      decide (.contended (.page 0 0x1000) ∉ m.trace) &&
      decide (.seized (.page 0 0x2000) ∈ next.trace) &&
      decide (.seized (.page 0 0x2000) ∉ m.trace)) (by decide +kernel)
  rcases hexists with ⟨start, m, hboot, hrun, hcheck⟩
  rcases exists_of_serves hcheck with ⟨reply, next, hfork, hevents⟩
  simp only [Bool.and_eq_true, decide_eq_true_eq] at hevents
  rcases hevents with ⟨⟨⟨hcontended, hquiet⟩, hseized⟩, hquiet'⟩
  have hreachable : m.Reachable := ⟨_, _, start, _, hboot, hrun⟩
  have hnext : m.after? (.fork 0 1) = some next := after?_eq_some_iff.mpr (Or.inl ⟨reply, hfork⟩)
  rcases (Reachable.locks_in_order hreachable (.fork 0 1)).2.2 next hnext with
    ⟨-, recent, hrecent, hsteps, hserved⟩
  rw [hrecent, List.mem_append] at hcontended hseized
  rcases hserved ⟨1, 1, true, []⟩ (recent.filterMap Event.lock?) (recent.map fun _ => 0) rfl
    (by decide) (fun event hevent lock hlock => List.mem_filterMap.mpr ⟨event, hevent, hlock⟩)
    (by rw [List.length_map]; exact List.length_filterMap_le ..) with ⟨n, hn, -, hflags⟩
  exact ⟨m, next, recent, hreachable, hnext, hrecent, hcontended.resolve_right hquiet,
    hseized.resolve_right hquiet', hsteps, n, hn, hflags⟩

end Machine
end DemandPaging
