import DemandPaging.Proofs.Interrupt.Nesting

/-!
# Requests for locks one after the other

A lock that nobody holds can be acquired, with or without waiting, and one that is held can be tried
in vain. A nest goes on from there with the lock pending, or as it was.
-/

namespace DemandPaging
namespace Interrupt

namespace Bank

variable {b after : Bank} {r : Request} {reply : Reply} {i : Nat} {word : UInt64}

theorem length_put {l : SpinLock Int64} {c : Controller} :
    (b.put i l c).locks.length = b.locks.length :=
  List.length_set ..

theorem length_perform (h : b.perform r = some (reply, after)) :
    after.locks.length = b.locks.length := by
  cases r with
  | acquire i =>
      simp only [perform, Option.bind_eq_bind, Option.bind_eq_some_iff] at h
      rcases h with ⟨_, -, _, -, heq⟩
      cases heq
      exact length_put
  | tryAcquire i =>
      simp only [perform, Option.bind_eq_bind, Option.bind_eq_some_iff] at h
      rcases h with ⟨_, -, heq⟩
      cases heq
      exact length_put
  | add i amount =>
      simp only [perform, Option.bind_eq_bind, Option.bind_eq_some_iff] at h
      rcases h with ⟨_, -, heq⟩
      split at heq
      · cases heq
        exact length_put
      · contradiction
  | release i =>
      simp only [perform, Option.bind_eq_bind, Option.bind_eq_some_iff] at h
      rcases h with ⟨_, -, heq⟩
      split at heq
      · cases heq
        exact length_put
      · contradiction
  | isHeld i =>
      simp only [perform, Option.bind_eq_bind, Option.bind_eq_some_iff] at h
      rcases h with ⟨_, -, heq⟩
      cases heq
      rfl
  | openGuard =>
      cases h
      rfl
  | wasEnabled i =>
      simp only [perform, Option.bind_eq_bind, Option.bind_eq_some_iff] at h
      rcases h with ⟨_, -, _, -, heq⟩
      cases heq
      rfl
  | closeGuard i =>
      simp only [perform, Option.bind_eq_bind, Option.bind_eq_some_iff] at h
      rcases h with ⟨_, -, _, -, heq⟩
      cases heq
      rfl
  | setFlags word =>
      cases h
      rfl

theorem exists_free (hi : i < b.locks.length) (h : b.kept? (.lock i) = none) :
    ∃ l, b.locks[i]? = some l ∧ l.held = false := by
  have hlock : b.locks[i]? = some b.locks[i] := List.getElem?_eq_getElem hi
  refine ⟨b.locks[i], hlock, Bool.eq_false_iff.mpr ?_⟩
  intro hheld
  rw [kept?_lock hlock, SpinLock.kept?, if_pos hheld] at h
  contradiction

theorem perform_of_free (hi : i < b.locks.length) (h : b.kept? (.lock i) = none)
    (hr : r = .acquire i ∨ r = .tryAcquire i) :
    ∃ v after, b.perform r = some (.value v, after) := by
  rcases exists_free hi h with ⟨l, hl, hfree⟩
  refine ⟨l.value, b.put i { l with held := true, saved := b.controller.disable.1 }
    b.controller.disable.2, ?_⟩
  rcases hr with rfl | rfl
  · simp only [perform, hl, SpinLock.acquire?, hfree, Option.bind_eq_bind, Option.bind_some]
    rfl
  · simp only [perform, hl, SpinLock.tryAcquire_of_free _ hfree, Option.bind_eq_bind,
      Option.bind_some]
    rfl

theorem perform_tryAcquire_of_kept (h : b.kept? (.lock i) = some word) :
    ∃ after, b.perform (.tryAcquire i) = some (.busy, after) := by
  rcases exists_held h with ⟨l, hl, hheld⟩
  refine ⟨b.put i l (b.controller.disable.2.restore b.controller.disable.1), ?_⟩
  simp only [perform, hl, SpinLock.tryAcquire_of_held _ hheld, Option.bind_eq_bind,
    Option.bind_some]
  rfl

end Bank

namespace Nest

variable {c : Controller} {n next : Nest} {r : Request} {reply : Reply} {i count : Nat}
  {holders : List Holder}

structure Holds (c : Controller) (count : Nat) (holders : List Holder) (n : Nest) : Prop where
  kept : Kept c n
  pending : n.pending.map Acquisition.holder = holders
  locks : n.bank.locks.length = count

theorem run_append {first second : List Request} :
    n.run (first ++ second) = (n.run first).bind fun middle => middle.run second := by
  induction first generalizing n with
  | nil => rfl
  | cons r rest ih =>
      show (n.perform r).bind _ = ((n.perform r).bind _).bind _
      rw [Option.bind_assoc]
      congr
      funext step
      exact ih

theorem run_singleton : n.run [r] = (n.perform r).map Prod.snd := by
  show (n.perform r).bind _ = _
  cases n.perform r <;> rfl

theorem Holds.idle (h : Holds c count holders n) (hfree : .lock i ∉ holders) :
    n.bank.kept? (.lock i) = none := by
  cases hkept : n.bank.kept? (.lock i) with
  | none => rfl
  | some before =>
      have hmem := List.mem_map_of_mem (f := Acquisition.holder) ((h.kept.held _ _).mp hkept)
      rw [h.pending] at hmem
      exact absurd hmem hfree

/-- A request that gives nothing up and is possible in the bank is possible in the nest. -/
theorem perform_of_bank {bank : Bank} (hown : r.isForeign = false) (hundone : r.undone = none)
    (h : n.bank.perform r = some (reply, bank)) :
    n.perform r = some (reply, ⟨bank, ((r.acquired reply).map fun holder =>
      ⟨holder, n.bank.controller.flags⟩).toList ++ n.pending⟩) := by
  unfold perform
  rw [hown, hundone]
  simp only [h, Bool.false_eq_true, if_false, Option.map_some]

/-- What is possible in the nest is possible in the bank. -/
theorem bank_of_perform (h : n.perform r = some (reply, next)) :
    n.bank.perform r = some (reply, next.bank) := by
  unfold perform at h
  split at h
  · contradiction
  · split at h
    · rcases Option.map_eq_some_iff.mp h with ⟨_, hbank, heq⟩
      cases heq
      exact hbank
    · split at h
      · contradiction
      · split at h
        · rcases Option.map_eq_some_iff.mp h with ⟨_, hbank, heq⟩
          cases heq
          exact hbank
        · contradiction

theorem Holds.acquire (h : Holds c count holders n) (hword : c.flags ≠ nothingSaved)
    (hi : i < count) (hfree : .lock i ∉ holders) (hr : r = .acquire i ∨ r = .tryAcquire i) :
    ∃ next, n.run [r] = some next ∧ Holds c count (.lock i :: holders) next := by
  have hlock : i < n.bank.locks.length := by
    rw [h.locks]
    exact hi
  have hkind : r.isForeign = false ∧ r.undone = none ∧
      ∀ v, r.acquired (.value v) = some (.lock i) := by
    rcases hr with rfl | rfl <;> exact ⟨rfl, rfl, fun _ => rfl⟩
  rcases Bank.perform_of_free hlock (h.idle hfree) hr with ⟨v, bank, hbank⟩
  have hperform := perform_of_bank hkind.1 hkind.2.1 hbank
  rw [hkind.2.2] at hperform
  refine ⟨_, by rw [run_singleton, hperform]; rfl, h.kept.perform hword hperform, ?_, ?_⟩
  · exact congrArg (.lock i :: ·) h.pending
  · exact (Bank.length_perform hbank).trans h.locks

theorem Holds.contend (h : Holds c count holders n) (hword : c.flags ≠ nothingSaved)
    (hheld : .lock i ∈ holders) :
    ∃ next, n.run [.tryAcquire i] = some next ∧ Holds c count holders next := by
  rw [← h.pending] at hheld
  rcases List.mem_map.mp hheld with ⟨⟨holder, before⟩, hmem, rfl⟩
  rcases Bank.perform_tryAcquire_of_kept ((h.kept.held _ _).mpr hmem) with ⟨bank, hbank⟩
  have hperform := perform_of_bank rfl rfl hbank
  refine ⟨_, by rw [run_singleton, hperform]; rfl, h.kept.perform hword hperform, ?_, ?_⟩
  · exact h.pending
  · exact (Bank.length_perform hbank).trans h.locks

theorem Holds.release (h : Holds c count (.lock i :: holders) n) (hword : c.flags ≠ nothingSaved) :
    ∃ next, n.run [.release i] = some next ∧ Holds c count holders next := by
  rcases List.map_eq_cons_iff.mp h.pending with ⟨⟨holder, before⟩, rest, hpending, rfl, hrest⟩
  rcases h.kept.undo hword hpending with ⟨next, hperform, hnext, -⟩
  refine ⟨next, ?_, h.kept.perform hword hperform, ?_, ?_⟩
  · rw [run_singleton]
    exact congrArg (Option.map Prod.snd) hperform
  · rw [hnext, hrest]
  · exact (Bank.length_perform (bank_of_perform hperform)).trans h.locks

theorem Holds.flags_of_nil (h : Holds c count [] n) : n.bank.controller.flags = c.flags := by
  rw [h.kept.flags, List.map_eq_nil_iff.mp h.pending]
  rfl

end Nest
end Interrupt
end DemandPaging
