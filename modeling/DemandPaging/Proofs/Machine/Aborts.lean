import DemandPaging.Proofs.Machine.Operation

/-!
# What aborts a run

Each rule whose breach aborts the machine follows from its soundness: slots and frames are freed
once, a page gets no second frame, an evicted page gives up the frame of its entry, whole pages go
to the disk and come back, a write-back stays inside its frame, no count falls below zero, and no
lock is asked for by its holder. What is left is a pool without a frame for a page when none can be
evicted, and a sum of addresses that leaves the word.
-/

namespace DemandPaging

/-! ## Starting -/

theorem Swap.Area.create_ne_aborted (disk : Disk) {pageSize : Nat} (hpos : 0 < pageSize)
    (a : Abort) : create disk pageSize ≠ .error (.aborted a) := by
  unfold create
  split
  · intro hstop
    cases hstop
  · rename_i hwhole
    rw [not_or, Decidable.not_not] at hwhole
    have hsectors : pageSize / disk.sectorSize ≠ 0 := by
      intro hzero
      have hnone := Nat.div_add_mod pageSize disk.sectorSize
      rw [hzero, hwhole.2] at hnone
      omega
    rw [if_neg hsectors]
    intro hstop
    contradiction

namespace Machine

variable {m next : Machine} {mem : FlatMemory} {op : Operation} {a : Abort}

theorem boot_ne_aborted (config : Config) (hardware : Hardware) (a : Abort) :
    boot config hardware ≠ .error (.aborted a) := by
  unfold boot
  cases Layout.ofConfig config with
  | error e =>
      intro hstop
      cases hstop
  | ok layout =>
      have hswap : bootSwap hardware.disk layout.pageBytes ≠ .error (.aborted a) := by
        unfold bootSwap
        cases hardware.disk with
        | none =>
            intro hstop
            contradiction
        | some disk =>
            have hcreate := Swap.Area.create_ne_aborted disk layout.pageBytes_pos a
            dsimp only
            cases harea : Swap.Area.create disk layout.pageBytes with
            | error stop =>
                rw [harea] at hcreate
                exact fun hstop => hcreate (congrArg Except.error (Except.error.inj hstop))
            | ok area =>
                intro hstop
                contradiction
      dsimp only
      cases harea : bootSwap hardware.disk layout.pageBytes with
      | error stop =>
          rw [harea] at hswap
          exact fun hstop => hswap (congrArg Except.error (Except.error.inj hstop))
      | ok area =>
          intro hstop
          contradiction

/-! ## Running -/

/-- The step: a sound machine aborts for no other reasons than the foreseen ones. -/
theorem Sound.foreseen (k : m.Sound {} mem) (haborted : op.perform m = .error (.aborted a) next) :
    op.Foreseen m a :=
  (ends_perform op k).of_aborted haborted

theorem exists_abort {start : Machine} {ops : List Operation} (h : start.run ops = none) :
    ∃ before op after m a next, ops = before ++ op :: after ∧ start.run before = some m ∧
      op.perform m = .error (.aborted a) next := by
  -- Either the first operation aborts, or the rest of the run is cut short after it.
  induction ops generalizing start with
  | nil => contradiction
  | cons op rest ih =>
      rw [run_cons] at h
      cases hnext : start.after? op with
      | none =>
          rcases after?_eq_none_iff.mp hnext with ⟨a, next, haborted⟩
          exact ⟨[], op, rest, start, a, next, rfl, rfl, haborted⟩
      | some next =>
          rw [hnext] at h
          rcases ih h with ⟨before, last, after, m, a, aborted, hops, hrun, haborted⟩
          refine ⟨op :: before, last, after, m, a, aborted, ?_, ?_, haborted⟩
          · rw [hops, List.cons_append]
          · rw [run_cons, hnext]
            exact hrun

/-- A machine starts without an abort. A run of it is cut short only when an operation that needs a
frame can neither get one from the pool nor by an eviction, or when an access of the user or a file
mapping leaves the address space. -/
theorem run_aborts_foreseen (config : Config) (hardware : Hardware) :
    (∀ a, boot config hardware ≠ .error (.aborted a)) ∧
      ∀ start ops, boot config hardware = .ok start → start.run ops = none →
        ∃ before op after m a next, ops = before ++ op :: after ∧ start.run before = some m ∧
          op.perform m = .error (.aborted a) next ∧
            ((a = .framesExhausted ∧ op.Exhausts m) ∨
              (a = .addOverflow ∧ op.Overruns m.layout)) := by
  refine ⟨boot_ne_aborted config hardware, ?_⟩
  intro start ops hboot hcut
  rcases exists_abort hcut with ⟨before, op, after, m, a, next, hops, hrun, haborted⟩
  have hreachable : m.Reachable := ⟨config, hardware, start, before, hboot, hrun⟩
  rcases hreachable.sound with ⟨mem, k⟩
  exact ⟨before, op, after, m, a, next, hops, hrun, haborted, k.foreseen haborted⟩

def crowdedPages : List Operation :=
  [.start (.always true), .allocate 0 .anon 0x1000 true none, .allocate 0 .anon 0x1010 true none,
    .allocate 0 .anon 0x1020 true none, .claim 0 0x1000, .claim 0 0x1010]

/-- Without a disk no frame can be taken from the first two pages. -/
theorem run_aborts_without_disk : ∃ start before op after m a next,
    boot smallConfig (smallHardware none []) = .ok start ∧
      crowdedPages ++ [.claim 0 0x1020] = before ++ op :: after ∧ start.run before = some m ∧
        op.perform m = .error (.aborted a) next ∧
          ((a = .framesExhausted ∧ op.Exhausts m) ∨
            (a = .addOverflow ∧ op.Overruns m.layout)) := by
  rcases exists_run smallConfig (smallHardware none []) crowdedPages
    (fun _ m => (m.after? (.claim 0 0x1020)).isNone) (by decide +kernel) with
    ⟨start, m, hboot, hrun, hcheck⟩
  have hcut : start.run (crowdedPages ++ [.claim 0 0x1020]) = none := by
    rw [run_append, hrun, Option.bind_some, run_cons, Option.isNone_iff_eq_none.mp hcheck]
    rfl
  rcases (run_aborts_foreseen smallConfig (smallHardware none [])).2 start _ hboot hcut with
    ⟨before, op, after, m, a, next, hend⟩
  exact ⟨start, before, op, after, m, a, next, hboot, hend⟩

end Machine
end DemandPaging
