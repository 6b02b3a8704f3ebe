import DemandPaging.Machine.Operation
import DemandPaging.Proofs.Machine.Fault
import DemandPaging.Proofs.Machine.FileMapping
import DemandPaging.Proofs.Machine.Fork
import DemandPaging.Proofs.Machine.UserAccess

/-!
# Reachable machines are sound

`Operation.Serves` and `Operation.Refuses` say what an operation does to the registered pages and
to the flat memory when it is served and when it fails. Each operation leads from a sound machine
to a sound one, a machine starts sound, and so every reachable machine is sound.
-/

namespace DemandPaging

/-- What a write has written, as its answer tells: everything, or the bytes before the address
that faulted. -/
def Reply.stored (reply : Reply) (va : Vaddr) (data : Bytes) : Bytes :=
  match reply with
  | .fault f => data.take (f.va - va).toNat
  | _ => data

namespace Operation

/-- An operation that needs a frame asks a pool that has none to give. -/
def Exhausts (op : Operation) (m : Machine) : Prop :=
  match op with
  | .claim .. | .fault .. => m.pool.GivesNone
  | .fork .. => True
  | _ => False

/-- An access goes on behind the last address, or a file mapping behind the last offset. -/
def Overruns (op : Operation) (l : Layout) : Prop :=
  match op with
  | .read _ va length => UInt64.size < va.toNat + length
  | .write _ va data => UInt64.size < va.toNat + data.length
  | .map _ base length _ _ offset =>
      ∃ stop, l.mappingEnd base length = some stop ∧
        UInt64.size < offset.toNat + (stop - base).toNat
  | _ => False

/-- What aborts an operation on a sound machine: there is no frame to hand out or to evict, or a
sum of addresses leaves the word. -/
def Foreseen (op : Operation) (m : Machine) (a : Abort) : Prop :=
  (a = .framesExhausted ∧ op.Exhausts m) ∨ (a = .addOverflow ∧ op.Overruns m.layout)

def Serves (op : Operation) (m : Machine) (mem : FlatMemory) (reply : Reply) (next : Machine)
    (mem' : FlatMemory) : Prop :=
  match op with
  | .allocate p type va writable loader =>
      mem' = mem ∧ p < m.processes.length ∧
        ∃ origin, Page.originOf type loader = .ok origin ∧ next = m.withPage p
          ⟨0, va, writable, false, none, none, p, m.layout.pageSize, .uninit origin⟩
  | .claim p va =>
      mem' = m.loadedMemory next p va mem ∧
        ∃ page f, m.Resolved next p va mem page f ∧ (m.lookup p va).isSome = true
  | .fault p f =>
      mem' = m.loadedMemory next p f.va mem ∧ ∃ page frame, m.Resolved next p f.va mem page frame
  | .write p va data =>
      mem' = mem.store p va (reply.stored va data) ∧ m.AlikeBut Machine.Nowhere next ∧
        ∀ i, i < (reply.stored va data).length →
          ∃ page, m.lookup p (va + UInt64.ofNat i) = some page ∧ page.isResident = true
  | .fork s t =>
      mem' = mem.copy s t (fun a => (m.lookup s a).isSome) ∧ m.Copied s t next ∧
        ∀ va, (m.page? s va).isSome = true → m.page? t va = none
  | _ => mem' = mem ∧ m.Inherits next

def Refuses (op : Operation) (m : Machine) (mem : FlatMemory) (next : Machine)
    (mem' : FlatMemory) : Prop :=
  match op with
  | .fork s t => m.Copied s t next ∧ ∀ q, q ≠ t → mem' q = mem q
  | _ => mem' = mem ∧ m.Inherits next

end Operation

namespace Machine

open Routine

variable {m : Machine} {mem : FlatMemory} {config : Config} {hardware : Hardware}

/-! ## Operations -/

theorem ends_read (p length : Nat) (va : Vaddr) (k : m.Sound {} mem) :
    Ends (Operation.read p va length).perform m ((Operation.read p va length).Foreseen m)
      (fun reply _ => ∀ bytes, reply = .data bytes → bytes.length = length ∧
        ∀ i, i < length → ∃ page, m.lookup p (va + UInt64.ofNat i) = some page ∧
          page.isResident = true ∧
          (page.effectiveClass = .anon → bytes[i]? = some (mem p (va + UInt64.ofNat i))))
      fun _ _ => False := by
  unfold Operation.perform
  rw [ends_bind]
  refine Ends.mono (ends_userRead k fun hsize => Or.inr ⟨rfl, hsize⟩) ?_ fun _ _ hfalse => hfalse
  intro result next hend bytes hreply
  rcases hend with ⟨-, -, hbytes⟩
  have hread : result = .ok bytes := by
    cases result with
    | ok read =>
        cases hreply
        rfl
    | error fault => contradiction
  rcases hbytes bytes hread with ⟨hlength, hpages⟩
  refine ⟨hlength, ?_⟩
  intro i hi
  rcases hpages i hi with ⟨page, f, hpage, hframe, -, hanon⟩
  exact ⟨page, hpage, by rw [Page.isResident, hframe]; rfl, hanon⟩

theorem ends_write {p : Nat} {va : Vaddr} {data : Bytes} (k : m.Sound {} mem) :
    Ends (Operation.write p va data).perform m ((Operation.write p va data).Foreseen m)
      (fun reply next => ∃ mem', next.Sound {} mem' ∧
        (Operation.write p va data).Serves m mem reply next mem') fun _ _ => False := by
  unfold Operation.perform
  rw [ends_bind]
  refine Ends.mono (ends_userWrite k fun hsize => Or.inr ⟨rfl, hsize⟩) ?_ fun _ _ hfalse => hfalse
  intro result next hend
  rcases hend with ⟨halike, knext, hresident⟩
  have hstored : (Reply.ofAccess (result.map fun _ => .done)).stored va data =
      storedBytes va data result := by
    cases result <;> rfl
  rw [← hstored] at knext hresident
  exact ⟨_, knext, rfl, halike, hresident⟩

/-- Each operation leads from a sound machine to a sound one. -/
theorem ends_perform (op : Operation) (k : m.Sound {} mem) :
    Ends op.perform m (op.Foreseen m)
      (fun reply next => ∃ mem', next.Sound {} mem' ∧ op.Serves m mem reply next mem')
      fun _ next => ∃ mem', next.Sound {} mem' ∧ op.Refuses m mem next mem' := by
  -- The operations that add no pages but pages of files, and that leave the memory alone.
  have hinherits : ∀ {next : Machine}, m.Inherits next ∧ next.Sound {} mem →
      ∃ mem', next.Sound {} mem' ∧ mem' = mem ∧ m.Inherits next :=
    fun hnext => ⟨mem, hnext.2, rfl, hnext.1⟩
  have halike : ∀ {next : Machine}, m.AlikeBut Nowhere next ∧ next.Sound {} mem →
      ∃ mem', next.Sound {} mem' ∧ mem' = mem ∧ m.Inherits next :=
    fun hnext => ⟨mem, hnext.2, rfl, .of_alike hnext.1⟩
  have hcleared : ∀ {places : Nat → Vaddr → Prop} {next : Machine},
      m.Cleared places next ∧ next.Sound {} mem →
      ∃ mem', next.Sound {} mem' ∧ mem' = mem ∧ m.Inherits next :=
    fun hnext => ⟨mem, hnext.2, rfl, .of_cleared hnext.1⟩
  cases op with
  | start accepting =>
      unfold Operation.perform
      rw [ends_bind]
      exact (ends_startProcess k).mono (fun _ _ => halike) fun _ _ hfalse => hfalse.elim
  | finish p =>
      unfold Operation.perform
      rw [ends_bind]
      exact (ends_endProcess k).mono (fun _ _ => hcleared) fun _ _ hfalse => hfalse.elim
  | allocate p type va writable loader =>
      unfold Operation.perform
      rw [ends_bind]
      refine (ends_allocatePage k).mono ?_ ?_
      · intro _ next hend
        rcases hend with ⟨knext, hp, -, horigin⟩
        exact ⟨mem, knext, rfl, hp, horigin⟩
      · intro _ _ heq
        subst heq
        exact halike ⟨.refl _, k⟩
  | remove p va =>
      unfold Operation.perform
      rw [ends_bind]
      exact (ends_removePage k).mono (fun _ _ => hcleared) fun _ _ => hcleared
  | claim p va =>
      unfold Operation.perform
      rw [ends_bind]
      refine Ends.mono (ends_claimPage k fun hnone => Or.inl ⟨rfl, hnone⟩) ?_
        fun _ _ hend => halike hend.alike_sound
      intro _ next hend
      rcases hend with ⟨page, f, hresolved, hpage⟩
      exact ⟨_, hresolved.sound, rfl, page, f, hresolved, hpage⟩
  | fault p f =>
      unfold Operation.perform
      rw [ends_bind]
      refine Ends.mono (ends_resolveFault k fun hnone => Or.inl ⟨rfl, hnone⟩) ?_
        fun _ _ hend => halike hend.alike_sound
      intro _ next hend
      rcases hend with ⟨page, frame, hresolved, -⟩
      exact ⟨_, hresolved.sound, rfl, page, frame, hresolved⟩
  | read p va length =>
      unfold Operation.perform
      rw [ends_bind]
      refine Ends.mono (ends_userRead k fun hsize => Or.inr ⟨rfl, hsize⟩) ?_
        fun _ _ hfalse => hfalse.elim
      intro _ next hend
      rcases hend with ⟨hsame, knext, -⟩
      exact halike ⟨hsame, knext⟩
  | write p va data =>
      exact (ends_write k).mono (fun _ _ hnext => hnext) fun _ _ hfalse => hfalse.elim
  | map p va length writable file offset =>
      unfold Operation.perform
      rw [ends_bind]
      refine Ends.mono (ends_mapFile k fun stop hend hsize => Or.inr ⟨rfl, stop, hend, hsize⟩)
        (fun _ _ => hinherits) fun _ _ => hinherits
  | unmap p va =>
      unfold Operation.perform
      rw [ends_bind]
      exact (ends_unmapFile k).mono (fun _ _ => hinherits) fun _ _ => hinherits
  | fork source target =>
      unfold Operation.perform
      rw [ends_bind]
      refine Ends.mono (ends_fork k (Or.inl ⟨rfl, trivial⟩)) ?_ ?_
      · intro _ next hend
        rcases hend with ⟨hcopied, hfree, knext⟩
        exact ⟨_, knext, rfl, hcopied, hfree⟩
      · intro _ next hend
        rcases hend with ⟨hcopied, mem', knext, hothers⟩
        exact ⟨mem', knext, hcopied, hothers⟩
  | teardown p =>
      unfold Operation.perform
      rw [ends_bind]
      refine (ends_teardown k).mono ?_ fun _ _ hfalse => hfalse.elim
      intro _ next hend
      rcases hend with ⟨hgone, -, knext⟩
      exact hcleared ⟨hgone, knext⟩
  | classAt p va =>
      unfold Operation.perform
      rw [ends_bind]
      exact (ends_classAt k).mono (fun _ _ => halike) fun _ _ hfalse => hfalse.elim
  | mappingAt p va =>
      unfold Operation.perform
      rw [ends_bind]
      exact (ends_mappingAt k).mono (fun _ _ => halike) fun _ _ hfalse => hfalse.elim

/-! ## Runs -/

theorem bootSwap_fits {disk : Option Swap.Disk} {pageBytes : Nat} {area : Swap.Area}
    {report : Message} (h : bootSwap disk pageBytes = .ok (area, report)) :
    area.Fits pageBytes ∧ ∀ s, area.slots.isUsed s = false := by
  cases disk with
  | none =>
      cases h
      exact ⟨Swap.Area.disabled_fits pageBytes, Swap.Bitmap.isUsed_free 0⟩
  | some d =>
      rcases hcreate : Swap.Area.create d pageBytes with e | created
      · rw [bootSwap, hcreate] at h
        contradiction
      · rw [bootSwap, hcreate] at h
        cases h
        exact ⟨Swap.Area.create_fits hcreate, Swap.Area.isUsed_create hcreate⟩

/-- A machine starts without pages, so it is sound whatever the flat memory holds. -/
theorem initial_sound {layout : Layout} {area : Swap.Area} (report : Message)
    (mem : FlatMemory) (hfits : area.Fits layout.pageBytes)
    (hfree : ∀ s, area.slots.isUsed s = false) :
    (initial layout hardware area report).Sound {} mem := by
  have hnopage : ∀ p va page, (initial layout hardware area report).page? p va ≠ some page := by
    intro p va page hpage
    exact absurd (lt_of_page?_eq_some hpage) (Nat.not_lt_zero p)
  have hnolink : ∀ p va l, (initial layout hardware area report).link? p va ≠ some l := by
    intro p va hend hlink
    rcases hend with ⟨f, w⟩
    rcases link?_eq_some_iff.mp hlink with ⟨e, he, -⟩
    exact absurd (lt_of_mapped?_eq_some he) (Nat.not_lt_zero p)
  constructor
  · rfl
  · rfl
  · intro content hcontent
    rw [List.eq_of_mem_replicate hcontent]
    exact Bytes.length_filled ..
  · exact hfits
  · intro p hp
    exact absurd hp (Nat.not_lt_zero p)
  · intro _ _
    rfl
  · intro p _ va
    rfl
  · intro p va page hpage
    exact absurd hpage (hnopage p va page)
  · rw [show (initial layout hardware area report).pool.frames.length = hardware.frames from
      List.length_replicate]
    exact FramesKept.noPages hnopage hardware.frames
  · exact SlotsKept.noPages hnopage hfree
  · exact LinksKept.noPages hnopage hnolink _
  · intro p va page hpage
    exact absurd hpage (hnopage p va page)

theorem boot_eq_initial {start : Machine} (h : boot config hardware = .ok start) :
    ∃ layout area report, start = initial layout hardware area report ∧
      area.Fits layout.pageBytes ∧ ∀ s, area.slots.isUsed s = false := by
  unfold boot at h
  split at h
  · contradiction
  · rename_i layout _
    rcases hswap : bootSwap hardware.disk layout.pageBytes with e | ⟨area, report⟩
    · rw [hswap] at h
      contradiction
    · rw [hswap] at h
      cases h
      exact ⟨layout, area, report, rfl, bootSwap_fits hswap⟩

theorem boot_sound {start : Machine} (mem : FlatMemory) (h : boot config hardware = .ok start) :
    start.Sound {} mem := by
  rcases boot_eq_initial h with ⟨layout, area, report, rfl, hfits, hfree⟩
  exact initial_sound report mem hfits hfree

theorem page?_of_boot {start : Machine} (h : boot config hardware = .ok start) (p : Nat)
    (va : Vaddr) : start.page? p va = none := by
  rcases boot_eq_initial h with ⟨layout, area, report, rfl, -⟩
  rfl

theorem after?_eq_some_iff {op : Operation} {next : Machine} :
    m.after? op = some next ↔ (∃ reply, op.perform m = .ok reply next) ∨
      ∃ e, op.perform m = .error (.failed e) next := by
  unfold Machine.after?
  cases op.perform m with
  | ok reply served => simp
  | error stop stopped => cases stop <;> simp

theorem after?_eq_none_iff {op : Operation} :
    m.after? op = none ↔ ∃ a next, op.perform m = .error (.aborted a) next := by
  unfold Machine.after?
  cases op.perform m with
  | ok reply served => simp
  | error stop stopped => cases stop <;> simp

theorem of_after? {op : Operation} {next : Machine} {fatal : Abort → Prop}
    {done : Machine → Prop} (h : Ends op.perform m fatal (fun _ => done) fun _ => done)
    (hnext : m.after? op = some next) : done next := by
  rcases after?_eq_some_iff.mp hnext with ⟨reply, hserved⟩ | ⟨e, hfailed⟩
  · exact h.of_ok hserved
  · exact h.of_failed hfailed

theorem Sound.after? {op : Operation} {next : Machine} (k : m.Sound {} mem)
    (h : m.after? op = some next) : ∃ mem', next.Sound {} mem' := by
  have hsound : Ends op.perform m (op.Foreseen m) (fun _ next => ∃ mem', next.Sound {} mem')
      fun _ next => ∃ mem', next.Sound {} mem' :=
    (ends_perform op k).mono (fun _ _ hend => hend.imp fun _ hnext => hnext.1)
      fun _ _ hend => hend.imp fun _ hnext => hnext.1
  exact of_after? hsound h

theorem Reachable.sound (h : m.Reachable) : ∃ mem, m.Sound {} mem := by
  refine h.induction (P := fun m => ∃ mem, m.Sound {} mem) ?_ ?_
  · intro _ _ start hboot
    exact ⟨fun _ _ => 0, boot_sound _ hboot⟩
  · intro _ op next hend hnext
    rcases hend with ⟨mem, k⟩
    exact k.after? hnext

theorem Reachable.later {ops : List Operation} {next : Machine} (h : m.Reachable)
    (hrun : m.run ops = some next) : next.Reachable := by
  rcases h with ⟨config, hardware, start, before, hboot, hstart⟩
  refine ⟨config, hardware, start, before ++ ops, hboot, ?_⟩
  rw [run_append, hstart]
  exact hrun

theorem Reachable.after? {op : Operation} {next : Machine} (h : m.Reachable)
    (hnext : m.after? op = some next) : next.Reachable := by
  have hrun : m.run [op] = some next := by
    rw [run_cons, hnext]
    rfl
  exact h.later hrun

/-! ## Runs by evaluation -/

def smallConfig : Config where
  pageSize := 16
  userLimit := 0x100000
  userStackTop := 0x10000
  maxStackSize := 256
  stackSlack := 32

/-- Two frames, which are not zeroed when they are handed out, with the given disk and files. -/
def smallHardware (disk : Option Swap.Disk) (files : List BackingFile) : Hardware where
  frames := 2
  granting := .always true
  residue := fun _ _ => 0xaa
  disk := disk
  files := files

/-- Evaluation shows that there is a run whose first and last machine pass a check. -/
theorem exists_run (config : Config) (hardware : Hardware) (ops : List Operation)
    (check : Machine → Machine → Bool)
    (h : ((boot config hardware).toOption.any fun start =>
      (start.run ops).any (check start)) = true) :
    ∃ start m, boot config hardware = .ok start ∧ start.run ops = some m ∧
      check start m = true := by
  rcases hboot : boot config hardware with e | start
  · rw [hboot] at h
    contradiction
  · rw [hboot] at h
    have hruns : (start.run ops).any (check start) = true := h
    rcases (Option.any_eq_true ..).mp hruns with ⟨m, hrun, hcheck⟩
    exact ⟨start, m, rfl, hrun, hcheck⟩

def serves (m : Machine) (op : Operation) (check : Reply → Machine → Bool) : Bool :=
  match op.perform m with
  | .ok reply next => check reply next
  | .error _ _ => false

theorem exists_of_serves {m : Machine} {op : Operation} {check : Reply → Machine → Bool}
    (h : m.serves op check = true) :
    ∃ reply next, op.perform m = .ok reply next ∧ check reply next = true := by
  unfold serves at h
  split at h
  · rename_i reply next hend
    exact ⟨reply, next, hend, h⟩
  · contradiction

def fails (m : Machine) (op : Operation) (check : PagingError → Machine → Bool) : Bool :=
  match op.perform m with
  | .error (.failed e) next => check e next
  | _ => false

theorem exists_of_fails {m : Machine} {op : Operation} {check : PagingError → Machine → Bool}
    (h : m.fails op check = true) :
    ∃ e next, op.perform m = .error (.failed e) next ∧ check e next = true := by
  unfold fails at h
  split at h
  · rename_i e next hend
    exact ⟨e, next, hend, h⟩
  · contradiction

theorem Reachable.of_run (config : Config) (hardware : Hardware) (ops : List Operation)
    (check : Machine → Bool)
    (h : ((boot config hardware).toOption.any fun start => (start.run ops).any check) = true) :
    ∃ m, m.Reachable ∧ check m = true := by
  rcases exists_run config hardware ops (fun _ => check) h with ⟨start, m, hboot, hrun, hcheck⟩
  exact ⟨m, ⟨config, hardware, start, ops, hboot, hrun⟩, hcheck⟩

theorem Reachable.of_view {β : Type} (config : Config) (hardware : Hardware)
    (ops : List Operation) (view : Machine → β) {b : β}
    (h : ((boot config hardware).toOption.bind fun start => (start.run ops).map view) = some b) :
    ∃ m, m.Reachable ∧ view m = b := by
  rcases hboot : boot config hardware with e | start
  · rw [hboot] at h
    contradiction
  · rw [hboot] at h
    rcases Option.map_eq_some_iff.mp h with ⟨m, hrun, hview⟩
    exact ⟨m, ⟨config, hardware, start, ops, hboot, hrun⟩, hview⟩

end Machine
end DemandPaging
