import DemandPaging.Proofs.Machine.Admission
import DemandPaging.Proofs.Machine.WriteCauses
import DemandPaging.Proofs.Residue.Fork
import DemandPaging.Proofs.Residue.Registration
import DemandPaging.Proofs.Residue.UserAccess

/-!
# Runs on frames with other bytes

The bytes that earlier owners left in the frames have no influence on a run. Whatever was in the
frames at the start, and whatever is found in a frame that the pool hands out, each operation has
the same answer, and files, slots and the history of the run are the same in the end.
-/

namespace DemandPaging

open Routine FramePool

variable {m : Machine} {q : FramePool} {mem : FlatMemory}

def PageState.source? : PageState → Option FileExtent
  | .uninit (.file x) | .uninit (.anon (some (.file x))) | .file x => some x
  | _ => none

theorem PageState.delivered_of_source {state : PageState} {x : FileExtent}
    {files : List BackingFile} {runs : Nat → Nat} {slotContent : Nat → Bytes} {n : Nat}
    (h : state.source? = some x) : state.delivered files runs slotContent n = x.image files n := by
  unfold source? at h
  split at h
  · cases h
    rfl
  · cases h
    rfl
  · cases h
    rfl
  · contradiction

/-! ## One operation -/

theorem Operation.conceals_perform (op : Operation) (k : m.Sound {} mem) (h : Twin [] m.pool q) :
    Conceals op.perform m q [] [] := by
  cases op with
  | start accepting =>
      exact ((Machine.blind_startProcess accepting).conceals h).bind fun _ _ _ h => .pure h
  | finish p => exact (Machine.conceals_endProcess k h).bind fun _ _ _ h => .pure h
  | allocate p type va writable loader =>
      exact ((Machine.blind_allocatePage p type va writable loader).conceals h).bind
        fun _ _ _ h => .pure h
  | remove p va => exact (Machine.conceals_removePage k h).bind fun _ _ _ h => .pure h
  | claim p va => exact (Machine.conceals_claimPage k h).bind fun _ _ _ h => .pure h
  | fault p f => exact (Machine.conceals_resolveFault f k h).bind fun _ _ _ h => .pure h
  | read p va length => exact (Machine.conceals_userRead k h).bind fun _ _ _ h => .pure h
  | write p va data => exact (Machine.conceals_userWrite h).bind fun _ _ _ h => .pure h
  | map p va length writable file offset =>
      exact (Machine.conceals_mapFile k h).bind fun _ _ _ h => .pure h
  | unmap p va => exact (Machine.conceals_unmapFile k h).bind fun _ _ _ h => .pure h
  | fork source target => exact (Machine.conceals_fork k h).bind fun _ _ _ h => .pure h
  | teardown p => exact (Machine.conceals_teardown k h).bind fun _ _ _ h => .pure h
  | classAt p va => exact ((Machine.blind_classAt p va).conceals h).bind fun _ _ _ h => .pure h
  | mappingAt p va =>
      exact ((Machine.blind_mappingAt p va).conceals h).bind fun _ _ _ h => .pure h

namespace Machine

def answer (m : Machine) (op : Operation) : Except Stop Reply :=
  match op.perform m with
  | .ok reply _ => .ok reply
  | .error stop _ => .error stop

/-- With the other pool the operation has the same answer. It leads to the same state but for the
pool, and if it does not abort, the pools are twins again. -/
theorem Sound.answer_alike (op : Operation) (k : m.Sound {} mem) (h : Twin [] m.pool q) :
    (m.withPool q).answer op = m.answer op ∧
      ((∃ next q', m.after? op = some next ∧ (m.withPool q).after? op = some (next.withPool q') ∧
          Twin [] next.pool q') ∨
        (m.after? op = none ∧ (m.withPool q).after? op = none ∧
          ∃ q', (m.withPool q).left op = (m.left op).withPool q')) := by
  have halike := op.conceals_perform k h
  unfold Conceals Agree at halike
  unfold answer Machine.after? Machine.left
  cases hend : op.perform m with
  | ok reply next =>
      rw [hend] at halike
      rcases halike with ⟨q', hend', htwin⟩
      rw [hend']
      exact ⟨rfl, Or.inl ⟨next, q', rfl, rfl, htwin⟩⟩
  | error stop next =>
      rw [hend] at halike
      cases stop with
      | failed e =>
          rcases halike with ⟨q', hend', htwin⟩
          rw [hend']
          exact ⟨rfl, Or.inl ⟨next, q', rfl, rfl, htwin⟩⟩
      | aborted a =>
          rcases halike with ⟨q', hend'⟩
          rw [hend']
          exact ⟨rfl, Or.inr ⟨rfl, rfl, q', rfl⟩⟩

/-! ## Runs -/

def answers (m : Machine) : List Operation → List (Except Stop Reply)
  | [] => []
  | op :: rest =>
      m.answer op ::
        match m.after? op with
        | some next => next.answers rest
        | none => []

/-- The runs with the two pools have the same answers, in states that differ in the pool alone. If
they complete, the pools are twins. -/
structure RunAlike (m : Machine) (q : FramePool) (ops : List Operation) : Prop where
  answers : (m.withPool q).answers ops = m.answers ops
  last : ∃ q', (m.withPool q).last ops = (m.last ops).withPool q'
  run : ∀ next, m.run ops = some next → (∃ mem, next.Sound {} mem) ∧
    ∃ q', (m.withPool q).run ops = some (next.withPool q') ∧ Twin [] next.pool q'

theorem Sound.runAlike (k : m.Sound {} mem) (h : Twin [] m.pool q) (ops : List Operation) :
    m.RunAlike q ops := by
  induction ops generalizing m q mem with
  | nil =>
      refine ⟨rfl, ⟨q, rfl⟩, fun next hnext => ?_⟩
      cases hnext
      exact ⟨⟨mem, k⟩, q, rfl, h⟩
  | cons op rest ih =>
      rcases k.answer_alike op h with ⟨hanswer, ⟨next, q', hafter, hafter', htwin⟩ |
        ⟨hafter, hafter', hleft⟩⟩
      · rcases k.after? hafter with ⟨mem', knext⟩
        have hrest := ih knext htwin
        constructor
        · simp only [Machine.answers, hanswer, hafter, hafter', hrest.answers]
        · simp only [Machine.last, hafter, hafter']
          exact hrest.last
        · intro last hlast
          rw [run_cons, hafter] at hlast
          rw [run_cons, hafter']
          exact hrest.run last hlast
      · constructor
        · simp only [Machine.answers, hanswer, hafter, hafter']
        · simp only [Machine.last, hafter, hafter']
          exact hleft
        · intro last hlast
          rw [run_cons, hafter] at hlast
          contradiction

/-! ## What was left in the frames -/

/-- Bytes for all frames of a machine, and the bytes that are found in the frame that is handed out
by a given request. -/
structure Residue (m : Machine) where
  frames : List Bytes
  found : Nat → Nat → UInt8
  count : frames.length = m.pool.frames.length
  whole : ∀ content ∈ frames, content.length = m.layout.pageBytes

def Residue.pool (r : m.Residue) : FramePool :=
  { m.pool with frames := r.frames, residue := r.found }

def withResidue (m : Machine) (r : m.Residue) : Machine :=
  m.withPool r.pool

theorem Residue.length_content (r : m.Residue) {f : Nat} (hf : f < m.pool.frames.length) :
    (r.pool.content f).length = m.layout.pageBytes :=
  r.whole _ (FramePool.content_mem (p := r.pool) (r.count.symm ▸ hf))

theorem Residue.twin (r : m.Residue) (k : m.Sound {} mem)
    (hfree : ∀ f < m.pool.frames.length, f ∈ m.pool.free) : Twin [] m.pool r.pool := by
  have houtside : ∀ f, m.pool.frames.length ≤ f → r.pool.content f = m.pool.content f := by
    intro f hf
    rw [FramePool.content_of_le hf]
    exact FramePool.content_of_le (r.count.symm ▸ hf)
  refine ⟨rfl, rfl, rfl, r.count, fun f => ?_, fun f hin _ => ?_⟩
  · by_cases hf : f < m.pool.frames.length
    · rw [r.length_content hf, k.length_content hf]
    · rw [houtside f (Nat.le_of_not_lt hf)]
  · exact houtside f (Nat.le_of_not_lt fun hf => hin (hfree f hf))

theorem free_of_boot {config : Config} {hardware : Hardware} {start : Machine}
    (h : boot config hardware = .ok start) :
    ∀ f < start.pool.frames.length, f ∈ start.pool.free := by
  rcases boot_eq_initial h with ⟨layout, area, report, rfl, -⟩
  intro f hf
  have hframes : f < (List.replicate hardware.frames (Bytes.filled layout.pageBytes 0)).length := hf
  rw [List.length_replicate] at hframes
  exact List.mem_range.mpr hframes

theorem boot_withResidue_sound {config : Config} {hardware : Hardware} {start : Machine}
    (h : boot config hardware = .ok start) (r : start.Residue) (mem : FlatMemory) :
    (start.withResidue r).Sound {} mem :=
  (boot_sound mem h).withTwin (r.twin (boot_sound mem h) (free_of_boot h)) (List.nil_subset [])

theorem runAlike_of_boot {config : Config} {hardware : Hardware} {start : Machine}
    (h : boot config hardware = .ok start) (one two : start.Residue) (ops : List Operation) :
    (start.withResidue one).RunAlike two.pool ops := by
  have k := boot_sound (fun _ _ => 0) h
  have hone := one.twin k (free_of_boot h)
  have htwo := two.twin k (free_of_boot h)
  exact (boot_withResidue_sound h one fun _ _ => 0).runAlike (hone.symm.trans htwo) ops

/-! ## Loads -/

/-- A load has left nothing of what the frame held: behind the part that comes from a file the page
is zero, and a custom loader has made its content from a zeroed page. -/
structure LoadedOver (m next : Machine) (p : Nat) (va : Vaddr) (page : Page) (f : Nat) : Prop where
  lookup : next.lookup p va = some page
  frame : page.frame = some f
  tail : ∀ x, (m.stateAt p va).source? = some x → ∀ i, x.readBytes.toNat ≤ i →
    i < m.layout.pageBytes → (next.pool.content f)[i]? = some 0
  custom : ∀ loader, m.stateAt p va = .uninit (.anon (some (.custom loader))) →
    next.pool.content f = Bytes.overlay (Bytes.filled m.layout.pageBytes 0) 0
      (loader.run (m.loaderRuns loader.counter) (Bytes.filled m.layout.pageBytes 0)).1

theorem Delivered.loadedOver {next : Machine} {p f : Nat} {va : Vaddr} {page : Page}
    (h : m.Delivered next p va page f) : m.LoadedOver next p va page f where
  lookup := h.lookup
  frame := h.frame
  tail x hx i hi hn := by
    rw [h.content, PageState.delivered_of_source hx]
    exact FileExtent.getElem?_image_of_le next.files hi hn
  custom loader hloader := by
    rw [h.content, hloader]
    rfl

theorem writeFrame_bind {α : Type} (f start : Nat) (data : Bytes) (k : Unit → Routine α)
    (m : Machine) :
    (writeFrame f start data >>= k) m = k () { m with pool := m.pool.write f start data } :=
  rfl

theorem readFrame_bind {α : Type} (f length : Nat) (k : Bytes → Routine α) (m : Machine) :
    (readFrame f length >>= k) m = k ((m.pool.content f).take length) m :=
  rfl

/-- A custom loader is given zeros, whatever the frame held: what it would do to another page does
not matter. -/
theorem runCustom_congr {loader loader' : CustomLoader} {f length : Nat}
    (hlength : (m.pool.content f).length = length) (hcounter : loader'.counter = loader.counter)
    (hzeros : ∀ earlier, loader'.run earlier (Bytes.filled length 0) =
      loader.run earlier (Bytes.filled length 0)) :
    runCustom loader' f length m = runCustom loader f length m := by
  have hread : ((m.pool.write f 0 (Bytes.filled length 0)).content f).take length =
      Bytes.filled length 0 := by
    rw [take_content_write_filled, hlength, Nat.min_self]
  unfold runCustom
  rw [writeFrame_bind, writeFrame_bind, readFrame_bind, readFrame_bind, hread, hcounter]
  simp only [hzeros]

/-! ## The result -/

/-- What earlier owners left in the frames is never shown. Two runs of the same operations from a
started machine, with any bytes in the frames and in those that the pool hands out, have the same
answers and end in states that differ in the pool alone, so with the same files, slots and writes to
files. If the runs complete, the pages have the same contents, too. Wherever a run has led, a load
covers the whole frame; and a custom loader is given a zeroed page. -/
theorem residue_never_shown {config : Config} {hardware : Hardware} {start : Machine}
    (hboot : boot config hardware = .ok start) (one two : start.Residue) (ops : List Operation) :
    (start.withResidue two).answers ops = (start.withResidue one).answers ops ∧
      (∃ q, (start.withResidue two).last ops = ((start.withResidue one).last ops).withPool q) ∧
      (∀ m, (start.withResidue one).run ops = some m →
        (∃ n, (start.withResidue two).run ops = some n ∧
          ∀ p va page f, m.page? p va = some page → page.frame = some f →
            n.page? p va = some page ∧ n.pool.content f = m.pool.content f) ∧
        ∀ (op : Operation) p va reply next, op.claims? = some (p, va) → m.Idle p va →
          op.perform m = .ok reply next → ∃ page f, m.LoadedOver next p va page f) ∧
      ∀ (m : Machine) (loader loader' : CustomLoader) f length,
        (m.pool.content f).length = length → loader'.counter = loader.counter →
        (∀ earlier, loader'.run earlier (Bytes.filled length 0) =
          loader.run earlier (Bytes.filled length 0)) →
        runCustom loader' f length m = runCustom loader f length m := by
  have halike := runAlike_of_boot hboot one two ops
  refine ⟨halike.answers, halike.last, fun m hrun => ?_,
    fun _ _ _ _ _ hlength hcounter hzeros => runCustom_congr hlength hcounter hzeros⟩
  rcases halike.run m hrun with ⟨⟨mem, k⟩, q, hsecond, htwin⟩
  refine ⟨⟨m.withPool q, hsecond, fun p va page f hpage hframe => ⟨hpage, ?_⟩⟩, ?_⟩
  · exact k.sameContent htwin hpage f hframe
  · intro op p va reply next hclaims hidle hserved
    rcases k.managed.loads op p va reply next hclaims hidle hserved with ⟨page, f, hdelivered⟩
    exact ⟨page, f, hdelivered.loadedOver⟩

def Residue.uniform (m : Machine) (b : UInt8) : m.Residue where
  frames := List.replicate m.pool.frames.length (Bytes.filled m.layout.pageBytes b)
  found := fun _ _ => b
  count := List.length_replicate
  whole content hcontent := by
    rw [List.eq_of_mem_replicate hcontent]
    exact Bytes.length_filled ..

def shown (answers : List (Except Stop Reply)) : List Bytes :=
  answers.filterMap fun answer =>
    match answer with
    | .ok (.data bytes) => some bytes
    | _ => none

/-- A page with a custom loader and a page of a short file are read; then each is evicted for a new
page, and the first is read again. -/
def reuse : List Operation :=
  [.start (.always true),
    .allocate 0 .anon 0x1000 true (some (.custom (.constant 0 [1, 2, 3] none none))),
    .map 0 0x2000 16 true 0 0, .claim 0 0x1000, .claim 0 0x2000, .read 0 0x1000 16,
    .read 0 0x2000 16, .allocate 0 .anon 0x3000 true none, .allocate 0 .anon 0x4000 true none,
    .claim 0 0x3000, .claim 0 0x4000, .read 0 0x3000 16, .claim 0 0x1000, .read 0 0x1000 16]

/-- Frames that are used for one page after the other show nothing of the bytes they had. -/
theorem nothing_shown_after_reuse : ∃ start,
    boot smallConfig (smallHardware (some (.blank 8 16)) [.patterned 5]) = .ok start ∧
      (Residue.uniform start 0x55).frames ≠ (Residue.uniform start 0xaa).frames ∧
      shown ((start.withResidue (.uniform start 0xaa)).answers reuse) =
        [[1, 2, 3] ++ Bytes.filled 13 0, [0, 1, 2, 3, 4] ++ Bytes.filled 11 0, Bytes.filled 16 0,
          [1, 2, 3] ++ Bytes.filled 13 0] ∧
      (start.withResidue (.uniform start 0x55)).answers reuse =
        (start.withResidue (.uniform start 0xaa)).answers reuse := by
  rcases exists_run smallConfig (smallHardware (some (.blank 8 16)) [.patterned 5]) []
    (fun start _ =>
      decide ((Residue.uniform start 0x55).frames ≠ (Residue.uniform start 0xaa).frames) &&
      decide (shown ((start.withResidue (.uniform start 0xaa)).answers reuse) =
        [[1, 2, 3] ++ Bytes.filled 13 0, [0, 1, 2, 3, 4] ++ Bytes.filled 11 0, Bytes.filled 16 0,
          [1, 2, 3] ++ Bytes.filled 13 0])) (by decide +kernel) with ⟨start, _, hboot, -, hcheck⟩
  rw [Bool.and_eq_true, decide_eq_true_eq, decide_eq_true_eq] at hcheck
  exact ⟨start, hboot, hcheck.1, hcheck.2,
    (residue_never_shown hboot (.uniform start 0xaa) (.uniform start 0x55) reuse).1⟩

end Machine
end DemandPaging
