import DemandPaging.Proofs.Machine.Moves
import DemandPaging.Proofs.Origin

/-!
# Routines on the parts of a sound machine

Each routine on one part of the machine keeps the machine sound. What a routine leaves alone is
said by `Machine.Beside`, or by giving the machine that it ends with.
-/

namespace DemandPaging
namespace Machine

open Routine

/-! ## Machines that differ beside the processes -/

/-- The processes of both machines are the same, and so are the ring and what later operations
depend on. -/
structure Beside (m n : Machine) : Prop where
  layout : n.layout = m.layout
  ring : n.ring = m.ring
  processes : n.processes = m.processes
  nextId : n.nextId = m.nextId
  loaderRuns : n.loaderRuns = m.loaderRuns

namespace Beside

variable {l m n : Machine}

theorem refl (m : Machine) : Beside m m :=
  ⟨rfl, rfl, rfl, rfl, rfl⟩

theorem trans (h : Beside l m) (h' : Beside m n) : Beside l n :=
  ⟨h'.layout.trans h.layout, h'.ring.trans h.ring, h'.processes.trans h.processes,
    h'.nextId.trans h.nextId, h'.loaderRuns.trans h.loaderRuns⟩

theorem process (h : Beside m n) (p : Nat) : n.process p = m.process p := by
  unfold Machine.process
  rw [h.processes]

theorem page? (h : Beside m n) (p : Nat) (va : Vaddr) : n.page? p va = m.page? p va := by
  unfold Machine.page?
  rw [h.process]

theorem link? (h : Beside m n) (p : Nat) (va : Vaddr) : n.link? p va = m.link? p va := by
  unfold Machine.link?
  rw [h.process]

end Beside

variable {m : Machine} {fatal : Abort → Prop}

/-! ## Single steps -/

section Steps

variable {failed : PagingError → Machine → Prop} {p : Nat} {va : Vaddr}

@[simp]
theorem ends_updatePage {change : Page → Page} {done : Unit → Machine → Prop} :
    Ends (updatePage p va change) m fatal done failed ↔ done () (m.modifyPage p va change) :=
  Iff.rfl

@[simp]
theorem ends_unmapPage {done : Bool → Machine → Prop} :
    Ends (unmapPage p va) m fatal done failed ↔
      done ((m.process p).mmu.unmap va).1 (m.unmapped p va) := Iff.rfl

@[simp]
theorem ends_setDirty {dirty : Bool} {done : Unit → Machine → Prop} :
    Ends (setDirty p va dirty) m fatal done failed ↔
      done () (m.modifyMmu p fun mmu => mmu.setDirty va dirty) := Iff.rfl

@[simp]
theorem ends_setAccessed {accessed : Bool} {done : Unit → Machine → Prop} :
    Ends (setAccessed p va accessed) m fatal done failed ↔
      done () (m.modifyMmu p fun mmu => mmu.setAccessed va accessed) := Iff.rfl

@[simp]
theorem ends_writeFrame {frame start : Nat} {data : Bytes} {done : Unit → Machine → Prop} :
    Ends (writeFrame frame start data) m fatal done failed ↔
      done () { m with pool := m.pool.write frame start data } := Iff.rfl

@[simp]
theorem ends_readFrame {frame length : Nat} {done : Bytes → Machine → Prop} :
    Ends (readFrame frame length) m fatal done failed ↔
      done ((m.pool.content frame).take length) m := Iff.rfl

@[simp]
theorem ends_modifyRing {change : FrameRing → FrameRing} {done : Unit → Machine → Prop} :
    Ends (modifyRing change) m fatal done failed ↔ done () { m with ring := change m.ring } :=
  Iff.rfl

@[simp]
theorem ends_setSwap {area : Swap.Area} {done : Unit → Machine → Prop} :
    Ends (setSwap area) m fatal done failed ↔ done () { m with swap := area } := Iff.rfl

@[simp]
theorem ends_setFile {f : Nat} {file : BackingFile} {done : Unit → Machine → Prop} :
    Ends (setFile f file) m fatal done failed ↔
      done () { m with files := m.files.set f file } := Iff.rfl

end Steps

variable {h : InHand} {mem : FlatMemory}

/-! ## The swap area -/

theorem ends_allocateSlot (k : m.Sound h mem) (hlock : Lock.swap ∉ h.locks) :
    Ends allocateSlot m fatal
      (fun slot next => m.Beside next ∧
        match slot with
        | some s => next.Sound { h with slots := s :: h.slots } mem
        | none => next.Sound h mem)
      fun _ _ => False := by
  have hfree : Lock.swap ∉ m.held := k.not_held hlock
  have klocked := k.locked .swap
  unfold allocateSlot
  rw [ends_withLock hfree]
  simp only [ends_bind, ends_get]
  cases hgiven : (m.locked .swap).swap.allocate? with
  | none => exact ⟨⟨rfl, rfl, rfl, rfl, rfl⟩, klocked.unlocked rfl⟩
  | some given =>
      simp only [ends_bind, ends_setSwap, ends_pure]
      refine ⟨⟨rfl, rfl, rfl, rfl, rfl⟩, ?_⟩
      rcases Option.map_eq_some_iff.mp hgiven with ⟨⟨s, slots⟩, hslots, rfl⟩
      rcases Swap.Bitmap.allocate?_eq_some k.swap.slots hslots with
        ⟨_, hunused, htotal, hform, hused⟩
      exact (klocked.allocateSlot hunused hform htotal hused).unlocked rfl

theorem ends_releaseSlot {s : Nat} (hlock : Lock.swap ∉ m.held)
    (hform : m.swap.slots.WellFormed) (hused : m.swap.slots.isUsed s = true) :
    Ends (releaseSlot s) m fatal
      (fun _ next => ∃ slots : Swap.Bitmap, slots.WellFormed ∧
        slots.total = m.swap.slots.total ∧
        (∀ t, slots.isUsed t = (!decide (t = s) && m.swap.slots.isUsed t)) ∧
        next = Machine.unlocked
          { m.locked .swap with swap := { m.swap with slots := slots } } .swap)
      fun _ _ => False := by
  rcases Swap.Bitmap.release_of_isUsed hform hused with ⟨slots, hrelease, htotal, hform', hused'⟩
  have harea : (m.locked .swap).swap.release s = .ok { m.swap with slots := slots } := by
    show (m.swap.slots.release s).map _ = _
    rw [hrelease]
    rfl
  unfold releaseSlot
  rw [ends_withLock hlock]
  simp only [ends_bind, ends_get, harea, ends_ofAbort_ok, ends_setSwap]
  exact ⟨slots, hform', htotal, hused', rfl⟩

theorem ends_returnSlot {s : Nat} {rest : List Nat} (k : m.Sound h mem)
    (hrest : h.slots = s :: rest) (hlock : Lock.swap ∉ h.locks) :
    Ends (releaseSlot s) m fatal
      (fun _ next => m.Beside next ∧ next.Sound { h with slots := rest } mem)
      fun _ _ => False := by
  have hfree : Lock.swap ∉ m.held := k.not_held hlock
  have hused : m.swap.slots.isUsed s = true :=
    k.slots.used_of_mem (hrest ▸ List.mem_cons_self)
  refine (ends_releaseSlot hfree k.swap.slots hused).mono ?_ fun _ _ hfalse => hfalse
  intro _ next hnext
  rcases hnext with ⟨slots, hform, htotal, hused', rfl⟩
  exact ⟨⟨rfl, rfl, rfl, rfl, rfl⟩,
    ((k.locked .swap).releaseSlot hrest hform htotal hused').unlocked rfl⟩

theorem ends_writeSlot {s : Nat} {bytes : Bytes} (k : m.Sound h mem) (hs : s ∈ h.slots)
    (hlength : bytes.length = m.layout.pageBytes) :
    Ends (writeSlot s bytes) m fatal
      (fun _ next => m.Beside next ∧ next.Sound h mem ∧ next.swap.slotContent s = bytes)
      fun _ next => m.Beside next ∧ next.Sound h mem := by
  have hlt := k.slot_lt (k.slots.used_of_mem hs)
  have hfits := k.swap.afterWrite s bytes
  have hother := (m.swap.write_frame s bytes).2
  rcases Swap.Area.write_spec k.swap hlt hlength with ⟨disk, harea, hresult⟩
  rw [harea] at hfits hother hresult
  have kdisk : Sound { m with swap := { m.swap with disk := some disk } } h mem :=
    k.withDisk hfits fun t ht => hother t fun heq => ht (heq ▸ hs)
  unfold writeSlot
  simp only [ends_bind, ends_get, harea, ends_setSwap]
  rcases hresult with ⟨hok, hcontent⟩ | ⟨sector, herror⟩
  · rw [hok]
    exact ⟨⟨rfl, rfl, rfl, rfl, rfl⟩, kdisk, hcontent⟩
  · rw [herror]
    exact ⟨⟨rfl, rfl, rfl, rfl, rfl⟩, kdisk.recorded _⟩

theorem ends_readSlot {s f : Nat} (k : m.Sound h mem) (hused : m.swap.slots.isUsed s = true)
    (hf : f < m.pool.frames.length) (hfilling : f ∈ h.filling) :
    Ends (readSlot s f m.layout.pageBytes) m fatal
      (fun _ next => m.Beside next ∧ next.Sound h mem ∧
        next.pool.content f = m.swap.slotContent s)
      fun _ next => m.Beside next ∧ next.Sound h mem := by
  have hlt := k.slot_lt hused
  have hwhole : (m.pool.content f).take m.layout.pageBytes = m.pool.content f :=
    List.take_of_length_le (Nat.le_of_eq (k.length_content hf))
  rcases Swap.Area.read_spec k.swap hlt (k.length_content hf) with
    ⟨disk, harea, hfits, hother, hresult⟩
  rw [harea] at hfits hother
  have kdisk : Sound { m with swap := { m.swap with disk := some disk } } h mem :=
    k.withDisk hfits fun t _ => hother t
  have kread := fun data => kdisk.writeFrame 0 data hf hfilling
  unfold readSlot
  simp only [ends_bind, ends_readFrame, ends_get, hwhole, harea, ends_setSwap, ends_writeFrame]
  rcases hresult with ⟨hok, hdata⟩ | ⟨sector, herror⟩
  · rw [hok]
    refine ⟨⟨rfl, rfl, rfl, rfl, rfl⟩, kread _, ?_⟩
    refine (FramePool.content_setContent_self hf).trans ?_
    rw [hdata]
    refine Bytes.overlay_zero_of_length_eq ?_
    exact (k.swap.slotContent_length hlt).trans (k.length_content hf).symm
  · rw [herror]
    exact ⟨⟨rfl, rfl, rfl, rfl, rfl⟩, (kread _).recorded _⟩

/-! ## The pool -/

theorem ends_takeFromPool (k : m.Sound h mem) :
    Ends takeFromPool m fatal
      (fun frame next => m.Beside next ∧
        match frame with
        | some f => next.Sound { h with loose := f :: h.loose } mem
        | none => m.pool.GivesNone ∧ next.Sound h mem)
      fun _ _ => False := by
  unfold takeFromPool
  simp only [ends_bind, ends_get, ends_modify, ends_pure]
  refine ⟨⟨rfl, rfl, rfl, rfl, rfl⟩, ?_⟩
  rcases m.pool.take_cases with hnone | ⟨f, rest, content, hfree, hlength, hsome⟩
  · have hgives := FramePool.givesNone_of_take (congrArg Prod.fst hnone)
    rw [hnone]
    exact ⟨hgives, k.refuseFrame⟩
  · rw [hsome]
    exact k.take hfree hlength

theorem ends_returnToPool {f : Nat} {loose : List Nat} (k : m.Sound h mem)
    (hloose : h.loose = f :: loose) :
    Ends (returnToPool f) m fatal
      (fun _ next => m.Beside next ∧ next.Sound { h with loose := loose } mem)
      fun _ _ => False := by
  have hframes := k.frames
  rw [hloose] at hframes
  unfold returnToPool
  simp only [ends_bind, ends_get, FramePool.giveBack_of_not_mem hframes.not_free_of_loose,
    ends_ofAbort_ok, ends_modify]
  exact ⟨⟨rfl, rfl, rfl, rfl, rfl⟩, k.giveBack hloose⟩

/-! ## Mappings -/

theorem ends_mapPage {p f : Nat} {va : Vaddr} {page : Page} (k : m.Sound h mem)
    (hpage : m.page? p va = some page) (hframe : page.frame = some f)
    (hfree : m.link? p va = none) :
    Ends (mapPage p va f page.writable) m fatal
      (fun accepted next => next.Sound h mem ∧
        (∃ unit, next = m.modifyMmu p fun _ => unit) ∧
        match accepted with
        | true => next.link? p va = some (f, page.writable)
        | false => next.link? p va = none ∧ next.HasRefused p)
      fun _ _ => False := by
  have hp := lt_of_page?_eq_some hpage
  unfold mapPage
  simp only [ends_bind, ends_get, ends_modify, k.map_of_page hpage hfree]
  split
  · rw [ends_ofAbort_ok]
    refine ⟨k.link hpage hframe, ⟨_, rfl⟩, ?_⟩
    show Machine.link? _ p va = _
    rw [link?_modifyMmu_eq hp fun _ => Mmu.link?_linked, setAt_self]
  · rename_i hrefusal
    rw [ends_ofAbort_ok]
    refine ⟨k.decline hp, ⟨_, rfl⟩, ?_, ?_⟩
    · rw [link?, mmu_modifyMmu hp, if_pos rfl]
      exact hfree
    · rw [HasRefused, mmu_modifyMmu hp, if_pos rfl]
      exact Mmu.hasRefused_declined (by simpa using hrefusal)

/-! ## Files -/

theorem ends_readFile {f offset count : Nat} (k : m.Sound h mem) :
    Ends (readFile f offset count) m fatal
      (fun data next => m.Beside next ∧ next.Sound h mem ∧ next.pool = m.pool ∧
        next.swap = m.swap ∧
        ∀ bytes, data = some bytes → bytes.length = count →
          bytes = ((next.file f).content.drop offset).take count)
      fun _ _ => False := by
  unfold readFile
  simp only [ends_bind, ends_get, ends_setFile, ends_pure, true_and]
  refine ⟨⟨rfl, rfl, rfl, rfl, rfl⟩, { k with }, ?_⟩
  intro bytes hbytes hwhole
  have hafter : (Machine.file
      { m with files := m.files.set f ((m.file f).read offset count).2 } f).content =
        (m.file f).content := by
    by_cases hf : f < m.files.length
    · have hread : ((m.file f).read offset count).2.content = (m.file f).content := by
        unfold BackingFile.read
        split <;> rfl
      rw [← hread]
      simp only [file, List.getD_eq_getElem?_getD, List.getElem?_set_self hf, Option.getD_some]
    · simp only [file, List.set_eq_of_length_le (Nat.le_of_not_lt hf)]
  rw [hafter]
  exact BackingFile.read_eq_some hbytes hwhole

theorem ends_writeFile {owner : Owner} {f : Nat} {offset : UInt64} {data : Bytes}
    (k : m.Sound h mem) :
    Ends (writeFile owner f offset data) m fatal
      (fun _ next => m.Beside next ∧ next.Sound h mem) fun _ _ => False := by
  unfold writeFile
  simp only [ends_bind, ends_get, ends_setFile, ends_record, ends_pure]
  exact ⟨⟨rfl, rfl, rfl, rfl, rfl⟩, { k with }⟩

end Machine
end DemandPaging
