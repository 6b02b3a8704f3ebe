import DemandPaging.Proofs.Custody.Links
import DemandPaging.Proofs.Custody.Slots
import DemandPaging.Proofs.FlatMemory
import DemandPaging.Proofs.FramePool
import DemandPaging.Proofs.Machine.Views
import DemandPaging.Proofs.Routine
import DemandPaging.Proofs.Swap.Area

/-!
# Sound machines

The rules that tie the parts of a machine together. `Machine.Sound` has three arguments: the
machine, what an operation has in hand at the moment, and the flat memory that the anonymous pages
of the machine stand for. Between operations nothing is in hand; within an operation the rules are
relaxed exactly for what is.
-/

namespace DemandPaging

/-- What an operation has in hand while it runs. -/
structure InHand where
  /-- The locks that are held, the latest first. -/
  locks : List Lock := []
  /-- The frames whose content is not complete. -/
  filling : List Nat := []
  /-- The frames whose page is not mapped because its content is being saved. -/
  parting : List Nat := []
  /-- The frames that are neither free nor listed. -/
  loose : List Nat := []
  /-- The listed frames that no registered page holds. -/
  stray : List Nat := []
  /-- The used slots that no registered page records. -/
  slots : List Nat := []
  /-- Where there may be mappings without a registered page. -/
  unlinked : List (Nat × Vaddr) := []

def InHand.taking (h : InHand) (p : Nat) (page : Page) : InHand :=
  { h with
    stray := page.frame.toList ++ h.stray
    slots := page.slot.toList ++ h.slots
    unlinked := if page.isResident then (p, page.va) :: h.unlinked else h.unlinked }

def InHand.takingAll (h : InHand) (p : Nat) : List Page → InHand
  | [] => h
  | page :: rest => (h.takingAll p rest).taking p page

@[simp]
theorem InHand.locks_takingAll (h : InHand) (p : Nat) (pages : List Page) :
    (h.takingAll p pages).locks = h.locks := by
  induction pages with
  | nil => rfl
  | cons page rest ih => exact ih

@[simp]
theorem InHand.filling_takingAll (h : InHand) (p : Nat) (pages : List Page) :
    (h.takingAll p pages).filling = h.filling := by
  induction pages with
  | nil => rfl
  | cons page rest ih => exact ih

theorem InHand.not_mem_locks_takingAll (p : Nat) (pages : List Page) (lock : Lock) :
    lock ∉ (InHand.takingAll {} p pages).locks := by
  rw [InHand.locks_takingAll]
  exact List.not_mem_nil

/-! ## Rules for a page -/

namespace Page

structure Placed (page : Page) (l : Layout) (filling : List Nat) (p : Nat) (va : Vaddr) :
    Prop where
  address : page.va = va
  unit : page.mmu = p
  size : page.pageSize = l.pageSize
  aligned : Word.isAligned va l.pageSize = true
  extent : ∀ x, page.state = .file x → x.readBytes.toNat ≤ l.pageBytes
  loaded : ∀ f, page.frame = some f →
    f ∈ filling ∨ page.state = .anon none ∨ ∃ x, page.state = .file x

/-- An anonymous page holds the given bytes: in its slot, in its frame, or, when it has neither,
as zeros. -/
structure Holds (page : Page) (content slotContent : Nat → Bytes) (filling : List Nat)
    (bytes : Bytes) : Prop where
  inSlot : ∀ s, page.state = .anon (some s) → slotContent s = bytes
  inFrame : ∀ f, page.state = .anon none → page.frame = some f → f ∈ filling ∨ content f = bytes
  blank : page.state = .anon none → page.frame = none → bytes = Bytes.filled bytes.length 0

theorem Placed.mono {page : Page} {l : Layout} {filling filling' : List Nat} {p : Nat} {va : Vaddr}
    (h : page.Placed l filling p va)
    (hfilling : ∀ f, page.frame = some f → f ∈ filling → f ∈ filling') :
    page.Placed l filling' p va :=
  { h with loaded := fun f hframe => (h.loaded f hframe).imp_left (hfilling f hframe) }

theorem Placed.takingAll {page : Page} {l : Layout} {p q : Nat} {va : Vaddr}
    (h : page.Placed l [] p va) (pages : List Page) :
    page.Placed l (InHand.takingAll {} q pages).filling p va := by
  rw [InHand.filling_takingAll]
  exact h

theorem Holds.mono {page : Page} {content slotContent : Nat → Bytes} {filling filling' : List Nat}
    {bytes : Bytes} (h : page.Holds content slotContent filling bytes)
    (hfilling : ∀ f, page.frame = some f → f ∈ filling → f ∈ filling') :
    page.Holds content slotContent filling' bytes :=
  { h with
    inFrame := fun f hstate hframe => (h.inFrame f hstate hframe).imp_left (hfilling f hframe) }

end Page

namespace Machine

/-! ## The rules for the machine -/

/-- The parts of the machine agree with each other, but for what is in hand, and its anonymous
pages hold the bytes of the flat memory. -/
structure Sound (m : Machine) (h : InHand) (mem : FlatMemory) : Prop where
  held : m.held = h.locks
  pool : m.pool.pageBytes = m.layout.pageBytes
  frameBytes : ∀ content ∈ m.pool.frames, content.length = m.layout.pageBytes
  swap : m.swap.Fits m.layout.pageBytes
  units : ∀ p < m.processes.length, (m.process p).mmu.pageSize = m.layout.pageSize ∧
    (m.process p).mmu.refusing = false
  torn : ∀ p, (m.process p).ended = true → (m.process p).tornDown = true
  closed : ∀ p, (m.process p).tornDown = true → ∀ va, m.page? p va = none
  placed : ∀ p va page, m.page? p va = some page → page.Placed m.layout h.filling p va
  frames : FramesKept m.page? m.ring.entries m.pool.free h.loose h.stray h.filling
    m.pool.frames.length
  slots : SlotsKept m.page? m.swap.slots.isUsed h.slots
  links : LinksKept m.page? m.link? h.unlinked h.filling h.parting m.HasRefused
  contents : ∀ p va page, m.page? p va = some page →
    page.Holds m.pool.content m.swap.slotContent h.filling (mem.image p va m.layout.pageBytes)

namespace Sound

variable {m n : Machine} {h : InHand} {mem : FlatMemory} {p f s : Nat} {va : Vaddr} {page : Page}

/-! ## Consequences -/

theorem powerOfTwo (_ : m.Sound h mem) : Word.isPowerOfTwo m.layout.pageSize = true :=
  m.layout.fits.1

theorem not_held {lock : Lock} (k : m.Sound h mem) (hlock : lock ∉ h.locks) : lock ∉ m.held := by
  rw [k.held]
  exact hlock

theorem frame_lt (k : m.Sound h mem) (hpage : m.page? p va = some page)
    (hframe : page.frame = some f) : f < m.pool.frames.length :=
  k.frames.lt_capacity (k.frames.held_listed hpage hframe)

theorem not_free (k : m.Sound h mem) (hpage : m.page? p va = some page)
    (hframe : page.frame = some f) : f ∉ m.pool.free := by
  intro hfree
  have hnodup := k.frames.nodup
  rw [List.append_assoc] at hnodup
  exact List.disjoint_of_nodup_append hnodup hfree
    (List.mem_append_right h.loose (k.frames.held_listed hpage hframe))

theorem length_content (k : m.Sound h mem) (hf : f < m.pool.frames.length) :
    (m.pool.content f).length = m.layout.pageBytes :=
  k.frameBytes _ (FramePool.content_mem hf)

theorem bytes_eq (k : m.Sound h mem) (hpage : m.page? p va = some page) :
    page.bytes = m.layout.pageBytes :=
  congrArg UInt64.toNat (k.placed p va page hpage).size

theorem isOpen (k : m.Sound h mem) (hpage : m.page? p va = some page) :
    (m.process p).tornDown = false := by
  cases htorn : (m.process p).tornDown with
  | false => rfl
  | true =>
      rw [k.closed p htorn va] at hpage
      contradiction

theorem slot_lt (k : m.Sound h mem) (hused : m.swap.slots.isUsed s = true) :
    s < m.swap.slots.total :=
  k.swap.slots.lt_total hused

theorem not_stray (k : m.Sound h mem) (hpage : m.page? p va = some page)
    (hframe : page.frame = some f) : f ∉ h.stray :=
  (k.frames.listed p va page f hpage hframe).1

theorem state_of_frame {locks : List Lock} (k : m.Sound { locks := locks } mem)
    (hpage : m.page? p va = some page) (hframe : page.frame = some f) :
    page.state = .anon none ∨ ∃ x, page.state = .file x :=
  ((k.placed p va page hpage).loaded f hframe).resolve_left List.not_mem_nil

theorem state_of_anon_frame {locks : List Lock} (k : m.Sound { locks := locks } mem)
    (hpage : m.page? p va = some page) (hframe : page.frame = some f)
    (hanon : page.effectiveClass = .anon) : page.state = .anon none := by
  rcases k.state_of_frame hpage hframe with hstate | ⟨x, hfile⟩
  · exact hstate
  · rw [Page.effectiveClass, hfile] at hanon
    contradiction

theorem slot_of_frame {locks : List Lock} (k : m.Sound { locks := locks } mem)
    (hpage : m.page? p va = some page) (hframe : page.frame = some f) : page.slot = none := by
  unfold Page.slot
  rcases k.state_of_frame hpage hframe with hanon | ⟨x, hfile⟩
  · rw [hanon]
    rfl
  · rw [hfile]
    rfl

theorem link?_eq_none (k : m.Sound h mem) (hidle : (m.page? p va).bind Page.frame = none)
    (hunlinked : (p, va) ∉ h.unlinked) : m.link? p va = none := by
  cases hlink : m.link? p va with
  | none => rfl
  | some l =>
      exact absurd (k.links.unlinked_of_idle hidle (by rw [hlink]; rfl)) hunlinked

theorem map_of_page {w : Bool} (k : m.Sound h mem) (hpage : m.page? p va = some page)
    (hfree : m.link? p va = none) :
    (m.process p).mmu.map va f w =
      if (m.process p).mmu.accepting.peek then (.ok true, (m.process p).mmu.linked va f w)
      else (.ok false, (m.process p).mmu.declined) := by
  rcases k.units p (lt_of_page?_eq_some hpage) with ⟨hsize, hwilling⟩
  have haligned : va % (m.process p).mmu.pageSize = 0 := by
    rw [hsize, ← Word.offsetIn_eq_mod k.powerOfTwo]
    exact beq_iff_eq.mp (k.placed p va page hpage).aligned
  exact Mmu.map_of_free haligned hwilling hfree

theorem backed (k : m.Sound {} mem) {e : PageEntry} (he : m.mapped? p va = some e) :
    ∃ page, m.page? p va = some page ∧ page.frame = some e.frame ∧
      page.writable = e.writable := by
  have hlink : m.link? p va = some (e.frame, e.writable) :=
    link?_eq_some_iff.mpr ⟨e, he, rfl, rfl⟩
  exact (k.links.backed p va e.frame e.writable hlink).resolve_left List.not_mem_nil

/-! ## Changes beside the rules -/

theorem withMem (k : m.Sound h mem) {mem' : FlatMemory}
    (hmem : ∀ p va page, m.page? p va = some page →
      page.Holds m.pool.content m.swap.slotContent h.filling
        (mem'.image p va m.layout.pageBytes)) : m.Sound h mem' :=
  { k with contents := hmem }

theorem image_store (k : m.Sound h mem) {data : Bytes}
    (haligned : Word.isAligned va m.layout.pageSize = true)
    (hlength : data.length = m.layout.pageBytes) :
    (mem.store p va data).image p va m.layout.pageBytes = data :=
  FlatMemory.image_store_block k.powerOfTwo haligned hlength

/-- A page may stand for other bytes if it holds them already. -/
theorem promise (k : m.Sound h mem) {data : Bytes}
    (haligned : Word.isAligned va m.layout.pageSize = true)
    (hlength : data.length = m.layout.pageBytes)
    (hholds : ∀ page, m.page? p va = some page →
      page.Holds m.pool.content m.swap.slotContent h.filling data) :
    m.Sound h (mem.store p va data) := by
  refine k.withMem ?_
  intro q wa other hother
  by_cases hat : q = p ∧ wa = va
  · rcases hat with ⟨rfl, rfl⟩
    rw [k.image_store haligned hlength]
    exact hholds other hother
  · rw [Layout.pageBytes, FlatMemory.image_store_block_of_ne k.powerOfTwo haligned
      (k.placed q wa other hother).aligned hlength hat]
    exact k.contents q wa other hother

/-- A page whose frame is being filled may stand for any bytes. -/
theorem promiseFilling (k : m.Sound h mem) {data : Bytes} (hpage : m.page? p va = some page)
    (hframe : page.frame = some f) (hfilling : f ∈ h.filling) (hslot : page.slot = none)
    (hlength : data.length = m.layout.pageBytes) : m.Sound h (mem.store p va data) := by
  refine k.promise (k.placed p va page hpage).aligned hlength ?_
  intro other hother
  cases hpage.symm.trans hother
  constructor
  · intro s hstate
    rw [Page.slot, hstate] at hslot
    contradiction
  · intro g _ hg
    cases hframe.symm.trans hg
    exact Or.inl hfilling
  · intro _ hnone
    rw [hnone] at hframe
    contradiction

@[simp]
theorem recorded (k : m.Sound h mem) (event : Event) : (m.recorded event).Sound h mem :=
  { k with }

theorem countRun (k : m.Sound h mem) (counter : Nat) : (m.countRun counter).Sound h mem :=
  { k with }

theorem locked (k : m.Sound h mem) (lock : Lock) :
    (m.locked lock).Sound { h with locks := lock :: h.locks } mem :=
  { k with held := congrArg (lock :: ·) k.held }

theorem seized (k : m.Sound h mem) (lock : Lock) :
    (m.seized lock).Sound { h with locks := lock :: h.locks } mem :=
  { k with held := congrArg (lock :: ·) k.held }

theorem unlocked {lock : Lock} {locks : List Lock} (k : m.Sound h mem)
    (hlocks : h.locks = lock :: locks) :
    (m.unlocked lock).Sound { h with locks := locks } mem :=
  { k with
    held := by
      show m.held.erase lock = locks
      rw [k.held, hlocks]
      exact List.erase_cons_head lock locks }

theorem modifyProcess (k : m.Sound h mem) (p : Nat) (change : Process → Process)
    (hpages : ∀ process, (change process).pages = process.pages)
    (hlinks : ∀ process va, (change process).mmu.link? va = process.mmu.link? va)
    (hsize : ∀ process, (change process).mmu.pageSize = process.mmu.pageSize)
    (hrefusing : ∀ process, (change process).mmu.refusing = process.mmu.refusing)
    (haccepting : ∀ process, (change process).mmu.accepting = process.mmu.accepting)
    (htorn : (change (m.process p)).ended = true → (change (m.process p)).tornDown = true)
    (hclosed : (change (m.process p)).tornDown = true → ∀ va, m.page? p va = none) :
    (m.modifyProcess p change).Sound h mem := by
  have hprocess : ∀ q, (m.modifyProcess p change).process q = m.process q ∨
      q = p ∧ (m.modifyProcess p change).process q = change (m.process p) := by
    intro q
    by_cases hp : p < m.processes.length
    · rw [process_modifyProcess m p q change hp]
      split
      · rename_i hq
        rw [hq]
        exact Or.inr ⟨rfl, rfl⟩
      · exact Or.inl rfl
    · rw [modifyProcess_absent (Nat.le_of_not_lt hp)]
      exact Or.inl rfl
  have hpage : (m.modifyProcess p change).page? = m.page? := by
    funext q wa
    exact process_modifyProcess_of_forall m p q (fun process => process.pages.get? wa)
      fun process => congrArg (·.get? wa) (hpages process)
  have hlink : (m.modifyProcess p change).link? = m.link? := by
    funext q wa
    exact process_modifyProcess_of_forall m p q (fun process => process.mmu.link? wa)
      fun process => hlinks process wa
  have hrefused : (m.modifyProcess p change).HasRefused = m.HasRefused := by
    funext q
    exact process_modifyProcess_of_forall m p q
      (fun process => ∃ call < process.mmu.accepting.calls,
        process.mmu.accepting.outcome call = false)
      fun process => by rw [haccepting]
  constructor
  · exact k.held
  · exact k.pool
  · exact k.frameBytes
  · exact k.swap
  · intro q hq
    rw [length_modifyProcess] at hq
    rcases k.units q hq with ⟨hunit, hwilling⟩
    have hunit' := process_modifyProcess_of_forall m p q (fun process => process.mmu.pageSize)
      fun process => hsize process
    have hwilling' := process_modifyProcess_of_forall m p q
      (fun process => process.mmu.refusing) fun process => hrefusing process
    exact ⟨hunit'.trans hunit, hwilling'.trans hwilling⟩
  · intro q
    rcases hprocess q with hsame | ⟨_, hchanged⟩
    · rw [hsame]
      exact k.torn q
    · rw [hchanged]
      exact htorn
  · intro q
    rw [hpage]
    rcases hprocess q with hsame | ⟨rfl, hchanged⟩
    · rw [hsame]
      exact k.closed q
    · rw [hchanged]
      exact hclosed
  · rw [hpage]
    exact k.placed
  · rw [hpage]
    exact k.frames
  · rw [hpage]
    exact k.slots
  · rw [hpage, hlink, hrefused]
    exact k.links
  · rw [hpage]
    exact k.contents

theorem modifyMappings (k : m.Sound h mem) (p : Nat)
    (change : AddressMap FileMapping → AddressMap FileMapping) :
    (m.modifyMappings p change).Sound h mem :=
  k.modifyProcess p _ (fun _ => rfl) (fun _ _ => rfl) (fun _ => rfl) (fun _ => rfl)
    (fun _ => rfl) (k.torn p) (k.closed p)

theorem setDirty (k : m.Sound h mem) (p : Nat) (va : Vaddr) (dirty : Bool) :
    (m.modifyMmu p fun mmu => mmu.setDirty va dirty).Sound h mem :=
  k.modifyProcess p _ (fun _ => rfl)
    (fun process wa => Mmu.link?_setDirty process.mmu va wa dirty)
    (fun _ => rfl) (fun _ => rfl) (fun _ => rfl) (k.torn p) (k.closed p)

theorem setAccessed (k : m.Sound h mem) (p : Nat) (va : Vaddr) (accessed : Bool) :
    (m.modifyMmu p fun mmu => mmu.setAccessed va accessed).Sound h mem :=
  k.modifyProcess p _ (fun _ => rfl)
    (fun process wa => Mmu.link?_setAccessed process.mmu va wa accessed)
    (fun _ => rfl) (fun _ => rfl) (fun _ => rfl) (k.torn p) (k.closed p)

end Sound
end Machine
end DemandPaging
