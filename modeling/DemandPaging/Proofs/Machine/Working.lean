import DemandPaging.Proofs.Machine.Delivery
import DemandPaging.Proofs.Machine.Keeping

/-!
# Claims that cannot fail

A claim fails because its mapping is refused or because its page cannot be loaded. While the memory
management unit accepts and the source of the page answers, it does not fail, however many pages
are evicted on the way: an eviction reads no file, no sector and no loader, and it leaves the
lengths of the files alone.
-/

namespace DemandPaging

/-! ## Calls that are let through -/

def Schedule.Open (s : Schedule Bool) : Prop :=
  ∀ call, s.calls ≤ call → s.outcome call = true

namespace Schedule

theorem Open.peek {s : Schedule Bool} (h : s.Open) : s.peek = true :=
  h s.calls (Nat.le_refl _)

theorem Open.advance {s : Schedule Bool} (h : s.Open) : s.advance.Open :=
  fun call hcall => h call (Nat.le_of_succ_le hcall)

end Schedule

namespace Swap
namespace Area

theorem readSector_open {disk : Disk} {sector : Nat} (hopen : disk.reading.Open)
    (hlt : sector < disk.sectors.length) :
    disk.readSector sector disk.sectorSize = (some disk.sectors[sector],
      Disk.countRead { disk with reading := disk.reading.advance }) := by
  unfold Disk.readSector
  rw [hopen.peek, Bool.true_and, if_pos (beq_self_eq_true _), List.getElem?_eq_getElem hlt]

theorem readSectors_open {disk : Disk} {sector count : Nat} (hopen : disk.reading.Open)
    (hroom : sector + count ≤ disk.sectors.length) :
    (readSectors disk sector count).2.1 = none := by
  induction count generalizing disk sector with
  | zero => rfl
  | succ count ih =>
      unfold readSectors
      rw [readSector_open hopen (by omega)]
      apply ih
      · exact hopen.advance
      · show sector + 1 + count ≤ disk.sectors.length
        omega

theorem Fits.read_open {a : Area} {pageBytes slot : Nat} {buffer : Bytes} (h : a.Fits pageBytes)
    (hslot : slot < a.slots.total) (hbuffer : buffer.length = pageBytes)
    (hopen : ∀ disk, a.disk = some disk → disk.reading.Open) :
    (a.read slot buffer).1 = .ok () := by
  rcases h.exists_disk hslot with ⟨disk, hdisk⟩
  have hroom : a.firstSector slot + a.sectorsPerPage ≤ disk.sectors.length := by
    have hmul : (slot + 1) * a.sectorsPerPage ≤ a.slots.total * a.sectorsPerPage :=
      Nat.mul_le_mul_right _ hslot
    rw [Nat.succ_mul] at hmul
    exact Nat.le_trans hmul (h.room disk hdisk)
  have hnone := readSectors_open (hopen disk hdisk) hroom
  rcases hread : readSectors disk (a.firstSector slot) a.sectorsPerPage with ⟨data, refusal, after⟩
  rw [hread] at hnone
  rw [read_eq hdisk (hbuffer.trans (h.page disk hdisk).symm) hread,
    show refusal = none from hnone]
  rfl

end Area
end Swap

namespace Machine

open Routine

/-! ## Sources that answer -/

def Yields (m : Machine) (x : FileExtent) : Prop :=
  x.readBytes.toNat ≤ m.layout.pageBytes ∧ (file m x.file).reading.peek = .whole ∧
    x.offset.toNat + x.readBytes.toNat ≤ (file m x.file).content.length

def Loads (m : Machine) : PageState → Prop
  | .uninit (.anon none) | .anon none => True
  | .uninit (.anon (some (.file x))) | .uninit (.file x) | .file x => m.Yields x
  | .uninit (.anon (some (.custom loader))) =>
      (loader.run (m.loaderRuns loader.counter) (Bytes.filled m.layout.pageBytes 0)).2 = none
  | .anon (some _) => ∀ disk, m.swap.disk = some disk → disk.reading.Open

structure Works (m : Machine) (p : Nat) (state : PageState) : Prop where
  mapping : (m.process p).mmu.accepting.Open
  loading : m.Loads state

/-! ## Evictions do not stop what works -/

/-- Mappings and loads that would be served in one machine would be served in the other. -/
structure Lasting (m n : Machine) : Prop where
  layout : n.layout = m.layout
  accepting : ∀ p, (m.process p).mmu.AcceptsAlike (n.process p).mmu
  swap : m.swap.ReadsAlike n.swap
  runs : n.loaderRuns = m.loaderRuns
  reading : n.files.map BackingFile.reading = m.files.map BackingFile.reading
  lengths : n.files.map (fun f => f.content.length) = m.files.map fun f => f.content.length

variable {m n next : Machine} {mem : FlatMemory} {h : InHand} {p f : Nat} {va : Vaddr}
  {page : Page} {state : PageState} {fatal : Abort → Prop}

theorem Lasting.refl (m : Machine) : Lasting m m :=
  ⟨rfl, fun _ => ⟨rfl, Nat.le_refl _⟩, rfl, rfl, rfl, rfl⟩

theorem Lasting.trans {l : Machine} (hl : Lasting l m) (hm : Lasting m n) : Lasting l n where
  layout := hm.layout.trans hl.layout
  accepting := fun p => ⟨(hm.accepting p).1.trans (hl.accepting p).1,
    Nat.le_trans (hl.accepting p).2 (hm.accepting p).2⟩
  swap := Eq.trans hm.swap hl.swap
  runs := hm.runs.trans hl.runs
  reading := hm.reading.trans hl.reading
  lengths := hm.lengths.trans hl.lengths

theorem Lasting.modifyProcess (m : Machine) (p : Nat) (change : Process → Process)
    (haccepting : (m.process p).mmu.AcceptsAlike (change (m.process p)).mmu) :
    Lasting m (m.modifyProcess p change) := by
  refine ⟨rfl, ?_, rfl, rfl, rfl, rfl⟩
  intro q
  by_cases hp : p < m.processes.length
  · rw [process_modifyProcess m p q change hp]
    split
    · rename_i hq
      rw [hq]
      exact haccepting
    · exact ⟨rfl, Nat.le_refl _⟩
  · rw [modifyProcess_absent (Nat.le_of_not_lt hp)]
    exact ⟨rfl, Nat.le_refl _⟩

theorem lasting_ignores : IgnoresEviction Lasting where
  refl := .refl
  trans := fun _ _ _ => .trans
  locked := fun m _ => { Lasting.refl m with }
  seized := fun m _ => { Lasting.refl m with }
  unlocked := fun m _ => { Lasting.refl m with }
  contended := fun m _ => { Lasting.refl m with }
  reported := fun m _ => { Lasting.refl m with }
  setSwap := fun m _ hreads => { Lasting.refl m with swap := hreads }
  recorded := fun m _ => { Lasting.refl m with }
  modifyPage := fun m p _ _ _ => .modifyProcess m p _ ⟨rfl, Nat.le_refl _⟩
  modifyMmu := fun m p _ haccepting => .modifyProcess m p _ haccepting
  writeFile := fun m f offset data =>
    { Lasting.refl m with
      reading := m.map_setFile _ (BackingFile.reading_write (file m f) offset data)
      lengths := m.map_setFile _ (BackingFile.length_write (file m f) offset data) }
  modifyRing := fun m _ => { Lasting.refl m with }
  takeFrame := fun m => { Lasting.refl m with }

theorem Lasting.open (hlasting : Lasting m n) (p : Nat) (hopen : (m.process p).mmu.accepting.Open) :
    (n.process p).mmu.accepting.Open := by
  intro call hcall
  rw [(hlasting.accepting p).1]
  exact hopen call (Nat.le_trans (hlasting.accepting p).2 hcall)

theorem Lasting.yields (hlasting : Lasting m n) {x : FileExtent} (hyields : m.Yields x) :
    n.Yields x := by
  have hreading : (file n x.file).reading = (file m x.file).reading :=
    getD_of_map_eq BackingFile.reading hlasting.reading x.file
  have hlength : (file n x.file).content.length = (file m x.file).content.length :=
    getD_of_map_eq (fun f => f.content.length) hlasting.lengths x.file
  unfold Yields
  rw [hlasting.layout, hreading, hlength]
  exact hyields

theorem Lasting.loads (hlasting : Lasting m n) (hloads : m.Loads state) : n.Loads state := by
  unfold Loads at hloads ⊢
  split at hloads
  · trivial
  · trivial
  · exact hlasting.yields hloads
  · exact hlasting.yields hloads
  · exact hlasting.yields hloads
  · rw [hlasting.runs, hlasting.layout]
    exact hloads
  · intro disk hdisk
    have hreads := hlasting.swap
    unfold Swap.Area.ReadsAlike at hreads
    rw [hdisk, Option.map_some] at hreads
    rcases Option.map_eq_some_iff.mp hreads.symm with ⟨before, hbefore, hsame⟩
    rw [← hsame]
    exact hloads before hbefore

theorem Lasting.works (hlasting : Lasting m n) (hworks : m.Works p state) : n.Works p state :=
  ⟨hlasting.open p hworks.mapping, hlasting.loads hworks.loading⟩

/-! ## Loads without failure -/

def Prevails {α : Type} (r : Routine α) (m : Machine) : Prop :=
  Ends r m Anyhow (fun _ _ => True) fun _ _ => False

theorem prevails_readExtent {x : FileExtent} (hyields : m.Yields x) :
    Prevails (readExtent x f m.layout.pageBytes) m := by
  rcases hyields with ⟨hcount, hpeek, hlength⟩
  have hread : ((file m x.file).read x.offset.toNat x.readBytes.toNat).1 =
      some (((file m x.file).content.drop x.offset.toNat).take x.readBytes.toNat) := by
    unfold BackingFile.read
    rw [hpeek]
  have hwhole : (((file m x.file).content.drop x.offset.toNat).take x.readBytes.toNat).length =
      x.readBytes.toNat := by
    rw [List.length_take, List.length_drop]
    omega
  unfold Prevails readExtent readFile
  simp only [ends_bind, ends_require, decide_eq_true_eq, if_pos hcount, ends_get, ends_setFile,
    ends_pure, hread, ends_orFail_some, ends_writeFrame, hwhole, if_true]

theorem prevails_runCustom {loader : CustomLoader} (k : m.Sound h mem)
    (hf : f < m.pool.frames.length)
    (hserves : (loader.run (m.loaderRuns loader.counter)
      (Bytes.filled m.layout.pageBytes 0)).2 = none) :
    Prevails (runCustom loader f m.layout.pageBytes) m := by
  unfold Prevails runCustom
  simp only [ends_bind, ends_writeFrame, ends_readFrame, ends_get, ends_modify, k.read_zeroed hf,
    hserves, ends_pure]

theorem prevails_loadOrigin {origin : Origin} (k : m.Sound h mem) (hf : f < m.pool.frames.length)
    (hloads : m.Loads (.uninit origin)) :
    Prevails (loadOrigin origin f m.layout.pageBytes) m := by
  cases origin with
  | anon loader =>
      cases loader with
      | none => trivial
      | some loader =>
          cases loader with
          | file x => exact prevails_readExtent hloads
          | custom loader => exact prevails_runCustom k hf hloads
  | file x => exact prevails_readExtent hloads

theorem prevails_releaseSlot (s : Nat) : Prevails (releaseSlot s) m := by
  apply ends_withLock_of
  rw [ends_bind, ends_get, ends_bind]
  rcases (m.locked .swap).swap.release s with a | area
  · trivial
  · trivial

theorem prevails_readSlot {s : Nat} (k : m.Sound h mem) (hused : m.swap.slots.isUsed s = true)
    (hf : f < m.pool.frames.length) (hopen : ∀ disk, m.swap.disk = some disk → disk.reading.Open) :
    Prevails (readSlot s f m.layout.pageBytes) m := by
  have hwhole : ((m.pool.content f).take m.layout.pageBytes).length = m.layout.pageBytes := by
    rw [List.length_take, k.length_content hf, Nat.min_self]
  have hread := k.swap.read_open (k.slot_lt hused) hwhole hopen
  unfold Prevails readSlot
  simp only [ends_bind, ends_readFrame, ends_get, ends_setSwap, ends_writeFrame, hread, ends_pure]

theorem prevails_loadPage (k : m.Sound h mem)
    (hpage : m.page? p page.va = some { page with frame := some f })
    (hloads : m.Loads page.state) : Prevails (loadPage p page f) m := by
  have hbytes : page.bytes = m.layout.pageBytes :=
    congrArg UInt64.toNat (k.placed p page.va _ hpage).size
  unfold Prevails loadPage loadState
  rw [hbytes]
  cases hstate : page.state with
  | uninit origin =>
      rw [hstate] at hloads
      simp only [ends_bind, ends_pure, ends_updatePage, ends_record]
      exact prevails_loadOrigin k (k.frame_lt hpage rfl) hloads
  | anon slot =>
      cases slot with
      | none => trivial
      | some s =>
          have hslot : Page.slot { page with frame := some f } = some s := by
            rw [Page.slot, hstate]
            rfl
          rw [hstate] at hloads
          simp only [ends_bind, ends_pure, ends_updatePage, ends_record]
          refine Ends.mono (prevails_readSlot k (k.slots.used_of_recorded hpage hslot)
            (k.frame_lt hpage rfl) hloads) ?_ fun _ _ hfalse => hfalse
          intro _ next _
          exact prevails_releaseSlot s
  | file x =>
      rw [hstate] at hloads
      simp only [ends_bind, ends_pure, ends_updatePage, ends_record]
      exact prevails_readExtent hloads

/-! ## Claims without failure -/

theorem ends_mapPage_open (k : m.Sound h mem) (hpage : m.page? p va = some page)
    (hfree : m.link? p va = none) (hopen : (m.process p).mmu.accepting.Open) :
    Ends (mapPage p va f page.writable) m fatal (fun accepted next => accepted = true ∧
      next = m.modifyMmu p fun _ => (m.process p).mmu.linked va f page.writable)
      fun _ _ => False := by
  unfold mapPage
  simp only [ends_bind, ends_get, ends_modify, k.map_of_page hpage hfree, hopen.peek,
    if_true, ends_ofAbort_ok, true_and]

theorem prevails_mapAndLoad (k : m.Sound h mem)
    (hpage : m.page? p page.va = some { page with frame := some f })
    (hlink : m.link? p page.va = none) (hworks : m.Works p page.state) :
    Prevails (mapAndLoad p page f) m := by
  unfold Prevails mapAndLoad
  rw [ends_bind]
  refine (ends_mapPage_open k hpage hlink hworks.mapping).mono ?_ fun _ _ hfalse => hfalse
  intro accepted next hnext
  rcases hnext with ⟨rfl, rfl⟩
  rw [ends_bind, ends_require, if_pos rfl]
  refine prevails_loadPage (k.link hpage rfl) ?_ hworks.loading
  rw [page?_modifyMmu, hpage]

theorem prevails_makeResident {locks : List Lock} (k : m.Sound { locks := locks } mem)
    (hpage : m.page? p page.va = some page) (hnone : page.frame = none)
    (hlock : Lock.page p page.va ∈ locks) (hring : Lock.ring ∉ locks)
    (hswap : Lock.swap ∉ locks) (hworks : m.Works p page.state) :
    Prevails (makeResident p page) m := by
  unfold Prevails makeResident
  rw [ends_bind]
  -- The frame may come from another page. Its eviction leaves alone what this load relies on.
  refine ((ends_allocateFrame k hring hswap fun _ => trivial).and
    (kept_allocateFrame lasting_ignores (ownerOf p page) m)).mono ?_ fun _ _ hfalse => hfalse.1
  intro f given hgiven
  rcases hgiven with ⟨⟨hundisturbed, kgiven, hentry⟩, hlasting⟩
  have hpage' : given.page? p page.va = some page :=
    (hundisturbed.locked p page.va hlock).trans hpage
  have hattaching : Ends (attachFrame p page f) given Anyhow
      (fun _ next => Lasting given next) fun _ _ => False := by
    rw [ends_attachFrame_idle hpage' hnone]
    exact lasting_ignores.modifyPage given p page.va _ fun _ => rfl
  rw [ends_bind]
  refine ((ends_attachFrame kgiven hpage' hnone hentry).and hattaching).mono ?_
    fun _ _ hfalse => hfalse.1
  intro _ attached hattached
  rcases hattached with ⟨⟨-, -, kattached, hpages, hunlinked⟩, hlasting'⟩
  have hworks' := (hlasting.trans hlasting').works hworks
  rw [ends_bind, ends_attempt]
  refine Ends.mono (prevails_mapAndLoad kattached hpages hunlinked hworks') ?_
    fun _ _ hfalse => hfalse.elim
  intro _ next _
  rw [ends_bind]
  exact ends_withLock_of trivial

theorem prevails_claim (k : m.Sound {} mem) (hpage : m.page? p va = some page)
    (hworks : page.frame = none → m.Works p page.state) : Prevails (claim p va) m := by
  have haddress := (k.placed p va page hpage).address
  subst haddress
  have klocked := k.locked (.page p page.va)
  have hpage' : (m.locked (.page p page.va)).page? p page.va = some page := hpage
  apply ends_withLock_of
  rw [ends_bind, ends_get, ends_bind, hpage', ends_orFail_some, ends_when]
  cases hframe : page.frame with
  | some f =>
      rw [if_neg (by rw [Page.isResident, hframe]; exact Bool.false_ne_true)]
      trivial
  | none =>
      rw [if_pos (by rw [Page.isResident, hframe]; rfl)]
      have hworks' : (m.locked (.page p page.va)).Works p page.state :=
        (lasting_ignores.locked m _).works (hworks hframe)
      exact prevails_makeResident klocked hpage' hframe List.mem_cons_self (by simp) (by simp)
        hworks'

end Machine
end DemandPaging
