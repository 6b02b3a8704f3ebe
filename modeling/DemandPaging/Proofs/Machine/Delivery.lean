import DemandPaging.Proofs.Machine.Fault

/-!
# What a load delivers

The bytes that a page gets when it is loaded, as its state tells: its first content, the content of
its slot, zeros, or the extent of its file. The whole frame is filled with them, so nothing of what
the frame held before can be found in it.
-/

namespace DemandPaging

def PageState.delivered (state : PageState) (files : List BackingFile) (runs : Nat → Nat)
    (slotContent : Nat → Bytes) (n : Nat) : Bytes :=
  match state with
  | .uninit origin => origin.image files runs n
  | .anon (some s) => slotContent s
  | .anon none => Bytes.filled n 0
  | .file x => x.image files n

def SameContents (files files' : List BackingFile) : Prop :=
  files'.map BackingFile.content = files.map BackingFile.content

theorem FileExtent.image_sameContents {files files' : List BackingFile}
    (h : SameContents files files') (x : FileExtent) (n : Nat) :
    x.image files' n = x.image files n := by
  unfold image
  rw [Machine.getD_of_map_eq BackingFile.content h]

/-- The loader of a page, if it is a custom one that is still to be run, lays the same bytes over
the page after as many runs as before. -/
def PageState.SameLoader (state : PageState) (runs runs' : Nat → Nat) (n : Nat) : Prop :=
  ∀ loader, state = .uninit (.anon (some (.custom loader))) →
    (loader.run (runs' loader.counter) (Bytes.filled n 0)).1 =
      (loader.run (runs loader.counter) (Bytes.filled n 0)).1

/-- What a load delivers depends on the files and the loader only through their bytes. -/
theorem PageState.delivered_congr {state : PageState} {files files' : List BackingFile}
    {runs runs' : Nat → Nat} {slotContent slotContent' : Nat → Bytes} {n : Nat}
    (hfiles : SameContents files files') (hloader : state.SameLoader runs runs' n)
    (hslot : ∀ s, state.slot = some s → slotContent' s = slotContent s) :
    state.delivered files' runs' slotContent' n = state.delivered files runs slotContent n := by
  cases state with
  | uninit origin =>
      cases origin with
      | anon loader =>
          cases loader with
          | none => rfl
          | some loader =>
              cases loader with
              | file x => exact x.image_sameContents hfiles n
              | custom loader => exact congrArg (Bytes.overlay _ 0) (hloader loader rfl)
      | file x => exact x.image_sameContents hfiles n
  | anon slot =>
      cases slot with
      | none => rfl
      | some s => exact hslot s rfl
  | file x => exact x.image_sameContents hfiles n

namespace Machine

variable {m next : Machine} {mem : FlatMemory} {p f : Nat} {va : Vaddr} {page : Page}

/-- What loading the page at an address puts into its frame. A page of the stack that is still to
be made is loaded with zeros. -/
def deliveredAt (m : Machine) (p : Nat) (va : Vaddr) : Bytes :=
  (m.stateAt p va).delivered m.files m.loaderRuns m.swap.slotContent m.layout.pageBytes

/-- The bytes of a page: those of its frame or, without one, those that a load delivers. -/
def bytesOf (m : Machine) (page : Page) : Bytes :=
  match page.frame with
  | some f => m.pool.content f
  | none => page.state.delivered m.files m.loaderRuns m.swap.slotContent m.layout.pageBytes

theorem Sound.bytesOf_anon {slot : Option Nat} (k : m.Sound {} mem)
    (hpage : m.page? p va = some page) (hanon : page.state = .anon slot) :
    m.bytesOf page = mem.image p va m.layout.pageBytes := by
  have hholds := k.contents p va page hpage
  unfold bytesOf
  cases hframe : page.frame with
  | some f =>
      have hclass : page.effectiveClass = .anon := by
        rw [Page.effectiveClass, hanon]
        rfl
      have hstate := k.state_of_anon_frame hpage hframe hclass
      exact (hholds.inFrame f hstate hframe).resolve_left List.not_mem_nil
  | none =>
      rw [hanon]
      cases slot with
      | none =>
          have hzero := hholds.blank hanon hframe
          rw [FlatMemory.length_image] at hzero
          exact hzero.symm
      | some s => exact hholds.inSlot s hanon

theorem Resolved.content_eq (k : m.Sound {} mem) (h : m.Resolved next p va mem page f)
    (hidle : m.Idle p va) :
    next.pool.content f = (m.stateAt p va).delivered next.files m.loaderRuns
      m.swap.slotContent m.layout.pageBytes := by
  have hfilled := h.filled hidle
  cases hold : m.lookup p va with
  | none =>
      have hstate : m.stateAt p va = .uninit (.anon none) := by
        rw [stateAt, hold]
      rw [hstate] at hfilled ⊢
      have hzero := hfilled.first _ rfl
      rw [FlatMemory.length_image] at hzero
      exact hzero
  | some old =>
      have hstate : m.stateAt p va = old.state := by
        rw [stateAt, hold]
      rw [hstate] at hfilled ⊢
      cases hcase : old.state with
      | uninit origin =>
          have hfirst := hfilled.first origin hcase
          rw [FlatMemory.length_image] at hfirst
          exact hfirst
      | anon slot =>
          -- The load is compared with the flat memory, which the page stood for before.
          have hbytes := k.bytesOf_anon hold hcase
          rw [bytesOf, hidle old hold, hcase] at hbytes
          rw [hfilled.again slot hcase, ← hbytes]
          cases slot <;> rfl
      | file x =>
          have hfile := hfilled.file x hcase
          rw [FlatMemory.length_image] at hfile
          exact hfile

end Machine
end DemandPaging
