import DemandPaging.Proofs.Machine.Devices

/-!
# Loading and saving on a sound machine

Loading a page puts into its frame what the page stands for: its first content if it was never
loaded, and otherwise the bytes of the flat memory. Saving an anonymous page puts its content into
a new slot. When either fails, the page keeps what it had.
-/

namespace DemandPaging
namespace Machine

open Routine

variable {m : Machine} {h : InHand} {mem : FlatMemory} {fatal : Abort → Prop} {f : Nat}

/-! ## Loading -/

def Loaded (m n : Machine) : Prop :=
  ∃ runs, Beside { m with loaderRuns := runs } n

theorem Beside.loaded {n : Machine} (b : m.Beside n) : m.Loaded n :=
  ⟨m.loaderRuns, b⟩

theorem ends_zeroFrame (k : m.Sound h mem) (hf : f < m.pool.frames.length)
    (hfilling : f ∈ h.filling) :
    Ends (writeFrame f 0 (Bytes.filled m.layout.pageBytes 0)) m fatal
      (fun _ next => m.Beside next ∧ next.Sound h mem ∧
        next.pool.content f = Bytes.filled m.layout.pageBytes 0)
      fun _ _ => False := by
  rw [ends_writeFrame]
  refine ⟨⟨rfl, rfl, rfl, rfl, rfl⟩, k.writeFrame 0 _ hf hfilling, ?_⟩
  rw [FramePool.content_write_self]
  refine Bytes.overlay_zero_of_length_eq ?_
  rw [Bytes.length_filled, k.length_content hf]

theorem ends_readExtent {x : FileExtent} (k : m.Sound h mem) (hf : f < m.pool.frames.length)
    (hfilling : f ∈ h.filling) :
    Ends (readExtent x f m.layout.pageBytes) m fatal
      (fun _ next => m.Beside next ∧ next.Sound h mem ∧
        next.pool.content f = x.image next.files m.layout.pageBytes ∧
        x.readBytes.toNat ≤ m.layout.pageBytes)
      fun _ next => m.Beside next ∧ next.Sound h mem := by
  unfold readExtent
  simp only [ends_bind, ends_require]
  split
  · rename_i hcount
    have hcount := of_decide_eq_true hcount
    refine (ends_readFile k).mono ?_ fun _ _ hfalse => hfalse.elim
    intro data next hnext
    rcases hnext with ⟨hbeside, knext, hpool, _, hdata⟩
    cases data with
    | none => exact ⟨hbeside, knext⟩
    | some bytes =>
        have hf' : f < next.pool.frames.length := by
          rw [hpool]
          exact hf
        have kwritten := knext.writeFrame 0 bytes hf' hfilling
        have hlayout := hbeside.layout
        simp only [ends_orFail_some, ends_writeFrame]
        split
        · rename_i hwhole
          have hbytes := hdata bytes rfl hwhole
          have hlast : f < (next.pool.write f 0 bytes).frames.length := by
            rw [FramePool.write, FramePool.length_frames_setContent]
            exact hf'
          rw [ends_writeFrame]
          refine ⟨hbeside.trans ⟨rfl, rfl, rfl, rfl, rfl⟩,
            kwritten.writeFrame _ _ hlast hfilling, ?_, hcount⟩
          refine (FramePool.content_setContent_self hlast).trans ?_
          have himage : x.image next.files m.layout.pageBytes =
              Bytes.overlay (Bytes.filled m.layout.pageBytes 0) 0 bytes :=
            congrArg (Bytes.overlay _ 0) hbytes.symm
          have hcontent : (next.pool.content f).length = m.layout.pageBytes := by
            rw [knext.length_content hf', hlayout]
          rw [FramePool.content_write_self, ← hwhole]
          refine Eq.trans ?_ himage.symm
          rw [← hcontent]
          apply Bytes.overlay_zeros
          omega
        · exact ⟨hbeside.trans ⟨rfl, rfl, rfl, rfl, rfl⟩, kwritten.recorded _⟩
  · exact ⟨Beside.refl m, k⟩

theorem Sound.read_zeroed (k : m.Sound h mem) (hf : f < m.pool.frames.length) :
    ((m.pool.write f 0 (Bytes.filled m.layout.pageBytes 0)).content f).take m.layout.pageBytes =
      Bytes.filled m.layout.pageBytes 0 := by
  rw [FramePool.take_content_write_filled, k.length_content hf, Nat.min_self]

theorem ends_runCustom {loader : CustomLoader} (k : m.Sound h mem)
    (hf : f < m.pool.frames.length) (hfilling : f ∈ h.filling) :
    Ends (runCustom loader f m.layout.pageBytes) m fatal
      (fun _ next => m.Loaded next ∧ next.Sound h mem ∧
        next.pool.content f =
          (Origin.anon (some (.custom loader))).image next.files m.loaderRuns
            m.layout.pageBytes)
      fun _ next => m.Loaded next ∧ next.Sound h mem := by
  have kzeroed := k.writeFrame 0 (Bytes.filled m.layout.pageBytes 0) hf hfilling
  have hlast : f < (m.pool.write f 0 (Bytes.filled m.layout.pageBytes 0)).frames.length := by
    rw [FramePool.write, FramePool.length_frames_setContent]
    exact hf
  have kwritten := fun data =>
    (kzeroed.countRun loader.counter).writeFrame 0 data hlast hfilling
  unfold runCustom
  simp only [ends_bind, ends_writeFrame, ends_readFrame, ends_get, ends_modify,
    k.read_zeroed hf]
  cases (loader.run (m.loaderRuns loader.counter) (Bytes.filled m.layout.pageBytes 0)).2 with
  | some e => exact ⟨⟨_, rfl, rfl, rfl, rfl, rfl⟩, kwritten _⟩
  | none =>
      refine ⟨⟨_, rfl, rfl, rfl, rfl, rfl⟩, kwritten _, ?_⟩
      refine (FramePool.content_setContent_self hlast).trans ?_
      refine Bytes.overlay_zero_of_length_eq ?_
      rw [Bytes.length_overlay, Bytes.length_filled]
      exact (kzeroed.length_content hlast).symm

theorem ends_loadOrigin {origin : Origin} (k : m.Sound h mem) (hf : f < m.pool.frames.length)
    (hfilling : f ∈ h.filling) :
    Ends (loadOrigin origin f m.layout.pageBytes) m fatal
      (fun _ next => m.Loaded next ∧ next.Sound h mem ∧
        next.pool.content f = origin.image next.files m.loaderRuns m.layout.pageBytes ∧
        ∀ x, origin.initialised = .file x → x.readBytes.toNat ≤ m.layout.pageBytes)
      fun _ next => m.Loaded next ∧ next.Sound h mem := by
  cases origin with
  | anon loader =>
      cases loader with
      | none =>
          refine (ends_zeroFrame k hf hfilling).mono ?_ fun _ _ hfalse => hfalse.elim
          intro _ next hnext
          exact ⟨hnext.1.loaded, hnext.2.1, hnext.2.2, fun _ hx => by contradiction⟩
      | some loader =>
          cases loader with
          | file x =>
              refine (ends_readExtent k hf hfilling).mono ?_ ?_
              · intro _ next hnext
                exact ⟨hnext.1.loaded, hnext.2.1, hnext.2.2.1, fun _ hx => by contradiction⟩
              · intro _ next hnext
                exact ⟨hnext.1.loaded, hnext.2⟩
          | custom loader =>
              refine (ends_runCustom k hf hfilling).mono ?_ fun _ _ hnext => hnext
              intro _ next hnext
              exact ⟨hnext.1, hnext.2.1, hnext.2.2, fun _ hx => by contradiction⟩
  | file x =>
      refine (ends_readExtent k hf hfilling).mono ?_ ?_
      · intro _ next hnext
        refine ⟨hnext.1.loaded, hnext.2.1, hnext.2.2.1, ?_⟩
        intro y hy
        cases hy
        exact hnext.2.2.2
      · intro _ next hnext
        exact ⟨hnext.1.loaded, hnext.2⟩

structure Filled (content : Bytes) (state : PageState) (files : List BackingFile)
    (runs : Nat → Nat) (old : Bytes) : Prop where
  first : ∀ origin, state = .uninit origin → content = origin.image files runs old.length
  again : ∀ slot, state = .anon slot → content = old
  file : ∀ x, state = .file x → content = x.image files old.length

namespace Filled

variable {content old : Bytes} {files : List BackingFile} {runs : Nat → Nat}

theorem of_origin {origin : Origin} (h : content = origin.image files runs old.length) :
    Filled content (.uninit origin) files runs old := by
  constructor
  · intro other hother
    cases hother
    exact h
  · intro _ hslot
    contradiction
  · intro _ hfile
    contradiction

theorem of_eq {slot : Option Nat} (h : content = old) :
    Filled content (.anon slot) files runs old := by
  constructor
  · intro _ horigin
    contradiction
  · intro _ _
    exact h
  · intro _ hfile
    contradiction

theorem of_file {x : FileExtent} (h : content = x.image files old.length) :
    Filled content (.file x) files runs old := by
  constructor
  · intro _ horigin
    contradiction
  · intro _ hslot
    contradiction
  · intro _ hfile
    cases hfile
    exact h

end Filled

structure Refilled (m : Machine) (h : InHand) (mem : FlatMemory) (p : Nat) (page : Page) (f : Nat)
    (next : Machine) : Prop where
  layout : next.layout = m.layout
  sound : next.Sound h mem
  pages : next.page? = setAt m.page? p page.va
    (some { page with frame := some f, state := page.state.loaded })
  links : next.link? = m.link?
  filled : Filled (next.pool.content f) page.state next.files m.loaderRuns
    (mem.image p page.va m.layout.pageBytes)

section Refilled

variable {next : Machine} {p : Nat} {page : Page} {state : PageState}

theorem Loaded.layout (hloaded : m.Loaded next) : next.layout = m.layout := by
  rcases hloaded with ⟨runs, hbeside⟩
  exact hbeside.layout

theorem Loaded.page? (hloaded : m.Loaded next) : next.page? = m.page? := by
  rcases hloaded with ⟨runs, hbeside⟩
  funext q wa
  exact hbeside.page? q wa

theorem Loaded.link? (hloaded : m.Loaded next) : next.link? = m.link? := by
  rcases hloaded with ⟨runs, hbeside⟩
  funext q wa
  exact hbeside.link? q wa

theorem Loaded.refilled (hloaded : m.Loaded next)
    (hpage : m.page? p page.va = some { page with frame := some f })
    (hstate : page.state.loaded = state)
    (k : (next.modifyPage p page.va fun q => { q with state := state }).Sound h mem)
    (hfilled : Filled (next.pool.content f) page.state next.files m.loaderRuns
      (mem.image p page.va m.layout.pageBytes)) (event : Event) :
    m.Refilled h mem p page f
      ((next.modifyPage p page.va fun q => { q with state := state }).recorded event) where
  layout := hloaded.layout
  sound := k.recorded event
  pages := by
    have hpage' : next.page? p page.va = some { page with frame := some f } := by
      rw [hloaded.page?]
      exact hpage
    rw [hstate, ← hloaded.page?]
    exact page?_modifyPage_eq hpage'
  links := by
    have hlinks : (next.modifyPage p page.va fun q => { q with state := state }).link? =
        next.link? := link?_modifyPages next p _
    exact hlinks.trans hloaded.link?
  filled := hfilled

theorem Sound.refilled (k : next.Sound h mem) (hloaded : m.Loaded next)
    (hpage : m.page? p page.va = some { page with frame := some f }) (hfilling : f ∈ h.filling)
    (hslot : page.state.slot = none) (hstate : page.state.loaded = state)
    (hextent : ∀ x, state = .file x → x.readBytes.toNat ≤ m.layout.pageBytes)
    (hfilled : Filled (next.pool.content f) page.state next.files m.loaderRuns
      (mem.image p page.va m.layout.pageBytes)) (event : Event) :
    m.Refilled h mem p page f
      ((next.modifyPage p page.va fun q => { q with state := state }).recorded event) := by
  have hpage' : next.page? p page.va = some { page with frame := some f } := by
    rw [hloaded.page?]
    exact hpage
  have hnew : state.slot = none := by
    rw [← hstate]
    exact page.state.slot_loaded
  rw [← hloaded.layout] at hextent
  exact hloaded.refilled hpage hstate (k.restate state hpage' rfl hfilling hslot hnew hextent)
    hfilled event

theorem ends_releaseRead {read : Machine} {s : Nat} {event : Event} (k : m.Sound h mem)
    (hpage : m.page? p page.va = some { page with frame := some f }) (hfilling : f ∈ h.filling)
    (hlock : Lock.swap ∉ h.locks) (hstate : page.state = .anon (some s))
    (hbeside : m.Beside read) (kread : read.Sound h mem)
    (hcontent : read.pool.content f = m.swap.slotContent s) :
    Ends (releaseSlot s) read fatal
      (fun _ last => m.Refilled h mem p page f
        ((last.modifyPage p page.va fun q => { q with state := .anon none }).recorded event))
      fun _ _ => False := by
  have hslot : Page.slot { page with frame := some f } = some s := by
    rw [Page.slot, hstate]
    rfl
  have hpage' := (hbeside.page? p page.va).trans hpage
  have hfree : Lock.swap ∉ read.held := kread.not_held hlock
  have hused := kread.slots.used_of_recorded hpage' hslot
  refine (ends_releaseSlot hfree kread.swap.slots hused).mono ?_ fun _ _ hfalse => hfalse
  intro _ last hlast
  rcases hlast with ⟨slots, hform, htotal, hused', rfl⟩
  have kstate := (kread.locked .swap).reclaim hpage' rfl hfilling hstate hform htotal hused'
  have hbeside' : m.Beside (Machine.unlocked
      { read.locked .swap with swap := { read.swap with slots := slots } } .swap) :=
    hbeside.trans ⟨rfl, rfl, rfl, rfl, rfl⟩
  refine hbeside'.loaded.refilled hpage (by rw [hstate]; rfl) (kstate.unlocked rfl) ?_ event
  rw [hstate]
  exact .of_eq (hcontent.trans ((k.contents p page.va _ hpage).inSlot s hstate))

theorem ends_loadPage (k : m.Sound h mem)
    (hpage : m.page? p page.va = some { page with frame := some f }) (hfilling : f ∈ h.filling)
    (hlock : Lock.swap ∉ h.locks)
    (hblank : page.state = .anon none →
      mem.image p page.va m.layout.pageBytes = Bytes.filled m.layout.pageBytes 0) :
    Ends (loadPage p page f) m fatal
      (fun _ next => m.Refilled h mem p page f next)
      fun _ next => m.Loaded next ∧ next.Sound h mem := by
  have hf : f < m.pool.frames.length := k.frame_lt hpage rfl
  have hbytes : page.bytes = m.layout.pageBytes :=
    congrArg UInt64.toNat (k.placed p page.va _ hpage).size
  unfold loadPage loadState
  rw [hbytes]
  cases hstate : page.state with
  | uninit origin =>
      simp only [ends_bind, ends_pure, ends_updatePage, ends_record]
      refine (ends_loadOrigin k hf hfilling).mono ?_ fun _ _ hnext => hnext
      intro _ next hnext
      rcases hnext with ⟨hloaded, knext, hcontent, hextent⟩
      have hfilled : Filled (next.pool.content f) page.state next.files m.loaderRuns
          (mem.image p page.va m.layout.pageBytes) := by
        rw [hstate]
        refine .of_origin ?_
        rw [FlatMemory.length_image]
        exact hcontent
      exact knext.refilled hloaded hpage hfilling (by rw [hstate]; rfl) (by rw [hstate]; rfl)
        hextent hfilled _
  | anon slot =>
      cases slot with
      | none =>
          simp only [ends_bind, ends_pure, ends_updatePage, ends_record]
          refine (ends_zeroFrame k hf hfilling).mono ?_ fun _ _ hfalse => hfalse.elim
          intro _ next hnext
          rcases hnext with ⟨hbeside, knext, hcontent⟩
          have hfilled : Filled (next.pool.content f) page.state next.files m.loaderRuns
              (mem.image p page.va m.layout.pageBytes) := by
            rw [hstate]
            exact .of_eq (hcontent.trans (hblank hstate).symm)
          exact knext.refilled hbeside.loaded hpage hfilling (by rw [hstate]; rfl)
            (by rw [hstate]; rfl) (fun _ hx => by contradiction) hfilled _
      | some s =>
          have hslot : Page.slot { page with frame := some f } = some s := by
            rw [Page.slot, hstate]
            rfl
          simp only [ends_bind, ends_pure, ends_updatePage, ends_record]
          refine (ends_readSlot k (k.slots.used_of_recorded hpage hslot) hf hfilling).mono ?_ ?_
          · intro _ read hread
            rcases hread with ⟨hbeside, kread, hcontent⟩
            exact (ends_releaseRead k hpage hfilling hlock hstate hbeside kread hcontent).mono
              (fun _ _ hnext => hnext) fun _ _ hfalse => hfalse.elim
          · intro _ next hnext
            exact ⟨hnext.1.loaded, hnext.2⟩
  | file x =>
      simp only [ends_bind, ends_pure, ends_updatePage, ends_record]
      refine (ends_readExtent k hf hfilling).mono ?_ ?_
      · intro _ next hnext
        rcases hnext with ⟨hbeside, knext, hcontent, hextent⟩
        have hfilled : Filled (next.pool.content f) page.state next.files m.loaderRuns
            (mem.image p page.va m.layout.pageBytes) := by
          rw [hstate]
          refine .of_file ?_
          rw [FlatMemory.length_image]
          exact hcontent
        refine knext.refilled hbeside.loaded hpage hfilling (by rw [hstate]; rfl)
          (by rw [hstate]; rfl) ?_ hfilled _
        intro y hy
        cases hy
        exact hextent
      · intro _ next hnext
        exact ⟨hnext.1.loaded, hnext.2⟩

end Refilled

/-! ## Saving -/

theorem ends_writeBack {owner : Owner} {x : FileExtent} {bytes : Bytes} (k : m.Sound h mem)
    (hfits : x.readBytes.toNat ≤ bytes.length) :
    Ends (writeBack owner x bytes) m fatal
      (fun _ next => m.Beside next ∧ next.Sound h mem)
      fun _ next => m.Beside next ∧ next.Sound h mem := by
  unfold writeBack
  simp only
  split
  · exact ⟨Beside.refl m, k⟩
  · simp only [ends_bind, ends_ensure, decide_eq_true hfits, if_true]
    refine (ends_writeFile k).mono ?_ fun _ _ hfalse => hfalse.elim
    intro accepted next hnext
    cases accepted with
    | none => exact hnext
    | some count =>
        rw [ends_orFail_some]
        split
        · exact hnext
        · exact ⟨hnext.1.trans ⟨rfl, rfl, rfl, rfl, rfl⟩, hnext.2.recorded _⟩

theorem ends_saveToSlot {bytes : Bytes} (k : m.Sound h mem) (hlock : Lock.swap ∉ h.locks)
    (hlength : bytes.length = m.layout.pageBytes) :
    Ends (saveToSlot bytes) m fatal
      (fun s next => m.Beside next ∧ next.Sound { h with slots := s :: h.slots } mem ∧
        next.swap.slotContent s = bytes)
      fun _ next => m.Beside next ∧ next.Sound h mem := by
  unfold saveToSlot
  simp only [ends_bind, ends_attempt]
  refine (ends_allocateSlot k hlock).mono ?_ fun _ _ hfalse => hfalse.elim
  intro given next hnext
  cases given with
  | none => exact hnext
  | some s =>
      rcases hnext with ⟨hbeside, knext⟩
      rw [ends_orFail_some]
      refine (ends_writeSlot knext List.mem_cons_self ?_).mono ?_ ?_
      · rw [hbeside.layout]
        exact hlength
      · intro _ last hlast
        exact ⟨hbeside.trans hlast.1, hlast.2⟩
      · intro e failed hfailed
        refine (ends_returnSlot hfailed.2 rfl hlock).mono ?_ fun _ _ hfalse => hfalse.elim
        intro _ last hlast
        exact ⟨(hbeside.trans hfailed.1).trans hlast.1, hlast.2⟩

/-- What a page is saved as: an anonymous page has its bytes in a slot of its own, and the bytes of
a page of a file are no longer the machine's business. -/
def Saved (m : Machine) (h : InHand) (mem : FlatMemory) (state : PageState) (bytes : Bytes)
    (saved : PageState) : Prop :=
  (∃ slot s, state = .anon slot ∧ saved = .anon (some s) ∧
    m.Sound { h with slots := s :: h.slots } mem ∧ m.swap.slotContent s = bytes) ∨
  ∃ x, state = .file x ∧ saved = .file x ∧ m.Sound h mem

theorem Saved.copied {state saved : PageState} {bytes : Bytes}
    (hsaved : m.Saved h mem state bytes saved) : saved.copied = state.copied := by
  rcases hsaved with ⟨slot, s, rfl, rfl, -⟩ | ⟨x, rfl, rfl, -⟩
  · rfl
  · rfl

theorem ends_savePage {owner : Owner} {state : PageState} {bytes : Bytes} {dirty : Bool}
    (k : m.Sound h mem) (hlock : Lock.swap ∉ h.locks)
    (hlength : bytes.length = m.layout.pageBytes)
    (hextent : ∀ x, state = .file x → x.readBytes.toNat ≤ m.layout.pageBytes) :
    Ends (savePage owner state bytes dirty) m fatal
      (fun saved next => m.Beside next ∧ next.Saved h mem state bytes saved)
      fun _ next => m.Beside next ∧ next.Sound h mem := by
  cases state with
  | uninit origin => exact ⟨Beside.refl m, k⟩
  | anon slot =>
      unfold savePage
      simp only [ends_bind, ends_pure]
      refine (ends_saveToSlot k hlock hlength).mono ?_ fun _ _ hnext => hnext
      intro s next hnext
      exact ⟨hnext.1, Or.inl ⟨slot, s, rfl, rfl, hnext.2⟩⟩
  | file x =>
      unfold savePage
      simp only [ends_bind, ends_pure, ends_when]
      split
      · refine (ends_writeBack k ?_).mono ?_ fun _ _ hnext => hnext
        · rw [hlength]
          exact hextent x rfl
        · intro _ next hnext
          exact ⟨hnext.1, Or.inr ⟨x, rfl, rfl, hnext.2⟩⟩
      · exact ⟨Beside.refl m, Or.inr ⟨x, rfl, rfl, k⟩⟩

end Machine
end DemandPaging
