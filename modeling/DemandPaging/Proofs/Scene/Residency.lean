import DemandPaging.Proofs.Machine.Residency
import DemandPaging.Proofs.Scene.Eviction

/-!
# Claims and releases in scenes

A claim that succeeds loads one page, and a claim that fails leaves no trace but the evictions that
it caused. A page that is released is sent to its file if it has changes, and then it is gone.
-/

namespace DemandPaging

theorem FileExtent.image_unread (x : FileExtent) (files : List BackingFile) (n : Nat) :
    x.image (files.map BackingFile.unread) n = x.image files n := by
  unfold image
  rw [List.getD_eq_getElem?_getD, List.getD_eq_getElem?_getD, List.getElem?_map]
  cases files[x.file]? <;> rfl

theorem BackingFile.read_unread (file : BackingFile) (offset count : Nat) :
    (file.read offset count).2.unread = file.unread := by
  unfold read
  dsimp only
  cases file.reading.peek <;> rfl

def Scene.Framed (v : Scene) (p : Nat) (page : Page) (f : Nat) (w : Scene) : Prop :=
  ∃ entry content, w = v.see p page.va ⟨some { page with frame := some f }, entry, content⟩

/-- What can happen while the page at an address is claimed: other pages are evicted, and the page
gets its content. -/
def Deed.Claiming (p : Nat) (va : Vaddr) (deed : Deed) : Prop :=
  deed.Evicting [] ∨ ∃ page, page.va = va ∧ deed = .load p page

theorem Deed.Evicting.unlocked {locks : List Lock} {deed : Deed} (h : deed.Evicting locks) :
    deed.Evicting [] := by
  cases deed with
  | save p page | evict p page | strand p page | relink p page => exact List.not_mem_nil
  | start | register | regroup | load | remove | clone | store => exact h

def Deed.Releasing (p : Nat) (page : Page) (deed : Deed) : Prop :=
  deed = .save p page ∨ deed = .remove p page

namespace Scene

def settled (v : Scene) (owner : Owner) (state : PageState) (entry : Option PageEntry)
    (bytes : Bytes) : Scene :=
  match state with
  | .file x =>
      if x.readBytes ≠ 0 ∧ entry.any PageEntry.dirty = true then v.written owner x bytes else v
  | _ => v

def released (v : Scene) (p : Nat) (page : Page) (entry : Option PageEntry)
    (content : Option Bytes) : Scene :=
  match content with
  | none => v.see p page.va .blank
  | some bytes =>
      ((v.settled ⟨p, page.va, page.id⟩ page.state entry bytes).see p page.va .blank).noted
        (.parted ⟨p, page.va, page.id⟩ page.state.extent bytes false)

variable {v : Scene} {p : Nat} {page : Page} {entry : Option PageEntry} {content : Option Bytes}
  {owner : Owner} {state : PageState} {bytes : Bytes}

theorem settled_cases (v : Scene) (owner : Owner) (state : PageState) (entry : Option PageEntry)
    (bytes : Bytes) :
    (∃ x, state = .file x ∧ x.readBytes ≠ 0 ∧ entry.any PageEntry.dirty = true ∧
        v.settled owner state entry bytes = v.written owner x bytes) ∨
      (∀ x, state = .file x → x.readBytes ≠ 0 → entry.any PageEntry.dirty = true → False) ∧
        v.settled owner state entry bytes = v := by
  unfold settled
  split
  · rename_i x
    split
    · rename_i hunsaved
      exact Or.inl ⟨x, rfl, hunsaved.1, hunsaved.2, rfl⟩
    · rename_i hsaved
      right
      refine ⟨?_, rfl⟩
      intro y hy hsome hdirty
      cases hy
      exact hsaved ⟨hsome, hdirty⟩
  · rename_i hother
    right
    exact ⟨fun x hx _ _ => hother x hx, rfl⟩

theorem settled_sight (v : Scene) (sight : Nat → Vaddr → Sight) (owner : Owner)
    (state : PageState) (entry : Option PageEntry) (bytes : Bytes) :
    settled { v with sight := sight } owner state entry bytes =
      { v.settled owner state entry bytes with sight := sight } := by
  cases state with
  | uninit | anon => rfl
  | file x =>
      show (if _ then _ else _) = { (if _ then _ else _ : Scene) with sight := sight }
      split
      · rfl
      · rfl

theorem sight_settled (v : Scene) (owner : Owner) (state : PageState) (entry : Option PageEntry)
    (bytes : Bytes) : (v.settled owner state entry bytes).sight = v.sight := by
  rcases v.settled_cases owner state entry bytes with ⟨x, -, -, -, hsettled⟩ | ⟨-, hsettled⟩
  · rw [hsettled]
    rfl
  · rw [hsettled]

theorem settled_see {va : Vaddr} {s : Sight} (v : Scene) (owner : Owner) (state : PageState)
    (entry : Option PageEntry) (bytes : Bytes) :
    (v.see p va s).settled owner state entry bytes =
      (v.settled owner state entry bytes).see p va s := by
  refine (v.settled_sight _ owner state entry bytes).trans ?_
  unfold see
  rw [sight_settled]

theorem released_see {s : Sight} :
    (v.see p page.va s).released p page entry content = v.released p page entry content := by
  cases content with
  | none => exact see_see
  | some bytes =>
      unfold released
      dsimp only
      rw [settled_see, see_see]

theorem steps_released (hsight : v.sight p page.va = ⟨some page, entry, content⟩)
    (hidle : content = none → entry = none) :
    Steps (Deed.Releasing p page) v (v.released p page entry content) := by
  cases content with
  | none =>
      rw [hidle rfl] at hsight
      exact .single (.remove p page) (Or.inr rfl) (.forget hsight)
  | some bytes =>
      unfold released
      dsimp only
      rcases v.settled_cases ⟨p, page.va, page.id⟩ page.state entry bytes with
        ⟨x, hfile, hsome, hdirty, hsettled⟩ | ⟨hclean, hsettled⟩
      · rw [hsettled]
        apply Steps.trans (.single (.save p page) (Or.inl rfl)
          (.save hsight ⟨hfile, hsome, hdirty⟩))
        refine .single (.remove p page) (Or.inr rfl) (.remove hsight ?_)
        intro y hy
        cases hfile.symm.trans hy.1
        exact ⟨_, _, rfl⟩
      · rw [hsettled]
        refine .single (.remove p page) (Or.inr rfl) (.remove hsight ?_)
        intro y hy
        exact (hclean y hy.1 hy.2.1 hy.2.2).elim

end Scene

namespace Machine

open Routine

variable {m n : Machine} {mem : FlatMemory} {locks : List Lock} {p f : Nat} {va : Vaddr}
  {page : Page}

/-! ## Filling a frame -/

/-- The machines differ in the content of one frame, and out of sight. -/
structure Pours (f : Nat) (m n : Machine) : Prop where
  layout : n.layout = m.layout
  processes : n.processes = m.processes
  contents : ∀ g, g ≠ f → n.pool.content g = m.pool.content g
  files : n.files.map BackingFile.unread = m.files.map BackingFile.unread
  movements : n.movements = m.movements

theorem Pours.of_movements (h : n.movements = m.movements) (hlayout : n.layout = m.layout)
    (hprocesses : n.processes = m.processes) (hpool : n.pool = m.pool)
    (hfiles : n.files = m.files) : Pours f m n where
  layout := hlayout
  processes := hprocesses
  contents := fun _ _ => by rw [hpool]
  files := by rw [hfiles]
  movements := h

theorem pours_ignores (f : Nat) : IgnoresSwap (Pours f) where
  refl := fun _ => .of_movements rfl rfl rfl rfl rfl
  trans := fun _ _ _ h h' =>
    { layout := h'.layout.trans h.layout
      processes := h'.processes.trans h.processes
      contents := fun g hg => (h'.contents g hg).trans (h.contents g hg)
      files := h'.files.trans h.files
      movements := h'.movements.trans h.movements }
  locked := fun _ _ => .of_movements rfl rfl rfl rfl rfl
  seized := fun _ _ => .of_movements rfl rfl rfl rfl rfl
  unlocked := fun _ _ => .of_movements rfl rfl rfl rfl rfl
  contended := fun _ _ => .of_movements rfl rfl rfl rfl rfl
  reported := fun _ _ => .of_movements rfl rfl rfl rfl rfl
  setSwap := fun _ _ _ => .of_movements rfl rfl rfl rfl rfl

theorem pours_oblivious (f : Nat) : Oblivious (Pours f) :=
  (pours_ignores f).toOblivious

theorem pours_writeFrame (start : Nat) (data : Bytes) :
    Keeps (Pours f) (writeFrame f start data) := by
  intro m
  rw [ends_writeFrame]
  exact
    { layout := rfl
      processes := rfl
      contents := fun g hg => FramePool.content_setContent hg
      files := rfl
      movements := rfl }

theorem pours_readFile (g offset count : Nat) : Keeps (Pours f) (readFile g offset count) := by
  intro m
  unfold readFile
  simp only [ends_bind, ends_get, ends_setFile, ends_pure]
  exact
    { layout := rfl
      processes := rfl
      contents := fun _ _ => rfl
      files := m.map_setFile BackingFile.unread (BackingFile.read_unread _ offset count)
      movements := rfl }

theorem pours_readExtent (x : FileExtent) (length : Nat) :
    Keeps (Pours f) (readExtent x f length) := by
  have hR := pours_oblivious f
  apply Keeps.bind hR (.require hR _ _)
  intro _
  apply Keeps.bind hR (pours_readFile _ _ _)
  intro answer
  apply Keeps.bind hR (.orFail hR _ answer)
  intro data
  apply Keeps.bind hR (pours_writeFrame 0 data)
  intro _
  split
  · exact pours_writeFrame _ _
  · exact .refuse hR _ _

theorem pours_readSlot (slot length : Nat) : Keeps (Pours f) (readSlot slot f length) := by
  have hR := pours_oblivious f
  apply Keeps.bind hR
  · intro m
    rw [ends_readFrame]
    exact hR.refl m
  intro buffer
  apply Keeps.bind hR (.get hR)
  intro seen
  generalize seen.swap.read slot buffer = outcome
  apply Keeps.bind hR (x := setSwap outcome.2.2) fun _ => .of_movements rfl rfl rfl rfl rfl
  intro _
  apply Keeps.bind hR (pours_writeFrame 0 outcome.2.1)
  intro _
  cases outcome.1 with
  | ok done => exact .pure hR _
  | error failure => exact .bind hR (.report? hR _) fun _ => .throw hR _

theorem pours_runCustom (loader : CustomLoader) (length : Nat) :
    Keeps (Pours f) (runCustom loader f length) := by
  have hR := pours_oblivious f
  apply Keeps.bind hR (pours_writeFrame _ _)
  intro _
  apply Keeps.bind hR
  · intro m
    rw [ends_readFrame]
    exact hR.refl m
  intro buffer
  apply Keeps.bind hR (.get hR)
  intro seen
  apply Keeps.bind hR
  · intro m
    rw [ends_modify]
    exact .of_movements rfl rfl rfl rfl rfl
  intro _
  generalize loader.run (seen.loaderRuns loader.counter) buffer = outcome
  apply Keeps.bind hR (pours_writeFrame _ _)
  intro _
  cases outcome.2 with
  | some e => exact .throw hR _
  | none => exact .pure hR _

theorem pours_loadState (state : PageState) (length : Nat) :
    Keeps (Pours f) (loadState state f length) := by
  have hR := pours_oblivious f
  cases state with
  | uninit origin =>
      have horigin : Keeps (Pours f) (loadOrigin origin f length) := by
        unfold loadOrigin
        split
        · exact pours_writeFrame _ _
        · exact pours_readExtent _ length
        · exact pours_runCustom _ length
        · exact pours_readExtent _ length
      exact .bind hR horigin fun _ => .pure hR _
  | anon slot =>
      cases slot with
      | some s =>
          apply Keeps.bind hR (pours_readSlot s length)
          intro _
          exact .bind hR (kept_releaseSlot (pours_ignores f) s) fun _ => .pure hR _
      | none => exact .bind hR (pours_writeFrame _ _) fun _ => .pure hR _
  | file x => exact .bind hR (pours_readExtent x length) fun _ => .pure hR _

namespace Pours

theorem process_eq (h : Pours f m n) (q : Nat) : n.process q = m.process q := by
  unfold process
  rw [h.processes]

theorem page?_eq (h : Pours f m n) (q : Nat) (wa : Vaddr) : n.page? q wa = m.page? q wa := by
  unfold page?
  rw [h.process_eq]

theorem entryAt_eq (h : Pours f m n) (q : Nat) (wa : Vaddr) :
    n.entryAt q wa = m.entryAt q wa := by
  unfold entryAt
  rw [h.process_eq]

theorem scene {h : InHand} (hpours : Pours f m n) (k : m.Sound h mem)
    (hpage : m.page? p va = some page) (hframe : page.frame = some f) :
    n.scene = m.scene.see p va { m.sight p va with content := some (n.pool.content f) } := by
  have hsight : n.sight p va = { m.sight p va with content := some (n.pool.content f) } := by
    rw [sight_of_page? ((hpours.page?_eq p va).trans hpage), sight_of_page? hpage,
      hpours.entryAt_eq, hframe]
    rfl
  rw [← hsight]
  apply scene_eq_see
  · exact hpours.layout
  · intro q wa _
    exact hpours.page?_eq q wa
  · intro q wa _
    exact hpours.entryAt_eq q wa
  · intro q wa other g hne hother hg
    apply hpours.contents
    rintro rfl
    exact hne (k.frames.holder_unique hpage hframe hother hg)
  · intro q
    rw [hpours.process_eq]
  · exact hpours.files
  · intro q
    rw [hpours.process_eq]
  · exact hpours.movements

theorem scene_unheld {h : InHand} (hpours : Pours f m n) (k : m.Sound h mem)
    (hstray : f ∈ h.stray) : n.scene = m.scene := by
  apply Scene.ext
  · exact hpours.layout
  · funext q wa
    refine sight_congr (hpours.page?_eq q wa) (hpours.entryAt_eq q wa) fun page g hpage hg => ?_
    apply hpours.contents
    rintro rfl
    exact k.not_stray hpage hg hstray
  · funext q
    exact congrArg Process.mappings (hpours.process_eq q)
  · exact hpours.files
  · funext q
    exact congrArg (fun process => process.mmu.accepting.outcome) (hpours.process_eq q)
  · exact hpours.movements

end Pours

/-! ## Loading -/

theorem steps_loadState {h : InHand} {state : PageState} (k : m.Sound h mem)
    (hf : f < m.pool.frames.length) (hfilling : f ∈ h.filling) :
    Ends (loadState state f m.layout.pageBytes) m Anyhow
      (fun loaded next => loaded = state.loaded ∧ Pours f m next ∧
        ∀ x, state.loaded = .file x →
          next.pool.content f = x.image m.scene.files m.layout.pageBytes ∧
            x.readBytes.toNat ≤ m.layout.pageBytes)
      fun _ next => Pours f m next := by
  have hseen : ∀ {next : Machine} {x : FileExtent}, Pours f m next →
      x.image next.files m.layout.pageBytes = x.image m.scene.files m.layout.pageBytes := by
    intro next x hnext
    rw [← FileExtent.image_unread, hnext.files]
    rfl
  have hpours := pours_loadState (f := f) state m.layout.pageBytes m
  cases state with
  | uninit origin =>
      have horigin : Ends (loadState (.uninit origin) f m.layout.pageBytes) m Anyhow
          (fun loaded next => loaded = origin.initialised ∧
            next.pool.content f = origin.image next.files m.loaderRuns m.layout.pageBytes ∧
            ∀ x, origin.initialised = .file x → x.readBytes.toNat ≤ m.layout.pageBytes)
          fun _ _ => True := by
        unfold loadState
        rw [ends_bind]
        refine (ends_loadOrigin k hf hfilling).mono ?_ fun _ _ _ => trivial
        intro _ next hnext
        exact ⟨rfl, hnext.2.2⟩
      refine (hpours.and horigin).mono ?_ fun _ _ hnext => hnext.1
      intro loaded next hnext
      rcases hnext with ⟨hnext, rfl, hcontent, hfits⟩
      refine ⟨rfl, hnext, ?_⟩
      intro x hx
      refine ⟨?_, hfits x hx⟩
      rw [hcontent, ← hseen hnext]
      cases origin with
      | anon loader => cases hx
      | file y =>
          cases hx
          rfl
  | anon slot =>
      have hanon : Ends (loadState (.anon slot) f m.layout.pageBytes) m Anyhow
          (fun loaded _ => loaded = .anon none) fun _ _ => True := by
        cases slot with
        | none => rfl
        | some s =>
            unfold loadState
            rw [ends_bind]
            refine (pours_readSlot (f := f) s _ m).mono ?_ fun _ _ _ => trivial
            intro _ next _
            rw [ends_bind]
            exact (kept_releaseSlot (pours_ignores f) s next).mono (fun _ _ _ => rfl)
              fun _ _ _ => trivial
      refine (hpours.and hanon).mono ?_ fun _ _ hnext => hnext.1
      intro loaded next hnext
      refine ⟨hnext.2, hnext.1, ?_⟩
      intro x hx
      cases hx
  | file y =>
      have hfile : Ends (loadState (.file y) f m.layout.pageBytes) m Anyhow
          (fun loaded next => loaded = .file y ∧
            next.pool.content f = y.image next.files m.layout.pageBytes ∧
            y.readBytes.toNat ≤ m.layout.pageBytes)
          fun _ _ => True := by
        unfold loadState
        rw [ends_bind]
        refine (ends_readExtent k hf hfilling).mono ?_ fun _ _ _ => trivial
        intro _ next hnext
        exact ⟨rfl, hnext.2.2⟩
      refine (hpours.and hfile).mono ?_ fun _ _ hnext => hnext.1
      intro loaded next hnext
      rcases hnext with ⟨hnext, rfl, hcontent, hfits⟩
      refine ⟨rfl, hnext, ?_⟩
      intro x hx
      cases hx
      rw [hcontent, hseen hnext]
      exact ⟨rfl, hfits⟩

theorem steps_loadPage {h : InHand} {v : Scene} {entry : Option PageEntry}
    {content : Option Bytes} (k : m.Sound h mem) (hfilling : f ∈ h.filling)
    (hscene : m.scene =
      v.see p page.va ⟨some { page with frame := some f }, entry, content⟩) :
    Ends (loadPage p page f) m Anyhow
      (fun _ next => ∃ bytes, next.scene =
          (v.see p page.va ⟨some { page with frame := some f, state := page.state.loaded }, entry,
            some bytes⟩).noted (.filled ⟨p, page.va, page.id⟩ (page.stateClass == .uninit)) ∧
        ∀ x, page.state.loaded = .file x →
          bytes = x.image v.files v.layout.pageBytes ∧ x.readBytes.toNat ≤ v.layout.pageBytes)
      fun _ next => v.Framed p page f next.scene := by
  have hsight := sight_of_scene hscene
  have hpage : m.page? p page.va = some { page with frame := some f } :=
    congrArg Sight.page hsight
  have hbytes : page.bytes = m.layout.pageBytes :=
    congrArg UInt64.toNat (k.placed p page.va _ hpage).size
  have hlayout : m.layout = v.layout := congrArg Scene.layout hscene
  have hfiles : m.scene.files = v.files := by
    rw [hscene]
    rfl
  have hpoured : ∀ {next : Machine}, Pours f m next → next.scene =
      v.see p page.va ⟨some { page with frame := some f }, entry, some (next.pool.content f)⟩ := by
    intro next hnext
    rw [hnext.scene k hpage rfl, hsight, hscene, Scene.see_see]
  unfold loadPage
  rw [hbytes, ends_bind]
  refine (steps_loadState k (k.frame_lt hpage rfl) hfilling).mono ?_ ?_
  · intro loaded next hnext
    rcases hnext with ⟨rfl, hnext, himage⟩
    have hnextScene := hpoured hnext
    have hnextSight := sight_of_scene hnextScene
    have hnextPage : next.page? p page.va = some { page with frame := some f } :=
      congrArg Sight.page hnextSight
    have hnextEntry : next.entryAt p page.va = entry := congrArg Sight.entry hnextSight
    simp only [ends_bind, ends_updatePage, ends_record]
    refine ⟨next.pool.content f, ?_, ?_⟩
    · rw [scene_noted rfl, scene_modifyPage hnextPage, hnextEntry, hnextScene, Scene.see_see]
      rfl
    · intro x hx
      rw [← hfiles, ← hlayout]
      exact himage x hx
  · intro _ next hnext
    exact ⟨_, _, hpoured hnext⟩

/-! ## Claiming -/

theorem steps_mapAndLoad {v : Scene} {content : Option Bytes}
    (k : m.Sound { locks := locks, filling := [f] } mem)
    (hscene : m.scene = v.see p page.va ⟨some { page with frame := some f }, none, content⟩) :
    Ends (mapAndLoad p page f) m Anyhow
      (fun _ next => ∃ bytes, next.scene =
          (v.see p page.va ⟨some { page with frame := some f, state := page.state.loaded },
            some ⟨f, page.writable, false, false⟩, some bytes⟩).noted
            (.filled ⟨p, page.va, page.id⟩ (page.stateClass == .uninit)) ∧
        ∀ x, page.state.loaded = .file x →
          bytes = x.image v.files v.layout.pageBytes ∧ x.readBytes.toNat ≤ v.layout.pageBytes)
      fun _ next => v.Framed p page f next.scene := by
  have hsight := sight_of_scene hscene
  have hpage : m.page? p page.va = some { page with frame := some f } :=
    congrArg Sight.page hsight
  have hlink : m.link? p page.va = none := entryAt_eq_none_iff.mp (congrArg Sight.entry hsight)
  unfold mapAndLoad
  rw [ends_bind]
  refine ((ends_mapPage k hpage rfl hlink).and (steps_mapPage k hpage hlink)).mono ?_
    fun _ _ hfalse => hfalse.1.elim
  intro accepted mapped hmapped
  rcases hmapped with ⟨⟨kmapped, -⟩, hseen⟩
  rw [ends_bind, ends_require]
  cases accepted with
  | false =>
      rw [if_neg Bool.false_ne_true]
      exact ⟨_, _, hseen.1.trans hscene⟩
  | true =>
      rw [if_pos rfl]
      have hmappedScene : mapped.scene = v.see p page.va
          ⟨some { page with frame := some f }, some ⟨f, page.writable, false, false⟩, content⟩ := by
        have hlinked : mapped.scene = _ := hseen
        rw [hlinked, hsight, hscene, Scene.see_see]
      exact steps_loadPage kmapped List.mem_cons_self hmappedScene

theorem steps_attachFrame (hnone : page.frame = none)
    (hsight : m.scene.sight p page.va = ⟨some page, none, none⟩) :
    Ends (attachFrame p page f) m Anyhow
      (fun _ next => next.scene = m.scene.see p page.va
        ⟨some { page with frame := some f }, none, some (m.pool.content f)⟩)
      fun _ _ => False := by
  have hpage : m.page? p page.va = some page := congrArg Sight.page hsight
  have hentry : m.entryAt p page.va = none := congrArg Sight.entry hsight
  rw [ends_attachFrame_idle hpage hnone, scene_modifyPage hpage, hentry]
  rfl

theorem scene_detached {v : Scene} {content : Option Bytes} (hnone : page.frame = none)
    (hsight : v.sight p page.va = ⟨some page, none, none⟩)
    (hscene : m.scene = v.see p page.va ⟨some { page with frame := some f }, none, content⟩) :
    (m.modifyPage p page.va fun q => { q with frame := none }).scene = v := by
  have hseen := sight_of_scene hscene
  have hpage : m.page? p page.va = some { page with frame := some f } :=
    congrArg Sight.page hseen
  have hentry : m.entryAt p page.va = none := congrArg Sight.entry hseen
  have hsame : ({ page with frame := none } : Page) = page := by
    rw [← hnone]
  rw [scene_modifyPage hpage, hentry, hscene, Scene.see_see]
  apply Scene.see_self
  rw [hsight]
  exact congrArg (fun page => Sight.mk (some page) none none) hsame.symm

theorem steps_undoClaim {v : Scene} (hnone : page.frame = none)
    (hsight : v.sight p page.va = ⟨some page, none, none⟩) (hscene : v.Framed p page f m.scene) :
    Ends (undoClaim p page f) m Anyhow (fun _ next => next.scene = v)
      fun _ next => next.scene = v := by
  rcases hscene with ⟨entry, content, hscene⟩
  have hpage : m.page? p page.va = some { page with frame := some f } :=
    congrArg Sight.page (sight_of_scene hscene)
  have hp := lt_of_page?_eq_some hpage
  have hgone : (m.unmapped p page.va).scene =
      v.see p page.va ⟨some { page with frame := some f }, none, content⟩ := by
    rw [scene_unmapped hp, sight_of_scene hscene, hscene, Scene.see_see]
  have hdetached := scene_detached hnone hsight hgone
  unfold undoClaim detachFrame
  simp only [ends_bind, ends_unmapPage, ends_updatePage]
  exact (keeps_freeFrame f _).mono (fun _ _ h => h.scene.trans hdetached)
    fun _ _ h => h.scene.trans hdetached

theorem steps_makeResident (k : m.Sound { locks := locks } mem)
    (hpage : m.page? p page.va = some page) (hnone : page.frame = none)
    (hlock : Lock.page p page.va ∈ locks) (hring : Lock.ring ∉ locks)
    (hswap : Lock.swap ∉ locks) :
    Ends (makeResident p page) m Anyhow
      (fun _ next => ∃ v, Scene.Steps (Deed.Evicting locks) m.scene v ∧
        Scene.Step (.load p page) v next.scene)
      fun _ next => Scene.Steps (Deed.Evicting locks) m.scene next.scene := by
  have hentry : m.entryAt p page.va = none := by
    apply entryAt_eq_none_iff.mpr
    refine k.link?_eq_none ?_ List.not_mem_nil
    rw [hpage, Option.bind_some, hnone]
  have hsight : m.scene.sight p page.va = ⟨some page, none, none⟩ := by
    rw [← hentry]
    exact sight_of_frameless hpage hnone
  unfold makeResident
  rw [ends_bind]
  have hgives : Ends (allocateFrame (ownerOf p page)) m Anyhow _ _ :=
    ends_allocateFrame k hring hswap fun _ => trivial
  refine (hgives.and (steps_allocateFrame k hswap)).mono ?_ fun _ _ hfailed => hfailed.2
  intro f given hgiven
  rcases hgiven with ⟨⟨hundisturbed, kgiven, hlisted⟩, hsteps⟩
  have hgivenSight : given.scene.sight p page.va = ⟨some page, none, none⟩ :=
    (hsteps.sight_locked hlock).trans hsight
  have hgivenPage : given.page? p page.va = some page :=
    congrArg Sight.page hgivenSight
  rw [ends_bind]
  refine ((ends_attachFrame kgiven hgivenPage hnone hlisted).and
    (steps_attachFrame hnone hgivenSight)).mono ?_ fun _ _ hfalse => hfalse.2.elim
  intro _ attached hattached
  rcases hattached with ⟨⟨-, -, kattached, -, -⟩, hscene⟩
  rw [ends_bind, ends_attempt]
  refine (steps_mapAndLoad kattached hscene).mono ?_ ?_
  · intro _ loaded hloaded
    rcases hloaded with ⟨bytes, hloaded, himage⟩
    dsimp only
    rw [ends_bind]
    refine (steps_unpinFrame f).mono ?_ fun _ _ hfalse => hfalse.elim
    intro _ next hnext
    rw [ends_report, scene_recorded rfl, hnext.scene, hloaded]
    exact ⟨given.scene, hsteps, .load hgivenSight hnone himage⟩
  · intro e next hnext
    dsimp only
    rw [ends_bind]
    refine (steps_undoClaim hnone hgivenSight hnext).mono ?_ ?_
    · intro _ last hlast
      rw [ends_refuse, scene_recorded rfl, hlast]
      exact hsteps
    · intro _ last hlast
      rw [hlast]
      exact hsteps

/-- A claim that fails has evicted pages at most. -/
theorem steps_claim (k : m.Sound { locks := locks } mem) (hlock : Lock.page p va ∉ locks)
    (hring : Lock.ring ∉ locks) (hswap : Lock.swap ∉ locks) :
    Ends (claim p va) m Anyhow
      (fun _ next => Scene.Steps (Deed.Claiming p va) m.scene next.scene)
      fun _ next => Scene.Steps (Deed.Evicting []) m.scene next.scene := by
  have klocked := k.locked (.page p va)
  unfold claim
  apply ends_withLock_of
  rw [ends_bind, ends_get, ends_bind]
  cases hpage : (m.locked (.page p va)).page? p va with
  | none =>
      rw [ends_orFail_none, scene_unlocked, scene_locked]
      exact .refl _
  | some page =>
      have haddress := (klocked.placed p va page hpage).address
      rw [ends_orFail_some, ends_when]
      cases hframe : page.frame with
      | some f =>
          rw [if_neg (by rw [Page.isResident, hframe]; exact Bool.false_ne_true), scene_unlocked,
            scene_locked]
          exact .refl _
      | none =>
          rw [if_pos (by rw [Page.isResident, hframe]; rfl)]
          have hring' : Lock.ring ∉ Lock.page p va :: locks := by
            simpa using hring
          have hswap' : Lock.swap ∉ Lock.page p va :: locks := by
            simpa using hswap
          subst haddress
          refine (steps_makeResident klocked hpage hframe List.mem_cons_self hring' hswap').mono
            ?_ ?_
          · intro _ next hnext
            rcases hnext with ⟨v, hsteps, hstep⟩
            rw [scene_unlocked]
            rw [scene_locked] at hsteps
            exact (hsteps.mono fun _ hdeed => Or.inl hdeed.unlocked).trans
              (.single _ (Or.inr ⟨page, rfl, rfl⟩) hstep)
          · intro _ next hnext
            rw [scene_unlocked]
            rw [scene_locked] at hnext
            exact hnext.mono fun _ hdeed => hdeed.unlocked

/-! ## Releasing -/

theorem frames_writeBack {owner : Owner} {x : FileExtent} {bytes : Bytes} :
    Ends (writeBack owner x bytes) m Anyhow (fun _ next => next.pool = m.pool)
      fun _ next => next.pool = m.pool := by
  unfold writeBack writeFile
  dsimp only
  split
  · rfl
  · simp only [ends_bind, ends_ensure, ends_get, ends_setFile, ends_record, ends_pure]
    split
    · cases ((m.file x.file).write x.offset.toNat (bytes.take x.readBytes.toNat)).1 with
      | none => rfl
      | some count =>
          rw [ends_orFail_some]
          split
          · rfl
          · rfl
    · trivial

theorem steps_saveChanges {x : FileExtent} (hbytes : page.bytes = (m.pool.content f).length) :
    Ends (saveChanges p page x f) m Anyhow
      (fun _ next => next.pool = m.pool ∧
        (x.readBytes = 0 ∧ next.scene = m.scene ∨ x.readBytes ≠ 0 ∧
          next.scene = m.scene.written ⟨p, page.va, page.id⟩ x (m.pool.content f)))
      fun _ _ => False := by
  unfold saveChanges
  simp only [ends_bind, ends_readFrame, ends_attempt]
  rw [hbytes, List.take_length]
  refine (frames_writeBack.and steps_writeBack).mono ?_ ?_
  · intro _ next hnext
    rcases hnext with ⟨hpool, ⟨hzero, hscene⟩ | ⟨hsome, hscene, -⟩⟩
    · exact ⟨hpool, Or.inl ⟨hzero, hscene⟩⟩
    · exact ⟨hpool, Or.inr ⟨hsome, hscene⟩⟩
  · intro e next hnext
    rw [ends_report]
    exact ⟨hnext.1, Or.inr ⟨hnext.2.1, (scene_recorded rfl).trans hnext.2.2⟩⟩

theorem steps_releaseBacking (entry : Option PageEntry)
    (hbytes : ∀ f, page.frame = some f → page.bytes = (m.pool.content f).length) :
    Ends (releaseBacking p page (entry.any PageEntry.dirty)) m Anyhow
      (fun _ next => next.pool.frames = m.pool.frames ∧ next.scene = match page.frame with
        | some f => m.scene.settled ⟨p, page.va, page.id⟩ page.state entry (m.pool.content f)
        | none => m.scene)
      fun _ _ => True := by
  unfold releaseBacking
  split
  · rename_i hstate
    refine (kept_releaseSlot sameScene_ignores _ m).mono ?_ fun _ _ _ => trivial
    intro _ next hnext
    refine ⟨hnext.frames, hnext.scene.trans ?_⟩
    rw [hstate]
    cases page.frame <;> rfl
  · rename_i x f hstate hframe
    rw [ends_when, hstate, hframe]
    dsimp only [Scene.settled]
    split
    · rename_i hdirty
      refine (steps_saveChanges (hbytes f hframe)).mono ?_ fun _ _ hfalse => hfalse.elim
      intro _ next hnext
      rcases hnext with ⟨hpool, ⟨hzero, hscene⟩ | ⟨hsome, hscene⟩⟩
      · rw [if_neg fun hunsaved => hunsaved.1 hzero]
        exact ⟨congrArg FramePool.frames hpool, hscene⟩
      · rw [if_pos ⟨hsome, hdirty⟩]
        exact ⟨congrArg FramePool.frames hpool, hscene⟩
    · rename_i hclean
      rw [if_neg fun hunsaved => hclean hunsaved.2]
      exact ⟨rfl, rfl⟩
  · rename_i hanon hfile
    refine ⟨rfl, ?_⟩
    cases hframe : page.frame with
    | none => rfl
    | some f =>
        cases hstate : page.state with
        | uninit | anon => rfl
        | file x => exact (hfile x f hstate hframe).elim

theorem steps_releasePage (hp : p < m.processes.length)
    (hbytes : ∀ f, page.frame = some f → page.bytes = (m.pool.content f).length)
    (hgone : m.page? p page.va = none)
    (hidle : page.frame = none → m.entryAt p page.va = none) :
    Ends (releasePage p page) m Anyhow
      (fun _ next => next.pool.frames = m.pool.frames ∧ next.scene =
        m.scene.released p page (m.entryAt p page.va) (page.frame.map m.pool.content))
      fun _ _ => True := by
  have hsight : m.scene.sight p page.va = ⟨none, m.entryAt p page.va, none⟩ :=
    sight_of_absent hgone
  unfold releasePage
  apply ends_withLock_of
  rw [ends_bind]
  have hunmapped : Ends (unmapResident p page) (m.locked (.page p page.va)) Anyhow
      (fun dirty next => dirty = (m.entryAt p page.va).any PageEntry.dirty ∧
        next.pool = m.pool ∧ next.scene = m.scene.see p page.va .blank)
      fun _ _ => False := by
    unfold unmapResident
    split
    · have hp' : p < (m.locked (.page p page.va)).processes.length := hp
      rw [ends_unmapPage, scene_unmapped hp', scene_locked]
      refine ⟨Mmu.dirty_unmap _ _, rfl, ?_⟩
      rw [show (m.locked (.page p page.va)).sight p page.va = ⟨none, m.entryAt p page.va, none⟩
        from hsight]
      rfl
    · rename_i hresident
      have hnone : page.frame = none := by
        simpa [Page.isResident] using hresident
      rw [ends_pure, scene_locked, hidle hnone]
      rw [hidle hnone] at hsight
      exact ⟨rfl, rfl, (Scene.see_self hsight).symm⟩
  refine hunmapped.mono ?_ fun _ _ hfalse => hfalse.elim
  intro dirty unmapped hnext
  rcases hnext with ⟨rfl, hpool, hscene⟩
  rw [ends_bind]
  refine (steps_releaseBacking (m.entryAt p page.va) ?_).mono ?_ fun _ _ _ => trivial
  · rw [hpool]
    exact hbytes
  · intro _ saved hsaved
    rcases hsaved with ⟨hframes, hsaved⟩
    have hcontent : ∀ f, saved.pool.content f = m.pool.content f := by
      intro f
      unfold FramePool.content
      rw [hframes, hpool]
    cases hframe : page.frame with
    | none =>
        rw [hframe] at hsaved
        rw [ends_pure]
        refine ⟨hframes.trans (congrArg FramePool.frames hpool), ?_⟩
        rw [scene_unlocked, hsaved, hscene]
        rfl
    | some f =>
        rw [hframe] at hsaved
        rw [ends_bind, ends_readFrame, ends_bind, ends_record, hcontent,
          hbytes f hframe, List.take_length]
        refine (keeps_freeFrame f _).mono ?_ fun _ _ _ => trivial
        intro _ next hnext
        refine ⟨hnext.frames.trans (hframes.trans (congrArg FramePool.frames hpool)), ?_⟩
        rw [scene_unlocked, hnext.scene, scene_noted rfl, hsaved, hscene, hpool]
        exact congrArg (fun v => Scene.noted v _) (Scene.settled_see _ _ _ _ _)

end Machine
end DemandPaging
