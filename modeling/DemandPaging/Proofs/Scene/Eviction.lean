import DemandPaging.Proofs.Machine.Eviction
import DemandPaging.Proofs.Machine.Keeping
import DemandPaging.Proofs.Scene.View

/-!
# Evictions in scenes

To take a frame from a page is a sequence of deeds that concern pages whose lock is free: a page is
sent to its file, gives up its frame, or loses its mapping. Slots and the ring are out of sight.
-/

namespace DemandPaging

theorem BackingFile.write_unread (file : BackingFile) (offset : Nat) (data : Bytes) :
    file.unread.write offset data =
      ((file.write offset data).1, (file.write offset data).2.unread) := by
  unfold write
  rw [show file.unread.writing.peek = file.writing.peek from rfl]
  cases file.writing.peek <;> rfl

/-- What can happen while a frame is taken: it concerns pages whose lock is free. -/
def Deed.Evicting (locks : List Lock) : Deed → Prop
  | save p page | evict p page | strand p page | relink p page => Lock.page p page.va ∉ locks
  | _ => False

theorem Scene.Steps.sight_locked {locks : List Lock} {v w : Scene} {p : Nat} {va : Vaddr}
    (h : Steps (Deed.Evicting locks) v w) (hlock : Lock.page p va ∈ locks) :
    w.sight p va = v.sight p va := by
  have hne : ∀ {q : Nat} {page : Page}, Lock.page q page.va ∉ locks → ¬(p = q ∧ va = page.va) := by
    intro q page hfree hat
    rcases hat with ⟨rfl, rfl⟩
    exact hfree hlock
  refine h.keeps (P := fun w => w.sight p va = v.sight p va) ?_ rfl
  intro deed u w hdeed hstep hu
  cases hstep with
  | save sight unsaved => exact hu
  | evict sight evicted saved => exact (sight_see_of_ne (hne hdeed)).trans hu
  | strand sight refused => exact (sight_see_of_ne (hne hdeed)).trans hu
  | relink sight frame anon => exact (sight_see_of_ne (hne hdeed)).trans hu
  | start accepts vacant => exact hdeed.elim
  | register free idle => exact hdeed.elim
  | regroup groups kept => exact hdeed.elim
  | load sight idle image => exact hdeed.elim
  | forget sight => exact hdeed.elim
  | remove sight saved => exact hdeed.elim
  | clone sight idle => exact hdeed.elim
  | store writable => exact hdeed.elim

namespace Machine

open Routine

variable {m : Machine} {mem : FlatMemory} {locks : List Lock} {p f : Nat} {va : Vaddr}
  {page : Page} {owner : Owner}

/-! ## Routines out of sight -/

structure SameScene (m n : Machine) : Prop where
  scene : n.scene = m.scene
  frames : n.pool.frames = m.pool.frames

theorem sameScene_ignores : IgnoresSwap SameScene where
  refl := fun _ => ⟨rfl, rfl⟩
  trans := fun _ _ _ h h' => ⟨h'.scene.trans h.scene, h'.frames.trans h.frames⟩
  locked := fun m lock => ⟨scene_locked m lock, rfl⟩
  seized := fun m lock => ⟨scene_seized m lock, rfl⟩
  unlocked := fun m lock => ⟨scene_unlocked m lock, rfl⟩
  contended := fun _ _ => ⟨scene_recorded rfl, rfl⟩
  reported := fun _ _ => ⟨scene_recorded rfl, rfl⟩
  setSwap := fun _ _ _ => ⟨rfl, rfl⟩

theorem sameScene_oblivious : Oblivious SameScene :=
  sameScene_ignores.toOblivious

theorem keeps_modifyRing (change : FrameRing → FrameRing) : Keeps SameScene (modifyRing change) :=
  fun _ => ⟨rfl, rfl⟩

theorem keeps_secondChance (page : Page) : Keeps SameScene (secondChance page) := by
  apply Keeps.bind sameScene_oblivious (.get sameScene_oblivious)
  intro seen
  have hset : Keeps SameScene (setAccessed page.mmu page.va false) := by
    intro m
    rw [ends_setAccessed]
    exact ⟨scene_keepEntries rfl fun wa => Mmu.entryAt_setAccessed _ _ wa _, rfl⟩
  exact .bind sameScene_oblivious (.when _ sameScene_oblivious hset) fun _ =>
    .pure sameScene_oblivious _

theorem steps_unpinFrame (frame : Nat) :
    Ends (unpinFrame frame) m Anyhow (fun _ next => SameScene m next) fun _ _ => False := by
  apply ends_withLock_of
  rw [ends_modifyRing]
  exact ⟨(scene_unlocked _ _).trans (scene_locked m .ring), rfl⟩

theorem keeps_freeFrame (frame : Nat) : Keeps SameScene (freeFrame frame) := by
  have hunlisted : Keeps SameScene (unlistFrame frame) := by
    apply Keeps.bind sameScene_oblivious (.get sameScene_oblivious)
    intro seen
    cases seen.ring.position? frame with
    | some place => exact keeps_modifyRing _
    | none => exact .report sameScene_oblivious _
  have hreturned : Keeps SameScene (returnToPool frame) := by
    intro m
    unfold returnToPool
    simp only [ends_bind, ends_get]
    unfold FramePool.giveBack
    split
    · trivial
    · exact ⟨scene_pool fun _ _ _ _ _ _ => rfl, rfl⟩
  exact .bind sameScene_oblivious (.withLock sameScene_oblivious hunlisted) fun _ => hreturned

/-! ## Saving -/

theorem steps_writeFile {x : FileExtent} {bytes : Bytes} :
    Ends (writeFile owner x.file x.offset (bytes.take x.readBytes.toNat)) m Anyhow
      (fun accepted next => next.scene = m.scene.written owner x bytes ∧
        next.scene.SentBack owner x bytes accepted)
      fun _ _ => False := by
  unfold writeFile
  simp only [ends_bind, ends_get, ends_setFile, ends_record, ends_pure]
  constructor
  · unfold Scene.written Scene.writeOf
    rw [scene_noted rfl, scene_setFile, file_scene, BackingFile.write_unread]
    rfl
  · rw [scene_noted rfl]
    exact ⟨_, rfl⟩

theorem steps_writeBack {x : FileExtent} {bytes : Bytes} :
    Ends (writeBack owner x bytes) m Anyhow
      (fun _ next => x.readBytes = 0 ∧ next.scene = m.scene ∨
        x.readBytes ≠ 0 ∧ next.scene = m.scene.written owner x bytes ∧
          next.scene.SentBack owner x bytes (some x.readBytes.toNat))
      fun _ next => x.readBytes ≠ 0 ∧ next.scene = m.scene.written owner x bytes := by
  unfold writeBack
  dsimp only
  by_cases hzero : x.readBytes = 0
  · have hnone : x.readBytes.toNat = 0 := congrArg UInt64.toNat hzero
    rw [if_pos hnone]
    exact Or.inl ⟨hzero, rfl⟩
  · have hsome : ¬x.readBytes.toNat = 0 := fun hnone => hzero (UInt64.toNat_inj.mp hnone)
    rw [if_neg hsome]
    simp only [ends_bind, ends_ensure]
    split
    · refine steps_writeFile.mono ?_ fun _ _ hfalse => hfalse.elim
      intro accepted next hnext
      rcases hnext with ⟨hscene, hsent⟩
      cases accepted with
      | none => exact ⟨hzero, hscene⟩
      | some count =>
          rw [ends_orFail_some]
          split
          · rename_i hall
            rw [hall] at hsent
            exact Or.inr ⟨hzero, hscene, hsent⟩
          · exact ⟨hzero, (scene_recorded rfl).trans hscene⟩
    · trivial

/-! ## Taking the frame of a page -/

theorem steps_mapPage {h : InHand} (k : m.Sound h mem) (hpage : m.page? p va = some page)
    (hfree : m.link? p va = none) :
    Ends (mapPage p va f page.writable) m Anyhow
      (fun accepted next => match accepted with
        | true => next.scene = m.scene.see p va
            { m.sight p va with entry := some ⟨f, page.writable, false, false⟩ }
        | false => next.scene = m.scene ∧ ∃ call, m.scene.accepts p call = false)
      fun _ _ => False := by
  have hp := lt_of_page?_eq_some hpage
  unfold mapPage
  simp only [ends_bind, ends_get, ends_modify, k.map_of_page hpage hfree]
  split
  · rw [ends_ofAbort_ok]
    exact scene_linked hp va
  · rename_i hrefusal
    rw [ends_ofAbort_ok]
    have hrefused : (m.process p).mmu.accepting.peek = false := by
      simpa using hrefusal
    exact ⟨scene_keepEntries rfl fun _ => rfl, _, hrefused⟩

theorem steps_savePage {state : PageState} {bytes : Bytes} {dirty : Bool}
    (hstate : state = .anon none ∨ ∃ x, state = .file x) :
    Ends (savePage owner state bytes dirty) m Anyhow
      (fun saved next => state.Evicted saved ∧
        ((∀ x, state = .file x → dirty = true → x.readBytes = 0) ∧ next.scene = m.scene ∨
          ∃ x, (state = .file x ∧ x.readBytes ≠ 0 ∧ dirty = true) ∧
            next.scene = m.scene.written owner x bytes ∧
            next.scene.SentBack owner x bytes (some x.readBytes.toNat)))
      fun _ next => state = .anon none ∧ next.scene = m.scene ∨
        ∃ x, (state = .file x ∧ x.readBytes ≠ 0 ∧ dirty = true) ∧
          next.scene = m.scene.written owner x bytes := by
  rcases hstate with rfl | ⟨x, rfl⟩
  · unfold savePage
    rw [ends_bind]
    refine (kept_saveToSlot sameScene_ignores bytes m).mono ?_ ?_
    · intro s next hnext
      exact ⟨.anon s, Or.inl ⟨fun x hx => (nomatch hx), hnext.scene⟩⟩
    · intro _ next hnext
      exact Or.inl ⟨rfl, hnext.scene⟩
  · unfold savePage
    rw [ends_bind, ends_when]
    cases dirty with
    | false =>
        rw [if_neg Bool.false_ne_true, ends_pure]
        exact ⟨.file x, Or.inl ⟨fun _ _ hdirty => (nomatch hdirty), rfl⟩⟩
    | true =>
        rw [if_pos rfl]
        refine steps_writeBack.mono ?_ ?_
        · intro _ next hnext
          rw [ends_pure]
          refine ⟨.file x, ?_⟩
          rcases hnext with ⟨hzero, hscene⟩ | ⟨hsome, hscene, hsent⟩
          · left
            refine ⟨?_, hscene⟩
            intro y hy _
            cases hy
            exact hzero
          · exact Or.inr ⟨x, ⟨rfl, hsome, rfl⟩, hscene, hsent⟩
        · intro _ next hnext
          exact Or.inr ⟨x, ⟨rfl, hnext.1, rfl⟩, hnext.2⟩

theorem sight_of_scene {v : Scene} {s : Sight} (h : m.scene = v.see p va s) : m.sight p va = s := by
  have hsight : m.scene.sight p va = (v.see p va s).sight p va := by
    rw [h]
  rw [Scene.sight_see_self] at hsight
  exact hsight

theorem steps_markModified {v : Scene} {content : Option Bytes} {w dirty : Bool}
    (hscene : m.scene = v.see p va ⟨some page, some ⟨f, w, false, false⟩, content⟩) :
    Ends (when dirty (setDirty p va true)) m Anyhow
      (fun _ next => next.scene = v.see p va ⟨some page, some ⟨f, w, dirty, false⟩, content⟩)
      fun _ _ => False := by
  rw [ends_when]
  cases dirty with
  | false => exact hscene
  | true =>
      have hsight := sight_of_scene hscene
      have hpage : m.page? p va = some page := congrArg Sight.page hsight
      have hentry : m.entryAt p va = some ⟨f, w, false, false⟩ := congrArg Sight.entry hsight
      rw [if_pos rfl, ends_setDirty, scene_setDirty (lt_of_page?_eq_some hpage), hsight, hentry,
        hscene, Scene.see_see]
      rfl

theorem steps_restoreMapping {h : InHand} {v : Scene} {content : Option Bytes} {dirty : Bool}
    (k : m.Sound h mem) (hpage : m.page? p page.va = some page)
    (hscene : m.scene = v.see p page.va ⟨some page, none, content⟩) :
    Ends (restoreMapping owner page f dirty) m Anyhow
      (fun _ next => next.scene = v.see p page.va
          ⟨some page, some ⟨f, page.writable, dirty, false⟩, content⟩ ∨
        next.scene = (v.see p page.va ⟨some page, none, content⟩).noted (.stranded owner) ∧
          ∃ call, v.accepts p call = false)
      fun _ _ => False := by
  have hunit : page.mmu = p := (k.placed p page.va page hpage).unit
  have hsight := sight_of_scene hscene
  have hfree : m.link? p page.va = none :=
    entryAt_eq_none_iff.mp (congrArg Sight.entry hsight)
  unfold restoreMapping
  rw [hunit, ends_bind]
  refine (steps_mapPage k hpage hfree).mono ?_ fun _ _ hfalse => hfalse
  intro accepted next hnext
  cases accepted with
  | true =>
      have hmapped : next.scene = v.see p page.va
          ⟨some page, some ⟨f, page.writable, false, false⟩, content⟩ := by
        have hseen : next.scene = _ := hnext
        rw [hseen, hscene, Scene.see_see, hsight]
      rw [if_pos rfl]
      exact (steps_markModified hmapped).mono (fun _ _ hmarked => Or.inl hmarked)
        fun _ _ hfalse => hfalse
  | false =>
      right
      rw [scene_noted rfl, hnext.1, hscene]
      refine ⟨rfl, ?_⟩
      have hrefused := hnext.2
      rw [hscene] at hrefused
      exact hrefused

/-- A page that is resident between two deeds is mapped to its frame, or not at all. -/
theorem Sound.entryAt_cases (k : m.Sound { locks := locks } mem) (hpage : m.page? p va = some page)
    (hframe : page.frame = some f) :
    m.entryAt p va = none ∨
      m.entryAt p va = some ⟨f, page.writable, (m.process p).mmu.isDirty va, false⟩ := by
  cases hlink : m.link? p va with
  | none => exact Or.inl (entryAt_eq_none_iff.mpr hlink)
  | some l =>
      right
      rcases l with ⟨g, w⟩
      rcases (k.links.backed p va g w hlink).resolve_left List.not_mem_nil with
        ⟨other, hother, hframe', hwritable⟩
      cases hpage.symm.trans hother
      cases hframe.symm.trans hframe'
      rw [hwritable]
      exact entryAt_of_link? hlink

theorem scene_departed {v : Scene} {content : Option Bytes} {state : PageState} {event : Event}
    (hscene : m.scene = v.see p va ⟨some page, none, content⟩) (hevent : event.isMovement = true) :
    ((m.modifyPage p va fun q => { q with state := state, frame := none }).recorded event).scene =
      (v.see p va ⟨some { page with state := state, frame := none }, none, none⟩).noted event := by
  have hsight := sight_of_scene hscene
  have hpage : m.page? p va = some page := congrArg Sight.page hsight
  have hentry : m.entryAt p va = none := congrArg Sight.entry hsight
  rw [scene_noted hevent, scene_modifyPage hpage, hscene, Scene.see_see, hentry]
  rfl

/-- What saving does to the scene when it is done before the page is unmapped. -/
structure Kept (m : Machine) (kept : List Lock) (p f : Nat) (page : Page) (v : Scene)
    (n : Machine) : Prop where
  steps : Scene.Steps (Deed.Evicting kept) m.scene v
  sight : v.sight p page.va = ⟨some page, m.entryAt p page.va, some (m.pool.content f)⟩
  scene : n.scene = v.see p page.va ⟨some page, none, some (m.pool.content f)⟩

theorem steps_saveUnmapped {kept : List Lock} {dirty : Bool} (hpage : m.page? p page.va = some page)
    (hframe : page.frame = some f) (hstate : page.state = .anon none ∨ ∃ x, page.state = .file x)
    (hdirty : dirty = (m.entryAt p page.va).any PageEntry.dirty)
    (hkept : Lock.page p page.va ∉ kept) :
    Ends (savePage ⟨p, page.va, page.id⟩ page.state (m.pool.content f) dirty)
      (m.unmapped p page.va) Anyhow
      (fun saved next => page.state.Evicted saved ∧ ∃ v, m.Kept kept p f page v next ∧
        ∀ x, page.Unsaved (m.entryAt p page.va) x →
          v.SentBack ⟨p, page.va, page.id⟩ x (m.pool.content f) (some x.readBytes.toNat))
      fun _ next => ∃ v, m.Kept kept p f page v next ∧
        (page.state = .anon none ∨ dirty = true) := by
  have hsight : m.sight p page.va = ⟨some page, m.entryAt p page.va, some (m.pool.content f)⟩ :=
    sight_of_frame hpage hframe
  have hunmapped : (m.unmapped p page.va).scene =
      m.scene.see p page.va ⟨some page, none, some (m.pool.content f)⟩ := by
    rw [scene_unmapped (lt_of_page?_eq_some hpage), hsight]
  have hsame : ∀ {next : Machine}, next.scene = (m.unmapped p page.va).scene →
      m.Kept kept p f page m.scene next := by
    intro next hnext
    exact ⟨.refl _, hsight, hnext.trans hunmapped⟩
  have hsent : ∀ {next : Machine} {x : FileExtent},
      (page.state = .file x ∧ x.readBytes ≠ 0 ∧ dirty = true) →
      next.scene = (m.unmapped p page.va).scene.written ⟨p, page.va, page.id⟩ x
        (m.pool.content f) →
      m.Kept kept p f page (m.scene.written ⟨p, page.va, page.id⟩ x (m.pool.content f)) next := by
    intro next x hx hnext
    rw [hunmapped] at hnext
    rw [hdirty] at hx
    exact ⟨.single (.save p page) hkept (.save hsight hx), hsight, hnext⟩
  refine (steps_savePage hstate).mono ?_ ?_
  · intro saved next hnext
    rcases hnext with ⟨hevicted, ⟨hclean, hscene⟩ | ⟨x, hx, hscene, hlast⟩⟩
    · refine ⟨hevicted, m.scene, hsame hscene, ?_⟩
      intro x hunsaved
      rcases hunsaved with ⟨hfile, hsome, hentry⟩
      exact absurd (hclean x hfile (hdirty.trans hentry)) hsome
    · refine ⟨hevicted, _, hsent hx hscene, ?_⟩
      intro y hunsaved
      cases hx.1.symm.trans hunsaved.1
      rw [hscene] at hlast
      exact hlast
  · intro _ next hnext
    rcases hnext with ⟨hanon, hscene⟩ | ⟨x, hx, hscene⟩
    · exact ⟨m.scene, hsame hscene, Or.inl hanon⟩
    · exact ⟨_, hsent hx hscene, Or.inr hx.2.2⟩

/-- A page gives up its frame once its content is saved, or it keeps the frame and perhaps the
mapping. -/
theorem steps_pageOut {kept : List Lock} (k : m.Sound { locks := locks } mem)
    (hpage : m.page? p page.va = some page) (hframe : page.frame = some f)
    (hswap : Lock.swap ∉ locks) (hkept : Lock.page p page.va ∉ kept) :
    Ends (pageOut ⟨p, page.va, page.id⟩ page) m Anyhow
      (fun _ next => Scene.Steps (Deed.Evicting kept) m.scene next.scene)
      fun _ next => Scene.Steps (Deed.Evicting kept) m.scene next.scene := by
  have hplaced := k.placed p page.va page hpage
  have hstate := k.state_of_frame hpage hframe
  have hlength := k.length_content (k.frame_lt hpage hframe)
  have hwhole : (m.pool.content f).take page.bytes = m.pool.content f := by
    rw [k.bytes_eq hpage]
    exact List.take_of_length_le (Nat.le_of_eq hlength)
  unfold pageOut
  rw [hframe, hplaced.unit]
  rw [ends_bind, ends_orFail_some, ends_bind, ends_unmapPage, ends_bind, ends_readFrame,
    show (m.unmapped p page.va).pool = m.pool from rfl, hwhole, ends_bind, ends_attempt]
  refine ((ends_savePage (k.part hpage hframe) hswap hlength hplaced.extent).and
    (steps_saveUnmapped hpage hframe hstate (Mmu.dirty_unmap _ _) hkept)).mono ?_ ?_
  · intro saved next hnext
    rcases hnext with ⟨-, hevicted, v, hv, hsaved⟩
    simp only [ends_bind, ends_updatePage, ends_record, ends_pure]
    rw [scene_departed hv.scene rfl]
    exact hv.steps.trans (.single (.evict p page) hkept (.evict hv.sight hevicted hsaved))
  · intro e next hnext
    rcases hnext with ⟨⟨hbeside, knext⟩, v, hv, hfailed⟩
    have hpage' : next.page? p page.va = some page := by
      rw [hbeside.page?, page?_unmapped, hpage]
    rw [ends_bind]
    refine (steps_restoreMapping knext hpage' hv.scene).mono ?_ fun _ _ hfalse => hfalse.elim
    intro _ last hlast
    rw [ends_fail]
    rcases hlast with hrestored | ⟨hstranded, hrefused⟩
    · rw [hrestored, Mmu.dirty_unmap]
      rcases k.entryAt_cases hpage hframe with hnone | hsome
      · -- The page had no mapping before, so it was not dirty, and an anonymous page failed.
        have hclean : (((m.process p).mmu.entryAt page.va).any PageEntry.dirty) = false := by
          rw [show (m.process p).mmu.entryAt page.va = none from hnone]
          rfl
        have hanon : page.state = .anon none := by
          refine hfailed.resolve_right ?_
          rw [Mmu.dirty_unmap, hclean]
          exact Bool.false_ne_true
        have hsight := hv.sight
        rw [hnone] at hsight
        rw [hclean]
        exact hv.steps.trans (.single (.relink p page) hkept (.relink hsight hframe hanon))
      · have hsame : some (PageEntry.mk f page.writable
            (((m.process p).mmu.entryAt page.va).any PageEntry.dirty) false) =
              m.entryAt p page.va := by
          rw [hsome, ← Mmu.isDirty_eq_entry?]
        rw [hsame, Scene.see_self hv.sight]
        exact hv.steps
    · rw [hstranded]
      exact hv.steps.trans (.single (.strand p page) hkept (.strand hv.sight hrefused))

/-! ## The clock -/

theorem steps_evictPage {place : Nat} {entry : RingEntry} {kept : List Lock}
    (k : m.Sound { locks := locks } mem) (hpage : m.page? p page.va = some page)
    (howner : entry.owner = ⟨p, page.va, page.id⟩) (hframe : page.frame = some f)
    (hswap : Lock.swap ∉ locks) (hkept : Lock.page p page.va ∉ kept) :
    Ends (evictPage place entry page) m Anyhow
      (fun _ next => Scene.Steps (Deed.Evicting kept) m.scene next.scene)
      fun _ next => Scene.Steps (Deed.Evicting kept) m.scene next.scene := by
  unfold evictPage
  rw [ends_bind, ends_attempt, howner]
  refine (steps_pageOut k hpage hframe hswap hkept).mono ?_ ?_
  · intro frame next hnext
    simp only [ends_bind, ends_ensure, ends_modifyRing, ends_report, ends_pure]
    split
    · rw [scene_recorded rfl]
      exact hnext
    · trivial
  · intro e next hnext
    simp only [ends_bind, ends_report, ends_pure]
    rw [scene_recorded rfl]
    exact hnext

theorem steps_evictUnlessAccessed {place : Nat} {entry : RingEntry} {kept : List Lock}
    (k : m.Sound { locks := locks } mem) (hpage : m.page? p page.va = some page)
    (howner : entry.owner = ⟨p, page.va, page.id⟩) (hframe : page.frame = some f)
    (hswap : Lock.swap ∉ locks) (hkept : Lock.page p page.va ∉ kept) :
    Ends (evictUnlessAccessed place entry page) m Anyhow
      (fun _ next => Scene.Steps (Deed.Evicting kept) m.scene next.scene)
      fun _ next => Scene.Steps (Deed.Evicting kept) m.scene next.scene := by
  unfold evictUnlessAccessed
  rw [ends_bind]
  refine ((ends_secondChance k).and (keeps_secondChance page m)).mono ?_
    fun _ _ hfalse => hfalse.1.elim
  intro accessed next hnext
  rcases hnext with ⟨hsound, hscene, -⟩
  have hpage' : next.page? p page.va = some page := by
    rw [← hpage]
    exact congrArg (fun v => (v.sight p page.va).page) hscene
  have knext : next.Sound { locks := locks } mem := by
    rcases hsound with ⟨-, knext⟩ | rfl
    · exact knext
    · exact k
  cases accessed with
  | true => exact .of_eq hscene
  | false =>
      rw [if_neg Bool.false_ne_true, ← hscene]
      exact steps_evictPage knext hpage' howner hframe hswap hkept

theorem steps_evictEntry {place : Nat} {entry : RingEntry} (k : m.Sound { locks := locks } mem)
    (hplace : m.ring.entries[place]? = some entry) (hswap : Lock.swap ∉ locks) :
    Ends (evictEntry place entry) m Anyhow
      (fun _ next => Scene.Steps (Deed.Evicting locks) m.scene next.scene)
      fun _ next => Scene.Steps (Deed.Evicting locks) m.scene next.scene := by
  have hmem : entry ∈ m.ring.entries := List.mem_of_getElem? hplace
  unfold evictEntry
  split
  · exact .refl _
  · rcases (k.frames.owned entry hmem).resolve_left List.not_mem_nil with
      ⟨page, hpage, hid, hframe⟩
    have haddress := (k.placed entry.owner.process entry.owner.va page hpage).address
    have howner : entry.owner = ⟨entry.owner.process, page.va, page.id⟩ := by
      rw [haddress, hid]
    rw [ends_bind, ends_get, ownedPage?_eq_some_iff.mpr ⟨hpage, hid⟩, ends_withFreeLock]
    split
    · exact .of_eq (scene_recorded rfl)
    · rename_i hunlocked
      have hkept : Lock.page entry.owner.process page.va ∉ locks := by
        rw [haddress, ← show m.held = locks from k.held]
        exact hunlocked
      have hswap' : Lock.swap ∉ Lock.page entry.owner.process entry.owner.va :: locks := by
        simpa using hswap
      have klocked := k.seized (.page entry.owner.process entry.owner.va)
      refine (steps_evictUnlessAccessed klocked (haddress ▸ hpage) howner hframe hswap'
        hkept).mono ?_ ?_
      · intro _ next hnext
        rw [scene_unlocked]
        exact hnext
      · intro _ next hnext
        rw [scene_unlocked]
        exact hnext

theorem steps_sweep {visits : Nat} (k : m.Sound { locks := locks } mem)
    (hswap : Lock.swap ∉ locks) :
    Ends (sweep visits) m Anyhow
      (fun _ next => Scene.Steps (Deed.Evicting locks) m.scene next.scene)
      fun _ next => Scene.Steps (Deed.Evicting locks) m.scene next.scene := by
  induction visits generalizing m with
  | zero => trivial
  | succ visits ih =>
      unfold sweep
      rw [ends_bind, ends_get]
      dsimp only
      split
      · trivial
      · rename_i entry hentry
        have kadvanced : Sound { m with ring := m.ring.advance } { locks := locks } mem :=
          { k with }
        rw [ends_bind, ends_modifyRing, ends_bind]
        refine ((ends_evictEntry kadvanced hentry hswap).and
          (steps_evictEntry kadvanced hentry hswap)).mono ?_ fun _ _ hnext => hnext.2
        intro taken next hnext
        rcases hnext with ⟨⟨-, knext⟩, hsteps⟩
        have hsteps : Scene.Steps (Deed.Evicting locks) m.scene next.scene := hsteps
        cases taken with
        | some f => exact hsteps
        | none => exact (ih knext).mono (fun _ _ => hsteps.trans) fun _ _ => hsteps.trans

/-! ## Handing frames out -/

theorem steps_takeFromPool {h : InHand} (k : m.Sound h mem) :
    Ends takeFromPool m Anyhow (fun _ next => next.scene = m.scene) fun _ _ => False := by
  unfold takeFromPool
  simp only [ends_bind, ends_get, ends_modify, ends_pure]
  rcases m.pool.take_cases with hnone | ⟨f, rest, content, hfree, -, hsome⟩
  · rw [hnone]
    rfl
  · rw [hsome]
    apply scene_pool
    intro q wa page g hpage hframe
    have hne : g ≠ f := by
      intro heq
      subst heq
      exact k.not_free hpage hframe (hfree ▸ List.mem_cons_self)
    exact FramePool.content_setContent hne

theorem steps_obtainFrame (k : m.Sound { locks := locks } mem) (hswap : Lock.swap ∉ locks) :
    Ends obtainFrame m Anyhow
      (fun _ next => Scene.Steps (Deed.Evicting locks) m.scene next.scene)
      fun _ next => Scene.Steps (Deed.Evicting locks) m.scene next.scene := by
  unfold obtainFrame
  rw [ends_bind]
  refine ((ends_takeFromPool k).and (steps_takeFromPool k)).mono ?_ fun _ _ hfalse => hfalse.2.elim
  intro taken next hnext
  rcases hnext with ⟨⟨-, knext⟩, hscene⟩
  cases taken with
  | some f => exact .of_eq hscene
  | none =>
      unfold evict
      rw [ends_bind, ends_get, ← hscene]
      exact steps_sweep knext.2 hswap

theorem steps_allocateFrame (k : m.Sound { locks := locks } mem) (hswap : Lock.swap ∉ locks) :
    Ends (allocateFrame owner) m Anyhow
      (fun _ next => Scene.Steps (Deed.Evicting locks) m.scene next.scene)
      fun _ next => Scene.Steps (Deed.Evicting locks) m.scene next.scene := by
  have hswap' : Lock.swap ∉ Lock.ring :: locks := by
    simpa using hswap
  have hwider : ∀ deed, Deed.Evicting (.ring :: locks) deed → Deed.Evicting locks deed := by
    intro deed hdeed
    cases deed with
    | save p page | evict p page | strand p page | relink p page =>
        exact fun hin => hdeed (List.mem_cons_of_mem _ hin)
    | start | register | regroup | load | remove | clone | store => exact hdeed
  unfold allocateFrame
  apply ends_withLock_of
  rw [ends_bind]
  refine (steps_obtainFrame (k.locked .ring) hswap').mono ?_ ?_
  · intro f next hnext
    simp only [ends_bind, ends_modifyRing, ends_pure]
    rw [scene_unlocked]
    rw [scene_locked] at hnext
    exact hnext.mono hwider
  · intro _ next hnext
    rw [scene_unlocked]
    rw [scene_locked] at hnext
    exact hnext.mono hwider

end Machine
end DemandPaging
