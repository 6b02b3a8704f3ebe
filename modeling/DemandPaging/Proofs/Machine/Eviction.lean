import DemandPaging.Proofs.Machine.Content
import DemandPaging.Proofs.Machine.Likeness

/-!
# Eviction from a sound machine

A page that gives up its frame keeps its bytes: they are in its slot or, for a page of a file, not
the machine's business. One that cannot be saved is mapped again unless the memory management unit
refuses. The process for which the frame is taken finds its own pages as they were.
-/

namespace DemandPaging
namespace Machine

open Routine

variable {m : Machine} {mem : FlatMemory} {fatal : Abort → Prop} {locks : List Lock}

/-! ## Taking the frame of a page -/

theorem ends_secondChance {page : Page} (k : m.Sound { locks := locks } mem) :
    Ends (secondChance page) m fatal
      (fun _ next => (∃ change, next = m.modifyMmu page.mmu change) ∧
        next.Sound { locks := locks } mem ∨ next = m)
      fun _ _ => False := by
  unfold secondChance
  simp only [ends_bind, ends_get, ends_when, ends_setAccessed, ends_pure]
  split
  · exact Or.inl ⟨⟨_, rfl⟩, k.setAccessed page.mmu page.va false⟩
  · exact Or.inr trivial

theorem ends_restoreMapping {owner : Owner} {p f : Nat} {va : Vaddr} {page : Page} {dirty : Bool}
    (kept : List Lock) (k : m.Sound { locks := locks, parting := [f] } mem)
    (hpage : m.page? p va = some page) (hframe : page.frame = some f)
    (hlink : m.link? p va = none) :
    Ends (restoreMapping owner page f dirty) m fatal
      (fun _ next => Undisturbed kept m next ∧ next.Sound { locks := locks } mem)
      fun _ _ => False := by
  have hplaced := k.placed p va page hpage
  unfold restoreMapping
  rw [hplaced.unit, hplaced.address, ends_bind]
  refine (ends_mapPage k hpage hframe hlink).mono ?_ fun _ _ hfalse => hfalse
  intro accepted next hnext
  rcases hnext with ⟨knext, ⟨unit, hunit⟩, hlinked⟩
  have hundisturbed : Undisturbed kept m next := hunit ▸ .modifyMmu kept m p _
  have hsame : next.page? p va = some page := by
    rw [hunit, page?_modifyMmu, hpage]
  have kmapped : next.Sound { locks := locks } mem := by
    refine knext.unpark rfl ?_
    intro q wa other hother hframe'
    rcases knext.frames.holder_unique hsame hframe hother hframe' with ⟨rfl, rfl⟩
    cases accepted with
    | true => exact Or.inl (by rw [show next.link? q wa = _ from hlinked]; rfl)
    | false => exact Or.inr hlinked.2
  cases accepted with
  | true =>
      rw [if_pos rfl, ends_when]
      split
      · exact ⟨hundisturbed.trans (.modifyMmu kept next p _), kmapped.setDirty p va true⟩
      · exact ⟨hundisturbed, kmapped⟩
  | false => exact ⟨{ hundisturbed with }, kmapped.recorded _⟩

theorem Sound.part {p f : Nat} {va : Vaddr} {page : Page} (k : m.Sound { locks := locks } mem)
    (hpage : m.page? p va = some page) (hframe : page.frame = some f) :
    (m.unmapped p va).Sound { locks := locks, parting := [f] } mem := by
  refine (k.park f).unlink (lt_of_page?_eq_some hpage) ?_ fun x hx _ => hx
  intro other g hother hg
  cases hpage.symm.trans hother
  cases hframe.symm.trans hg
  exact Or.inr List.mem_cons_self

theorem Saved.depart {p f : Nat} {va : Vaddr} {page : Page} {bytes : Bytes} {saved : PageState}
    (hsaved : m.Saved { locks := locks, parting := [f] } mem page.state bytes saved)
    (hplaced : page.Placed m.layout [] p va) (hpage : m.page? p va = some page)
    (hframe : page.frame = some f) (hlink : m.link? p va = none)
    (hbytes : page.state = .anon none → bytes = mem.image p va m.layout.pageBytes) :
    (m.modifyPage p va fun q => { q with state := saved, frame := none }).Sound
      { locks := locks, stray := [f] } mem := by
  rcases hsaved with ⟨slot, s, hstate, rfl, k, hslot⟩ | ⟨x, hstate, rfl, k⟩
  · have hanon : page.state = .anon none := by
      rcases hplaced.loaded f hframe with hmem | hanon | ⟨x, hfile⟩
      · contradiction
      · exact hanon
      · rw [hstate] at hfile
        contradiction
    have kswapped := k.swapOut rfl hpage hframe hanon hlink (hslot.trans (hbytes hanon))
    exact kswapped.unpark rfl fun q wa other hother hframe' =>
      absurd List.mem_cons_self (kswapped.not_stray hother hframe')
  · have kdetached : (m.modifyPage p va fun q => { q with state := .file x, frame := none }).Sound
        { locks := locks, stray := [f], parting := [f] } mem := by
      refine k.detach hpage hframe ?_ hlink ?_
      · rw [← hstate]
      · intro hanon
        rw [hstate] at hanon
        contradiction
    exact kdetached.unpark rfl fun q wa other hother hframe' =>
      absurd List.mem_cons_self (kdetached.not_stray hother hframe')

/-- A resident page loses its frame and keeps its bytes, or it keeps both. -/
theorem ends_pageOut {owner : Owner} {page : Page} {f : Nat} {kept : List Lock}
    (k : m.Sound { locks := locks } mem)
    (hpage : m.page? owner.process owner.va = some page) (hframe : page.frame = some f)
    (hswap : Lock.swap ∉ locks) (hkept : Lock.page owner.process owner.va ∉ kept) :
    Ends (pageOut owner page) m fatal
      (fun frame next => frame = f ∧ next.ring = m.ring ∧ Undisturbed kept m next ∧
        next.Sound { locks := locks, stray := [f] } mem)
      fun _ next => Undisturbed kept m next ∧ next.Sound { locks := locks } mem := by
  have hplaced := k.placed owner.process owner.va page hpage
  have hlength := k.length_content (k.frame_lt hpage hframe)
  have hwhole : (m.pool.content f).take page.bytes = m.pool.content f := by
    rw [k.bytes_eq hpage]
    exact List.take_of_length_le (Nat.le_of_eq hlength)
  have hbytes : page.state = .anon none →
      m.pool.content f = mem.image owner.process owner.va m.layout.pageBytes := by
    intro hanon
    have hholds := (k.contents owner.process owner.va page hpage).inFrame f hanon hframe
    exact hholds.resolve_left List.not_mem_nil
  have hparted : Undisturbed kept m (m.unmapped owner.process owner.va) :=
    .modifyMmu kept m owner.process _
  have hpage' : (m.unmapped owner.process owner.va).page? owner.process owner.va = some page := by
    rw [page?_unmapped, hpage]
  have hlink : (m.unmapped owner.process owner.va).link? owner.process owner.va = none := by
    rw [link?_unmapped (lt_of_page?_eq_some hpage), setAt_self]
  unfold pageOut
  rw [hframe, hplaced.unit, hplaced.address]
  rw [ends_bind, ends_orFail_some, ends_bind, ends_unmapPage, ends_bind, ends_readFrame,
    show (m.unmapped owner.process owner.va).pool = m.pool from rfl, hwhole, ends_bind,
    ends_attempt]
  refine (ends_savePage (k.part hpage hframe) hswap hlength hplaced.extent).mono ?_ ?_
  · intro saved next hnext
    rcases hnext with ⟨hbeside, hsaved⟩
    have hsame := (hbeside.page? owner.process owner.va).trans hpage'
    have hunlinked := (hbeside.link? owner.process owner.va).trans hlink
    have hlayout : next.layout = m.layout := hbeside.layout
    have houtline : ∀ other, next.page? owner.process owner.va = some other →
        Page.outline { other with state := saved, frame := none } = other.outline := by
      intro other hother
      cases hsame.symm.trans hother
      unfold Page.outline
      rw [hsaved.copied]
    simp only [ends_bind, ends_updatePage, ends_record, ends_pure, true_and]
    have hlast := (hparted.trans (.of_beside hbeside)).trans (.modifyPage houtline hkept)
    refine ⟨hbeside.ring, { hlast with }, ?_⟩
    rw [← hlayout] at hplaced hbytes
    exact (hsaved.depart hplaced hsame hframe hunlinked hbytes).recorded _
  · intro e next hnext
    rcases hnext with ⟨hbeside, knext⟩
    have hsame := (hbeside.page? owner.process owner.va).trans hpage'
    have hunlinked := (hbeside.link? owner.process owner.va).trans hlink
    rw [ends_bind]
    refine (ends_restoreMapping kept knext hsame hframe hunlinked).mono ?_
      fun _ _ hfalse => hfalse.elim
    intro _ last hlast
    exact ⟨(hparted.trans (.of_beside hbeside)).trans hlast.1, hlast.2⟩

/-! ## The clock -/

theorem ends_evictPage {place f : Nat} {entry : RingEntry} {page : Page} {kept : List Lock}
    (k : m.Sound { locks := locks } mem)
    (hpage : m.page? entry.owner.process entry.owner.va = some page)
    (hframe : page.frame = some f) (hentry : entry.frame = f)
    (hplace : m.ring.entries[place]? = some entry) (hswap : Lock.swap ∉ locks)
    (hkept : Lock.page entry.owner.process entry.owner.va ∉ kept) :
    Ends (evictPage place entry page) m fatal
      (fun taken next => Undisturbed kept m next ∧
        match taken with
        | some g => next.Sound { locks := locks, loose := [g] } mem
        | none => next.Sound { locks := locks } mem)
      fun _ _ => False := by
  unfold evictPage
  rw [ends_bind, ends_attempt]
  refine (ends_pageOut k hpage hframe hswap hkept).mono ?_ ?_
  · intro frame next hnext
    rcases hnext with ⟨rfl, hring, hundisturbed, knext⟩
    have hplace' : next.ring.entries[place]? = some entry := by
      rw [hring]
      exact hplace
    have kremoved : Sound { next with ring := next.ring.removeAt place }
        { locks := locks, loose := [frame] } mem :=
      knext.removeAt rfl hplace' hentry fun _ hg => by contradiction
    have hagree : (frame == entry.frame) = true := by
      rw [hentry]
      exact beq_self_eq_true frame
    simp only [ends_bind, ends_ensure, hagree, if_true, ends_modifyRing, ends_report, ends_pure]
    refine ⟨{ hundisturbed with }, ?_⟩
    rw [hentry]
    exact { kremoved with }
  · intro e next hnext
    rcases hnext with ⟨hundisturbed, knext⟩
    simp only [ends_bind, ends_report, ends_pure]
    exact ⟨hundisturbed.trans (.of_beside ⟨rfl, rfl, rfl, rfl, rfl⟩), knext.recorded _⟩

theorem ends_evictUnlessAccessed {place f : Nat} {entry : RingEntry} {page : Page}
    {kept : List Lock} (k : m.Sound { locks := locks } mem)
    (hpage : m.page? entry.owner.process entry.owner.va = some page)
    (hframe : page.frame = some f) (hentry : entry.frame = f)
    (hplace : m.ring.entries[place]? = some entry) (hswap : Lock.swap ∉ locks)
    (hkept : Lock.page entry.owner.process entry.owner.va ∉ kept) :
    Ends (evictUnlessAccessed place entry page) m fatal
      (fun taken next => Undisturbed kept m next ∧
        match taken with
        | some g => next.Sound { locks := locks, loose := [g] } mem
        | none => next.Sound { locks := locks } mem)
      fun _ _ => False := by
  unfold evictUnlessAccessed
  rw [ends_bind]
  refine (ends_secondChance k).mono ?_ fun _ _ hfalse => hfalse.elim
  intro accessed next hnext
  have hlooked : Undisturbed kept m next ∧ next.Sound { locks := locks } mem ∧
      next.ring = m.ring ∧ next.page? = m.page? := by
    rcases hnext with ⟨⟨change, rfl⟩, knext⟩ | rfl
    · exact ⟨.modifyMmu kept m page.mmu change, knext, rfl, page?_modifyMmu_eq m page.mmu change⟩
    · exact ⟨.refl kept next, k, rfl, rfl⟩
  rcases hlooked with ⟨hundisturbed, knext, hring, hpages⟩
  cases accessed with
  | true => exact ⟨hundisturbed, knext⟩
  | false =>
      have hpage' : next.page? entry.owner.process entry.owner.va = some page := by
        rw [hpages]
        exact hpage
      have hplace' : next.ring.entries[place]? = some entry := by
        rw [hring]
        exact hplace
      refine (ends_evictPage knext hpage' hframe hentry hplace' hswap hkept).mono ?_
        fun _ _ hfalse => hfalse
      intro taken last hlast
      exact ⟨hundisturbed.trans hlast.1, hlast.2⟩

theorem ends_evictEntry {place : Nat} {entry : RingEntry} (k : m.Sound { locks := locks } mem)
    (hplace : m.ring.entries[place]? = some entry) (hswap : Lock.swap ∉ locks) :
    Ends (evictEntry place entry) m fatal
      (fun taken next => Undisturbed locks m next ∧
        match taken with
        | some g => next.Sound { locks := locks, loose := [g] } mem
        | none => next.Sound { locks := locks } mem)
      fun _ _ => False := by
  have hmem : entry ∈ m.ring.entries := List.mem_of_getElem? hplace
  unfold evictEntry
  split
  · exact ⟨.refl locks m, k⟩
  · rcases (k.frames.owned entry hmem).resolve_left List.not_mem_nil with
      ⟨page, hpage, hid, hframe⟩
    rw [ends_bind, ends_get, ownedPage?_eq_some_iff.mpr ⟨hpage, hid⟩, ends_withFreeLock]
    split
    · exact ⟨.of_beside ⟨rfl, rfl, rfl, rfl, rfl⟩, k.recorded _⟩
    · rename_i hunlocked
      have hkept : Lock.page entry.owner.process entry.owner.va ∉ locks := by
        rw [← show m.held = locks from k.held]
        exact hunlocked
      have hswap' : Lock.swap ∉ Lock.page entry.owner.process entry.owner.va :: locks := by
        intro hin
        rcases List.mem_cons.mp hin with heq | hrest
        · contradiction
        · exact hswap hrest
      have klocked := k.seized (.page entry.owner.process entry.owner.va)
      refine (ends_evictUnlessAccessed klocked hpage hframe rfl hplace hswap' hkept).mono ?_
        fun _ _ hfalse => hfalse
      intro taken next hnext
      refine ⟨{ hnext.1 with }, ?_⟩
      cases taken with
      | some g => exact Sound.unlocked hnext.2 rfl
      | none => exact Sound.unlocked hnext.2 rfl

theorem ends_sweep {visits : Nat} (k : m.Sound { locks := locks } mem)
    (hswap : Lock.swap ∉ locks) (hfatal : fatal .framesExhausted) :
    Ends (sweep visits) m fatal
      (fun f next => Undisturbed locks m next ∧
        next.Sound { locks := locks, loose := [f] } mem)
      fun _ _ => False := by
  induction visits generalizing m with
  | zero => exact hfatal
  | succ visits ih =>
      unfold sweep
      rw [ends_bind, ends_get]
      dsimp only
      split
      · exact hfatal
      · rename_i entry hentry
        have kadvanced : Sound { m with ring := m.ring.advance } { locks := locks } mem :=
          { k with }
        rw [ends_bind, ends_modifyRing, ends_bind]
        refine (ends_evictEntry kadvanced hentry hswap).mono ?_ fun _ _ hfalse => hfalse.elim
        intro taken next hnext
        have hundisturbed : Undisturbed locks m next := { hnext.1 with }
        cases taken with
        | some f => exact ⟨hundisturbed, hnext.2⟩
        | none =>
            refine (ih hnext.2).mono ?_ fun _ _ hfalse => hfalse
            intro f last hlast
            exact ⟨hundisturbed.trans hlast.1, hlast.2⟩

/-! ## Handing frames out and taking them back -/

theorem ends_obtainFrame (k : m.Sound { locks := locks } mem) (hswap : Lock.swap ∉ locks)
    (hfatal : m.pool.GivesNone → fatal .framesExhausted) :
    Ends obtainFrame m fatal
      (fun f next => Undisturbed locks m next ∧
        next.Sound { locks := locks, loose := [f] } mem)
      fun _ _ => False := by
  unfold obtainFrame
  rw [ends_bind]
  refine (ends_takeFromPool k).mono ?_ fun _ _ hfalse => hfalse.elim
  intro taken next hnext
  cases taken with
  | some f => exact ⟨.of_beside hnext.1, hnext.2⟩
  | none =>
      unfold evict
      rw [ends_bind, ends_get]
      refine (ends_sweep hnext.2.2 hswap (hfatal hnext.2.1)).mono ?_ fun _ _ hfalse => hfalse
      intro f last hlast
      exact ⟨Undisturbed.trans (.of_beside hnext.1) hlast.1, hlast.2⟩

theorem ends_allocateFrame {owner : Owner} (k : m.Sound { locks := locks } mem)
    (hring : Lock.ring ∉ locks) (hswap : Lock.swap ∉ locks)
    (hfatal : m.pool.GivesNone → fatal .framesExhausted) :
    Ends (allocateFrame owner) m fatal
      (fun f next => Undisturbed locks m next ∧
        next.Sound { locks := locks, stray := [f], filling := [f] } mem ∧
        ⟨f, owner, true⟩ ∈ next.ring.entries)
      fun _ _ => False := by
  have hfree : Lock.ring ∉ m.held := k.not_held hring
  have hswap' : Lock.swap ∉ Lock.ring :: locks := by
    intro hin
    rcases List.mem_cons.mp hin with heq | hrest
    · contradiction
    · exact hswap hrest
  unfold allocateFrame
  rw [ends_withLock hfree, ends_bind]
  refine (ends_obtainFrame (k.locked .ring) hswap' hfatal).mono ?_ fun _ _ hfalse => hfalse.elim
  intro f next hnext
  simp only [ends_bind, ends_modifyRing, ends_pure]
  have hundisturbed : Undisturbed locks (m.locked .ring) next :=
    hnext.1.mono fun l hl => List.mem_cons_of_mem _ hl
  exact ⟨{ hundisturbed with }, (hnext.2.push rfl owner).unlocked rfl,
    FrameRing.mem_entries_push.mpr (Or.inr rfl)⟩

theorem ends_unpinFrame {f : Nat} {done : Unit → Machine → Prop}
    {failed : PagingError → Machine → Prop} (hring : Lock.ring ∉ m.held) :
    Ends (unpinFrame f) m fatal done failed ↔
      done () (Machine.unlocked { m.locked .ring with ring := m.ring.unpin f } .ring) := by
  unfold unpinFrame
  rw [ends_withLock hring]
  rfl

theorem ends_freeFrame {h : InHand} {f : Nat} {stray : List Nat} (filling : List Nat)
    (k : m.Sound h mem) (hstray : h.stray = f :: stray)
    (hfilling : ∀ g ∈ h.filling, g = f ∨ g ∈ filling) (hring : Lock.ring ∉ h.locks) :
    Ends (freeFrame f) m fatal
      (fun _ next => Beside { m with ring := next.ring } next ∧
        next.Sound { h with stray := stray, filling := filling } mem)
      fun _ _ => False := by
  have hfree : Lock.ring ∉ m.held := k.not_held hring
  have hlisted : f ∈ m.ring.frames :=
    k.frames.strayListed f (hstray ▸ List.mem_cons_self)
  unfold freeFrame unlistFrame
  rw [ends_bind, ends_withLock hfree, ends_bind, ends_get]
  cases hplace : (m.locked .ring).ring.position? f with
  | none => exact absurd hlisted (FrameRing.position?_eq_none_iff.mp hplace)
  | some place =>
      rcases FrameRing.entry_of_position? hplace with ⟨e, he, hef⟩
      have kremoved : Sound { m.locked .ring with ring := m.ring.removeAt place }
          { h with
            locks := .ring :: h.locks, loose := f :: h.loose, stray := stray,
            filling := filling } mem :=
        (k.locked .ring).removeAt hstray he hef hfilling
      rw [ends_modifyRing]
      refine (ends_returnToPool (kremoved.unlocked rfl) rfl).mono ?_ fun _ _ hfalse => hfalse
      intro _ next hnext
      exact ⟨⟨hnext.1.layout, rfl, hnext.1.processes, hnext.1.nextId, hnext.1.loaderRuns⟩,
        hnext.2⟩

end Machine
end DemandPaging
