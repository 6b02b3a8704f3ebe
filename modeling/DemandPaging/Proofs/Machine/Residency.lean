import DemandPaging.Proofs.Machine.Eviction

/-!
# Residency on a sound machine

Claiming a page gives it a frame, a mapping and its content, or leaves it as it was. Releasing a
page that is registered no longer puts everything that it had back in its place.
-/

namespace DemandPaging
namespace Machine

open Routine

variable {m : Machine} {mem : FlatMemory} {fatal : Abort → Prop} {locks : List Lock} {p f : Nat}
  {page : Page}

/-! ## Claiming -/

theorem ends_undoClaim (k : m.Sound { locks := locks, filling := [f] } mem)
    (hpage : m.page? p page.va = some { page with frame := some f }) (hnone : page.frame = none)
    (hblank : page.state = .anon none →
      mem.image p page.va m.layout.pageBytes = Bytes.filled m.layout.pageBytes 0)
    (hring : Lock.ring ∉ locks) :
    Ends (undoClaim p page f) m fatal
      (fun _ next => m.AlikeBut (At p page.va) next ∧ next.page? p page.va = some page ∧
        next.Sound { locks := locks } mem)
      fun _ _ => False := by
  have hp := lt_of_page?_eq_some hpage
  have kunmapped : (m.unmapped p page.va).Sound { locks := locks, filling := [f] } mem := by
    refine k.unlink hp ?_ fun x hx _ => hx
    intro other g hother hg
    rw [hpage] at hother
    cases hother
    cases hg
    exact Or.inl List.mem_cons_self
  have hpage' : (m.unmapped p page.va).page? p page.va = some { page with frame := some f } := by
    rw [page?_unmapped, hpage]
  have hlink : (m.unmapped p page.va).link? p page.va = none := by
    rw [link?_unmapped hp, setAt_self]
  have hsame : ({ page with frame := none } : Page) = page := by
    rw [← hnone]
  unfold undoClaim detachFrame
  simp only [ends_bind, ends_unmapPage, ends_updatePage]
  have kdetached : ((m.unmapped p page.va).modifyPage p page.va fun q =>
      { q with frame := none }).Sound { locks := locks, filling := [f], stray := [f] } mem :=
    kunmapped.detach hpage' rfl rfl hlink hblank
  refine (ends_freeFrame [] kdetached rfl ?_ hring).mono ?_ fun _ _ hfalse => hfalse
  · intro g hg
    exact Or.inl (List.mem_singleton.mp hg)
  · intro _ next hnext
    have hfreed : ((m.unmapped p page.va).modifyPage p page.va fun q =>
        { q with frame := none }).AlikeBut (At p page.va) next :=
      { AlikeBut.of_beside hnext.1 with }
    refine ⟨((AlikeBut.modifyMmu m p _).trans (.modifyPage _ p page.va _)).trans hfreed, ?_,
      hnext.2⟩
    refine (hnext.1.page? p page.va).trans ?_
    refine (page?_modifyPage_self hpage').trans ?_
    exact congrArg some hsame

theorem ends_mapAndLoad (k : m.Sound { locks := locks, filling := [f] } mem)
    (hpage : m.page? p page.va = some { page with frame := some f })
    (hlink : m.link? p page.va = none) (hswap : Lock.swap ∉ locks)
    (hblank : page.state = .anon none →
      mem.image p page.va m.layout.pageBytes = Bytes.filled m.layout.pageBytes 0) :
    Ends (mapAndLoad p page f) m fatal
      (fun _ next => m.AlikeBut (At p page.va) next ∧
        next.Sound { locks := locks, filling := [f] } mem ∧
        next.page? p page.va = some { page with frame := some f, state := page.state.loaded } ∧
        next.link? p page.va = some (f, page.writable) ∧
        Filled (next.pool.content f) page.state next.files m.loaderRuns
          (mem.image p page.va m.layout.pageBytes))
      fun _ next => m.AlikeBut (At p page.va) next ∧
        next.Sound { locks := locks, filling := [f] } mem ∧
        next.page? p page.va = some { page with frame := some f } := by
  unfold mapAndLoad
  rw [ends_bind]
  refine (ends_mapPage k hpage rfl hlink).mono ?_ fun _ _ hfalse => hfalse.elim
  intro accepted mapped hmapped
  rcases hmapped with ⟨kmapped, ⟨unit, rfl⟩, hlinked⟩
  have hpage' : (m.modifyMmu p fun _ => unit).page? p page.va =
      some { page with frame := some f } := by
    rw [page?_modifyMmu, hpage]
  cases accepted with
  | false => exact ⟨.modifyMmu m p _, kmapped, hpage'⟩
  | true =>
      rw [ends_bind, ends_require, if_pos rfl]
      refine (ends_loadPage kmapped hpage' List.mem_cons_self hswap hblank).mono ?_ ?_
      · intro _ next hnext
        rcases hnext with ⟨hlayout, knext, hpages, hlinks, hfilled⟩
        refine ⟨(AlikeBut.modifyMmu m p _).trans (.of_setAt hlayout hpages), knext, ?_, ?_,
          hfilled⟩
        · rw [hpages, setAt_self]
        · rw [hlinks]
          exact hlinked
      · intro e next hnext
        rcases hnext with ⟨⟨runs, hbeside⟩, knext⟩
        have hloaded : (m.modifyMmu p fun _ => unit).AlikeBut (At p page.va) next :=
          { AlikeBut.of_beside hbeside with }
        exact ⟨(AlikeBut.modifyMmu m p _).trans hloaded, knext,
          (hbeside.page? p page.va).trans hpage'⟩

/-- The frame of a loaded page is complete. A first load decides what the process finds. -/
theorem Sound.complete {h : InHand} {va : Vaddr} {state : PageState}
    {files : List BackingFile} {runs : Nat → Nat} {filling : List Nat} (k : m.Sound h mem)
    (hpage : m.page? p va = some page) (hframe : page.frame = some f)
    (hstate : page.state = state.loaded) (hfilling : f ∈ h.filling)
    (hfilled : Filled (m.pool.content f) state files runs (mem.image p va m.layout.pageBytes))
    (hlinked : (m.link? p va).isSome = true)
    (hrest : ∀ g ∈ h.filling, g = f ∨ g ∈ filling) :
    Sound { m with ring := m.ring.unpin f } { h with filling := filling }
      (mem.load p va state files runs m.layout.pageBytes) := by
  have haligned := (k.placed p va page hpage).aligned
  have hloaded : page.state = .anon none ∨ ∃ x, page.state = .file x := by
    rw [hstate]
    exact state.loaded_cases
  cases state with
  | uninit origin =>
      have hcontent := hfilled.first origin rfl
      rw [FlatMemory.length_image] at hcontent
      have hlength := origin.length_image files runs m.layout.pageBytes
      have hslot : page.slot = none := by
        rw [Page.slot, hstate]
        exact PageState.slot_loaded (.uninit origin)
      have kpromised : m.Sound h (mem.store p va (origin.image files runs m.layout.pageBytes)) :=
        k.promiseFilling hpage hframe hfilling hslot hlength
      refine kpromised.unpin hpage hframe hloaded ?_ (Or.inl hlinked) hrest
      intro _
      rw [hcontent, k.image_store haligned hlength]
  | anon slot =>
      exact k.unpin hpage hframe hloaded (fun _ => hfilled.again slot rfl) (Or.inl hlinked) hrest
  | file x =>
      refine k.unpin hpage hframe hloaded ?_ (Or.inl hlinked) hrest
      intro hanon
      rw [hstate] at hanon
      cases hanon

theorem ends_attachFrame_idle {done : Unit → Machine → Prop}
    {failed : PagingError → Machine → Prop} (hpage : m.page? p page.va = some page)
    (hnone : page.frame = none) :
    Ends (attachFrame p page f) m fatal done failed ↔
      done () (m.modifyPage p page.va fun q => { q with frame := some f }) := by
  have hidle : (!(m.page? p page.va).any Page.isResident) = true := by
    rw [hpage, Option.any_some, Page.isResident, hnone]
    rfl
  unfold attachFrame
  rw [ends_bind, ends_get, ends_bind, ends_ensure, if_pos hidle, ends_updatePage]

theorem ends_attachFrame (k : m.Sound { locks := locks, stray := [f], filling := [f] } mem)
    (hpage : m.page? p page.va = some page) (hnone : page.frame = none)
    (hentry : ⟨f, ownerOf p page, true⟩ ∈ m.ring.entries) :
    Ends (attachFrame p page f) m fatal
      (fun _ next => m.AlikeBut (At p page.va) next ∧ next.loaderRuns = m.loaderRuns ∧
        next.Sound { locks := locks, filling := [f] } mem ∧
        next.page? p page.va = some { page with frame := some f } ∧
        next.link? p page.va = none)
      fun _ _ => False := by
  have hlink : m.link? p page.va = none := by
    refine k.link?_eq_none ?_ List.not_mem_nil
    rw [hpage, Option.bind_some, hnone]
  rw [ends_attachFrame_idle hpage hnone]
  refine ⟨.modifyPage m p page.va _, rfl, ?_, page?_modifyPage_self hpage, ?_⟩
  · exact k.attach rfl hpage hnone List.mem_cons_self hentry rfl rfl
  · rw [modifyPage, link?_modifyPages]
    exact hlink

theorem Sound.opened {files : List BackingFile} {runs : Nat → Nat}
    (k : m.Sound { locks := locks, filling := [f] } mem)
    (hpage : m.page? p page.va = some { page with frame := some f, state := page.state.loaded })
    (hlinked : m.link? p page.va = some (f, page.writable))
    (hfilled : Filled (m.pool.content f) page.state files runs
      (mem.image p page.va m.layout.pageBytes)) :
    (Machine.unlocked { m.locked .ring with ring := m.ring.unpin f } .ring).Sound
      { locks := locks } (mem.load p page.va page.state files runs m.layout.pageBytes) := by
  have hmapped : (m.link? p page.va).isSome = true := by
    rw [hlinked]
    rfl
  have kcomplete : Sound { m.locked .ring with ring := m.ring.unpin f }
      { locks := .ring :: locks }
      (mem.load p page.va page.state files runs m.layout.pageBytes) :=
    (k.locked .ring).complete hpage rfl rfl List.mem_cons_self hfilled hmapped
      fun g hg => Or.inl (List.mem_singleton.mp hg)
  exact kcomplete.unlocked rfl

theorem ends_settleClaim (k : m.Sound { locks := locks, stray := [f], filling := [f] } mem)
    (hpage : m.page? p page.va = some page) (hnone : page.frame = none)
    (hentry : ⟨f, ownerOf p page, true⟩ ∈ m.ring.entries)
    (hblank : page.state = .anon none →
      mem.image p page.va m.layout.pageBytes = Bytes.filled m.layout.pageBytes 0)
    (hring : Lock.ring ∉ locks) (hswap : Lock.swap ∉ locks) :
    Ends (do
        attachFrame p page f
        match ← attempt (mapAndLoad p page f) with
        | .ok () =>
            unpinFrame f
            report (.claimed page.va f)
        | .error e =>
            undoClaim p page f
            refuse (.claimFailed page.va e) e) m fatal
      (fun _ next => m.AlikeBut (At p page.va) next ∧
        next.Sound { locks := locks }
          (mem.load p page.va page.state next.files m.loaderRuns m.layout.pageBytes) ∧
        next.page? p page.va = some { page with frame := some f, state := page.state.loaded } ∧
        next.link? p page.va = some (f, page.writable) ∧
        Filled (next.pool.content f) page.state next.files m.loaderRuns
          (mem.image p page.va m.layout.pageBytes))
      fun _ next => m.AlikeBut (At p page.va) next ∧ next.page? p page.va = some page ∧
        next.Sound { locks := locks } mem := by
  rw [ends_bind]
  refine (ends_attachFrame k hpage hnone hentry).mono ?_ fun _ _ hfalse => hfalse.elim
  intro _ attached hattached
  rcases hattached with ⟨hattached, hruns, kattached, hpages, hunlinked⟩
  simp only [ends_bind, ends_attempt]
  refine (ends_mapAndLoad kattached hpages hunlinked hswap (hattached.layout.symm ▸ hblank)).mono
    ?_ ?_
  · intro _ next hnext
    rcases hnext with ⟨hloaded, knext, hpages, hlinked, hfilled⟩
    have hlast := hattached.trans hloaded
    have hfree : Lock.ring ∉ next.held := knext.not_held hring
    rw [hruns, ← hloaded.layout, hlast.layout] at hfilled
    have kopened := knext.opened hpages hlinked (hlast.layout.symm ▸ hfilled)
    simp only [ends_unpinFrame hfree, ends_report]
    refine ⟨{ hlast with }, ?_, hpages, hlinked, hfilled⟩
    rw [← hlast.layout]
    exact kopened.recorded _
  · intro e next hnext
    rcases hnext with ⟨hfailed, knext, hpages⟩
    have hnextAlike := hattached.trans hfailed
    refine (ends_undoClaim knext hpages hnone (hnextAlike.layout.symm ▸ hblank) hring).mono ?_
      fun _ _ hfalse => hfalse.elim
    intro _ last hlast
    have hlastAlike := hnextAlike.trans hlast.1
    exact ⟨{ hlastAlike with }, hlast.2.1, hlast.2.2.recorded _⟩

theorem Sound.image_blank (k : m.Sound { locks := locks } mem)
    (hpage : m.page? p page.va = some page) (hnone : page.frame = none)
    (hanon : page.state = .anon none) :
    mem.image p page.va m.layout.pageBytes = Bytes.filled m.layout.pageBytes 0 := by
  have hzero := (k.contents p page.va page hpage).blank hanon hnone
  rw [FlatMemory.length_image] at hzero
  exact hzero

/-- A page gets a frame, its mapping and its content, or it stays as it is. -/
theorem ends_makeResident (k : m.Sound { locks := locks } mem)
    (hpage : m.page? p page.va = some page) (hnone : page.frame = none)
    (hlock : Lock.page p page.va ∈ locks) (hring : Lock.ring ∉ locks)
    (hswap : Lock.swap ∉ locks) (hfatal : m.pool.GivesNone → fatal .framesExhausted) :
    Ends (makeResident p page) m fatal
      (fun _ next => m.AlikeBut (At p page.va) next ∧
        next.Sound { locks := locks }
          (mem.load p page.va page.state next.files m.loaderRuns m.layout.pageBytes) ∧
        ∃ f, next.page? p page.va =
            some { page with frame := some f, state := page.state.loaded } ∧
          next.link? p page.va = some (f, page.writable) ∧
          Filled (next.pool.content f) page.state next.files m.loaderRuns
            (mem.image p page.va m.layout.pageBytes))
      fun _ next => m.AlikeBut (At p page.va) next ∧ next.page? p page.va = some page ∧
        next.Sound { locks := locks } mem := by
  unfold makeResident
  rw [ends_bind]
  refine (ends_allocateFrame k hring hswap hfatal).mono ?_ fun _ _ hfalse => hfalse.elim
  intro f given hgiven
  rcases hgiven with ⟨hundisturbed, kgiven, hentry⟩
  have hpage' : given.page? p page.va = some page :=
    (hundisturbed.locked p page.va hlock).trans hpage
  have halike : m.AlikeBut (At p page.va) given := hundisturbed.alike
  refine (ends_settleClaim kgiven hpage' hnone hentry
    (halike.layout.symm ▸ k.image_blank hpage hnone) hring hswap).mono ?_ ?_
  · intro _ next hnext
    rcases hnext with ⟨hclaimed, knext, hpages, hlinked, hfilled⟩
    rw [hundisturbed.loaderRuns] at knext hfilled
    rw [halike.layout] at knext hfilled
    exact ⟨halike.trans hclaimed, knext, f, hpages, hlinked, hfilled⟩
  · intro _ next hnext
    rcases hnext with ⟨hfailed, hpages, knext⟩
    exact ⟨halike.trans hfailed, hpages, knext⟩

theorem Sound.loaded_of_frame {va : Vaddr} (k : m.Sound { locks := locks } mem)
    (hpage : m.page? p va = some page) (hframe : page.frame = some f) :
    page.state.loaded = page.state ∧ page.state.origin? = none := by
  rcases (k.placed p va page hpage).loaded f hframe with hmem | hanon | ⟨x, hfile⟩
  · exact absurd hmem List.not_mem_nil
  · rw [hanon]
    exact ⟨rfl, rfl⟩
  · rw [hfile]
    exact ⟨rfl, rfl⟩

theorem ends_claim {va : Vaddr} (k : m.Sound { locks := locks } mem)
    (hlock : Lock.page p va ∉ locks) (hring : Lock.ring ∉ locks) (hswap : Lock.swap ∉ locks)
    (hfatal : m.pool.GivesNone → fatal .framesExhausted) :
    Ends (claim p va) m fatal
      (fun _ next => m.AlikeBut (At p va) next ∧ ∃ page f, m.page? p va = some page ∧
        next.page? p va = some { page with frame := some f, state := page.state.loaded } ∧
        next.Sound { locks := locks }
          (mem.load p va page.state next.files m.loaderRuns m.layout.pageBytes) ∧
        (page.frame = some f ∧ next.link? p va = m.link? p va ∨
          page.frame = none ∧ next.link? p va = some (f, page.writable) ∧
            Filled (next.pool.content f) page.state next.files m.loaderRuns
              (mem.image p va m.layout.pageBytes)))
      fun _ next => m.AlikeBut Nowhere next ∧ next.page? p va = m.page? p va ∧
        next.Sound { locks := locks } mem ∧ (m.page? p va).bind Page.frame = none := by
  have hfree : Lock.page p va ∉ m.held := k.not_held hlock
  have klocked := k.locked (.page p va)
  unfold claim
  rw [ends_withLock hfree, ends_bind, ends_get, ends_bind]
  cases hpage : (m.locked (.page p va)).page? p va with
  | none =>
      refine ⟨.of_page?_eq rfl rfl, rfl, klocked.unlocked rfl, ?_⟩
      rw [show m.page? p va = none from hpage]
      rfl
  | some page =>
      have haddress := (k.placed p va page hpage).address
      rw [ends_orFail_some, ends_when]
      cases hframe : page.frame with
      | some f =>
          rw [if_neg (by rw [Page.isResident, hframe]; exact Bool.false_ne_true)]
          rcases k.loaded_of_frame hpage hframe with ⟨hloaded, horigin⟩
          refine ⟨.of_page?_eq rfl rfl, page, f, hpage, ?_, ?_, Or.inl ⟨hframe, rfl⟩⟩
          · rw [hloaded, ← hframe]
            exact hpage
          · rw [FlatMemory.load, horigin]
            exact klocked.unlocked rfl
      | none =>
          rw [if_pos (by rw [Page.isResident, hframe]; rfl)]
          have hring' : Lock.ring ∉ Lock.page p va :: locks := by
            simpa using hring
          have hswap' : Lock.swap ∉ Lock.page p va :: locks := by
            simpa using hswap
          subst haddress
          refine (ends_makeResident klocked hpage hframe List.mem_cons_self hring' hswap'
            hfatal).mono ?_ ?_
          · intro _ next hnext
            rcases hnext with ⟨halike, knext, f, hpages, hlinked⟩
            exact ⟨{ halike with }, page, f, hpage, hpages, knext.unlocked rfl,
              Or.inr ⟨hframe, hlinked⟩⟩
          · intro _ next hnext
            have hsame : next.page? p page.va = m.page? p page.va :=
              hnext.2.1.trans hpage.symm
            have halike : m.AlikeBut (At p page.va) next := { hnext.1 with }
            have hnowhere := halike.unchanged (congrArg (Option.map Page.outline) hsame)
            refine ⟨{ hnowhere with }, hsame, hnext.2.2.unlocked rfl, ?_⟩
            rw [show m.page? p page.va = some page from hpage]
            exact hframe

/-! ## Releasing -/

theorem ends_saveChanges {h : InHand} {x : FileExtent} (k : m.Sound h mem)
    (hf : f < m.pool.frames.length) (hbytes : page.bytes = m.layout.pageBytes)
    (hextent : x.readBytes.toNat ≤ m.layout.pageBytes) :
    Ends (saveChanges p page x f) m fatal
      (fun _ next => m.Beside next ∧ next.Sound h mem) fun _ _ => False := by
  unfold saveChanges
  simp only [ends_bind, ends_readFrame, ends_attempt]
  refine (ends_writeBack k ?_).mono ?_ ?_
  · rw [List.length_take, k.length_content hf, hbytes, Nat.min_self]
    exact hextent
  · intro _ next hnext
    exact hnext
  · intro e next hnext
    exact ⟨hnext.1.trans ⟨rfl, rfl, rfl, rfl, rfl⟩, hnext.2.recorded _⟩

theorem ends_releaseBacking {h : InHand} {dirty : Bool} (slots : List Nat) (k : m.Sound h mem)
    (hslots : h.slots = page.slot.toList ++ slots) (hswap : Lock.swap ∉ h.locks)
    (hframes : ∀ f, page.frame = some f → f < m.pool.frames.length)
    (hbytes : page.bytes = m.layout.pageBytes)
    (hextent : ∀ x, page.state = .file x → x.readBytes.toNat ≤ m.layout.pageBytes) :
    Ends (releaseBacking p page dirty) m fatal
      (fun _ next => m.Beside next ∧ next.Sound { h with slots := slots } mem)
      fun _ _ => False := by
  have hkept : page.slot = none → m.Sound { h with slots := slots } mem := by
    intro hnone
    rw [hnone] at hslots
    exact { k with slots := (show h.slots = slots from hslots) ▸ k.slots }
  unfold releaseBacking
  split
  · rename_i slot _ hstate
    refine (ends_returnSlot k ?_ hswap)
    rw [hslots, Page.slot, hstate]
    rfl
  · rename_i x f hstate hframe
    have hnone : page.slot = none := by
      rw [Page.slot, hstate]
      rfl
    rw [ends_when]
    split
    · exact ends_saveChanges (hkept hnone) (hframes f hframe) hbytes (hextent x hstate)
    · exact ⟨Beside.refl m, hkept hnone⟩
  · rename_i hanon hfile
    refine ⟨Beside.refl m, hkept ?_⟩
    cases hstate : page.state with
    | uninit origin =>
        rw [Page.slot, hstate]
        rfl
    | anon slot =>
        cases slot with
        | none =>
            rw [Page.slot, hstate]
            rfl
        | some s => exact absurd hstate (hanon s · )
    | file x =>
        rw [Page.slot, hstate]
        rfl

theorem ends_unmapResident {h : InHand} (k : m.Sound (h.taking p page) mem)
    (hp : p < m.processes.length) (hgone : m.page? p page.va = none) :
    Ends (unmapResident p page) m fatal
      (fun _ next => (next = m ∨ ∃ change, next = m.modifyMmu p change) ∧
        next.Sound { h.taking p page with unlinked := h.unlinked } mem)
      fun _ _ => False := by
  unfold unmapResident
  split
  · rename_i hresident
    rw [ends_unmapPage]
    refine ⟨Or.inr ⟨_, rfl⟩, k.unlink hp ?_ ?_⟩
    · intro other g hother _
      rw [hgone] at hother
      contradiction
    · intro x hx hne
      have hunlinked : (h.taking p page).unlinked = (p, page.va) :: h.unlinked := if_pos hresident
      rw [hunlinked] at hx
      exact (List.mem_cons.mp hx).resolve_left hne
  · rename_i hidle
    have hunlinked : (h.taking p page).unlinked = h.unlinked := if_neg hidle
    exact ⟨Or.inl rfl, { k with links := hunlinked ▸ k.links }⟩

theorem ends_releasePage {h : InHand} (k : m.Sound (h.taking p page) mem)
    (hp : p < m.processes.length) (hgone : m.page? p page.va = none)
    (hplaced : page.Placed m.layout h.filling p page.va)
    (hlock : Lock.page p page.va ∉ h.locks) (hring : Lock.ring ∉ h.locks)
    (hswap : Lock.swap ∉ h.locks) :
    Ends (releasePage p page) m fatal
      (fun _ next => Undisturbed h.locks m next ∧ next.page? = m.page? ∧ next.Sound h mem)
      fun _ _ => False := by
  have hfree : Lock.page p page.va ∉ m.held := k.not_held hlock
  have hring' : Lock.ring ∉ Lock.page p page.va :: h.locks := by
    simpa using hring
  have hswap' : Lock.swap ∉ Lock.page p page.va :: h.locks := by
    simpa using hswap
  have hbytes : page.bytes = m.layout.pageBytes := congrArg UInt64.toNat hplaced.size
  have hframes : ∀ f, page.frame = some f → f < m.pool.frames.length := by
    intro f hframe
    refine k.frames.lt_capacity (k.frames.strayListed f ?_)
    show f ∈ page.frame.toList ++ h.stray
    rw [hframe]
    exact List.mem_cons_self
  have klocked : (m.locked (.page p page.va)).Sound
      ({ h with locks := .page p page.va :: h.locks }.taking p page) mem :=
    k.locked (.page p page.va)
  unfold releasePage
  rw [ends_withLock hfree, ends_bind]
  refine (ends_unmapResident klocked hp hgone).mono ?_ fun _ _ hfalse => hfalse
  intro dirty unmapped hunmapped
  rcases hunmapped with ⟨hcases, kunmapped⟩
  have hunmapped : Undisturbed h.locks m unmapped ∧ unmapped.page? = m.page? ∧
      unmapped.pool = m.pool := by
    rcases hcases with rfl | ⟨change, rfl⟩
    · exact ⟨{ Undisturbed.refl h.locks m with }, rfl, rfl⟩
    · exact ⟨{ Undisturbed.modifyMmu h.locks m p change with }, page?_modifyMmu_eq m p change,
        rfl⟩
  rw [ends_bind]
  refine (ends_releaseBacking h.slots kunmapped rfl hswap' ?_ ?_ ?_).mono ?_
    fun _ _ hfalse => hfalse
  · rw [hunmapped.2.2]
    exact hframes
  · rw [hunmapped.1.layout]
    exact hbytes
  · rw [hunmapped.1.layout]
    exact hplaced.extent
  · intro _ saved hsaved
    rcases hsaved with ⟨hbeside, ksaved⟩
    have hsaved : Undisturbed h.locks m saved := hunmapped.1.trans (.of_beside hbeside)
    have hpages : saved.page? = m.page? := by
      rw [← hunmapped.2.1]
      funext q wa
      exact hbeside.page? q wa
    cases hframe : page.frame with
    | none =>
        have hstray : page.frame.toList ++ h.stray = h.stray := by
          rw [hframe]
          rfl
        have kreleased : saved.Sound { h with locks := .page p page.va :: h.locks } mem :=
          { ksaved with frames := hstray ▸ ksaved.frames }
        exact ⟨{ hsaved with }, hpages, kreleased.unlocked rfl⟩
    | some f =>
        have hstray : page.frame.toList ++ h.stray = f :: h.stray := by
          rw [hframe]
          rfl
        rw [ends_bind, ends_readFrame, ends_bind, ends_record]
        refine (ends_freeFrame h.filling (ksaved.recorded _) hstray (fun _ hg => Or.inr hg)
          hring').mono ?_ fun _ _ hfalse => hfalse
        intro _ next hnext
        have hnext' : Undisturbed h.locks saved next := { Undisturbed.of_beside hnext.1 with }
        refine ⟨{ hsaved.trans hnext' with }, ?_, hnext.2.unlocked rfl⟩
        rw [← hpages]
        funext q wa
        exact hnext.1.page? q wa

end Machine
end DemandPaging
