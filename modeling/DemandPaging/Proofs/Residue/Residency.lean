import DemandPaging.Proofs.Machine.Residency
import DemandPaging.Proofs.Residue.Eviction

/-!
# Residency with two pools

A page that is claimed gets the content that its description gives, so its frame has nothing to
hide any more. A page that cannot be claimed gives its frame back, hidden bytes and all.
-/

namespace DemandPaging
namespace Machine

open Routine FramePool

variable {m : Machine} {q : FramePool} {mem : FlatMemory} {locks : List Lock} {p f : Nat}
  {page : Page}

/-! ## Claiming -/

theorem Filled.unique {content content' : Bytes} {state : PageState} {files : List BackingFile}
    {runs : Nat → Nat} {old : Bytes} (h : Filled content state files runs old)
    (h' : Filled content' state files runs old) : content' = content := by
  cases state with
  | uninit origin => exact (h'.first origin rfl).trans (h.first origin rfl).symm
  | anon slot => exact (h'.again slot rfl).trans (h.again slot rfl).symm
  | file x => exact (h'.file x rfl).trans (h.file x rfl).symm

theorem conceals_mapAndLoad (k : m.Sound { locks := locks, filling := [f] } mem)
    (hpage : m.page? p page.va = some { page with frame := some f })
    (hlink : m.link? p page.va = none) (hswap : Lock.swap ∉ locks)
    (hblank : page.state = .anon none →
      mem.image p page.va m.layout.pageBytes = Bytes.filled m.layout.pageBytes 0)
    (h : Twin [f] m.pool q) : Conceals (mapAndLoad p page f) m q [] [f] := by
  have halike : Conceals (mapAndLoad p page f) m q [f] [f] := by
    refine ((blind_mapPage _ _ _ _).conceals h).bind fun accepted _ _ h => ?_
    refine ((Blind.require accepted _).conceals h).bind fun _ _ _ h => ?_
    exact conceals_loadPage p page List.mem_cons_self h
  have k' : (m.withPool q).Sound { locks := locks, filling := [f] } mem :=
    k.withTwin h (List.Subset.refl [f])
  have hboth := (Agree.and_ends halike (ends_mapAndLoad k hpage hlink hswap hblank)).and_ends_other
    (ends_mapAndLoad k' hpage hlink hswap hblank)
  refine hboth.mono ?_ fun _ _ _ hfailed => hfailed.1.1
  rintro _ next q' ⟨⟨htwin, _, _, _, _, hfilled⟩, _, _, _, _, hfilled'⟩
  exact htwin.reveal (hfilled.unique hfilled')

theorem conceals_undoClaim (h : Twin [f] m.pool q) : Conceals (undoClaim p page f) m q [] [] := by
  have hunmapped : Ends (unmapPage p page.va) m Anyhow (fun _ _ => True) fun _ _ => False := trivial
  refine .after (blind_unmapPage _ _) hunmapped h fun _ unmapped h _ => ?_
  have hdetached : Ends (detachFrame p page) unmapped Anyhow (fun _ _ => True)
      fun _ _ => False := trivial
  exact .after (blind_detachFrame _ _) hdetached h fun _ _ h _ => conceals_freeFrame h

theorem conceals_makeResident (k : m.Sound { locks := locks } mem)
    (hpage : m.page? p page.va = some page) (hnone : page.frame = none)
    (hlock : Lock.page p page.va ∈ locks) (hring : Lock.ring ∉ locks)
    (hswap : Lock.swap ∉ locks) (h : Twin [] m.pool q) :
    Conceals (makeResident p page) m q [] [] := by
  refine (agree_allocateFrame k hswap h).bind_ends
    (ends_allocateFrame k hring hswap fun _ => trivial) ?_
  intro f given q' htwin hgiven
  rcases hgiven with ⟨hundisturbed, kgiven, hentry⟩
  have hpage' : given.page? p page.va = some page :=
    (hundisturbed.locked p page.va hlock).trans hpage
  have halike : m.AlikeBut (At p page.va) given := hundisturbed.alike
  have hblank := halike.layout.symm ▸ k.image_blank hpage hnone
  refine Conceals.after (blind_attachFrame _ _ _) (ends_attachFrame kgiven hpage' hnone hentry)
    htwin ?_
  intro _ attached htwin hnext
  rcases hnext with ⟨hattached, _, kattached, hpages, hunlinked⟩
  have hloaded : Agree (attempt (mapAndLoad p page f)) (attempt (mapAndLoad p page f)) attached q'
      (fun result next q' => match result with
        | .ok _ => Twin [] next.pool q'
        | .error _ => Twin [f] next.pool q') fun _ next q' => Twin [] next.pool q' :=
    .attempt (conceals_mapAndLoad kattached hpages hunlinked hswap
      (hattached.layout.symm ▸ hblank) htwin)
  refine hloaded.bind fun result next q' htwin => ?_
  cases result with
  | ok done =>
      exact ((blind_unpinFrame f).conceals htwin).bind fun _ _ _ h => (Blind.report _).conceals h
  | error e =>
      exact (conceals_undoClaim htwin).bind fun _ _ _ h => (Blind.refuse _ _).conceals h

theorem conceals_claim {va : Vaddr} (k : m.Sound { locks := locks } mem)
    (hring : Lock.ring ∉ locks) (hswap : Lock.swap ∉ locks) (h : Twin [] m.pool q) :
    Conceals (claim p va) m q [] [] := by
  have klocked := k.locked (.page p va)
  refine Conceals.withLock (Agree.get (.orFail_bind (fun page hpage => ?_) fun _ => h))
  refine .when (fun hidle => ?_) fun _ => h
  have haddress := (k.placed p va page hpage).address
  subst haddress
  refine conceals_makeResident klocked hpage ?_ List.mem_cons_self ?_ ?_ h
  · simpa [Page.isResident] using hidle
  · simpa using hring
  · simpa using hswap

theorem conceals_claimPage {va : Vaddr} (k : m.Sound {} mem) (h : Twin [] m.pool q) :
    Conceals (claimPage p va) m q [] [] := by
  exact Agree.get (.orFail_bind (fun _ _ => conceals_claim k List.not_mem_nil List.not_mem_nil h)
    fun _ => h)

/-! ## Releasing -/

theorem ignores_saveChanges {x : FileExtent} (hsame : q.content f = m.pool.content f) :
    Ignores (saveChanges p page x f) m q := by
  refine (ignores_readFrame hsame).bind fun bytes read _ => ?_
  refine Blind.bind (.attempt (blind_writeBack _ _ _)) (fun result => ?_) read q
  cases result with
  | ok done => exact .pure ()
  | error e => exact .report _

theorem ignores_releaseBacking {dirty : Bool} (hsame : m.SameContent q page) :
    Ignores (releaseBacking p page dirty) m q := by
  unfold releaseBacking
  split
  · exact blind_releaseSlot _ m q
  · rename_i x f _ hframe
    exact Agree.when (fun _ => ignores_saveChanges (hsame f hframe)) fun _ => ⟨rfl, rfl⟩
  · exact Blind.pure () m q

/-- The content that a released page leaves is recorded, so it has to be the same. -/
theorem spares_releasePage (h : Twin [] m.pool q) (hsame : m.SameContent q page) :
    Spares (releasePage p page) m q := by
  refine Spares.withLock ?_
  have hunmapped := (blind_unmapResident p page (m.locked (.page p page.va)) q).spares h
  refine hunmapped.bind fun dirty unmapped q' h hfirst hsecond => ?_
  have hsame := hsame.congr hfirst hsecond
  refine ((ignores_releaseBacking hsame).spares h).bind fun _ saved q'' h hfirst hsecond => ?_
  have hsame := hsame.congr hfirst hsecond
  cases hframe : page.frame with
  | none => exact (Blind.pure () saved q'').spares h
  | some f =>
      have hread : Ignores (readFrame f page.bytes) saved q'' := ignores_readFrame (hsame f hframe)
      refine (hread.spares h).bind fun bytes read _ h _ _ => ?_
      refine ((Blind.record _ read _).spares h).bind fun _ _ _ h _ _ => ?_
      exact spares_freeFrame (h.hide [f])

theorem spares_releasePages {l : List Page} (h : Twin [] m.pool q)
    (hsame : ∀ page ∈ l, m.SameContent q page) : Spares (releasePages p l) m q := by
  induction l generalizing m q with
  | nil => exact (Blind.pure () m q).spares h
  | cons page rest ih =>
      refine (spares_releasePage h (hsame page List.mem_cons_self)).bind
        fun _ next q' h hfirst hsecond => ih h fun other hother => ?_
      exact (hsame other (List.mem_cons_of_mem page hother)).congr hfirst hsecond

end Machine
end DemandPaging
