import DemandPaging.Proofs.Machine.Eviction
import DemandPaging.Proofs.Residue.Content

/-!
# Eviction with two pools

A frame that a page holds is neither free nor being filled, so an eviction saves the same bytes
with either pool. Only the frame that is handed out in the end has bytes to hide.
-/

namespace DemandPaging
namespace Machine

open Routine FramePool

variable {m : Machine} {q : FramePool} {mem : FlatMemory} {locks : List Lock} {f : Nat}

/-! ## Taking the frame of a page -/

def SameContent (m : Machine) (q : FramePool) (page : Page) : Prop :=
  ∀ f, page.frame = some f → q.content f = m.pool.content f

theorem SameContent.congr {n : Machine} {q' : FramePool} {page : Page}
    (h : m.SameContent q page) (hfirst : n.pool.frames = m.pool.frames)
    (hsecond : q'.frames = q.frames) : n.SameContent q' page := by
  intro f hframe
  rw [FramePool.content, FramePool.content, hfirst, hsecond]
  exact h f hframe

theorem Sound.sameContent {hand : InHand} {p : Nat} {va : Vaddr} {page : Page}
    (k : m.Sound hand mem) (h : Twin [] m.pool q) (hpage : m.page? p va = some page) :
    m.SameContent q page :=
  fun f hframe => h.contents f (k.not_free hpage hframe) List.not_mem_nil

theorem ignores_readFrame {length : Nat} (hsame : q.content f = m.pool.content f) :
    Ignores (readFrame f length) m q := by
  have hread : (q.content f).take length = (m.pool.content f).take length := by
    rw [hsame]
  exact ⟨q, congrArg (EStateM.Result.ok · _) hread, rfl, rfl⟩

theorem ignores_pageOut {owner : Owner} {page : Page}
    (hsame : m.SameContent q page) : Ignores (pageOut owner page) m q := by
  unfold pageOut
  refine Agree.orFail_bind (fun f hframe => ?_) fun _ => ⟨rfl, rfl⟩
  refine (blind_unmapPage _ _ m q).bind fun dirty unmapped hunmapped => ?_
  have hread : Ignores (readFrame f page.bytes) unmapped q :=
    ignores_readFrame (hunmapped ▸ hsame f hframe)
  refine hread.bind fun bytes read _ => ?_
  refine (blind_savePage owner page.state bytes dirty read q).attempt.bind fun result saved _ => ?_
  cases result with
  | ok state =>
      refine Blind.bind (blind_updatePage _ _ _) (fun _ => ?_) saved q
      exact .bind (.record _) fun _ => .pure f
  | error e =>
      exact Blind.bind (blind_restoreMapping owner page f dirty) (fun _ => .throw _) saved q

/-! ## The clock -/

theorem ignores_evictPage {place : Nat} {entry : RingEntry} {page : Page}
    (hsame : m.SameContent q page) : Ignores (evictPage place entry page) m q := by
  unfold evictPage
  refine (ignores_pageOut hsame).attempt.bind fun result parted _ => ?_
  cases result with
  | ok frame =>
      have hblind : Blind (do
          ensure (frame == entry.frame) .disagreement
          modifyRing fun ring => (ring.removeAt place).countEviction
          report (.evicted page.va entry.frame)
          pure (some frame)) :=
        .bind (.ensure _ _) fun _ => .bind (blind_modifyRing _) fun _ =>
          .bind (.report _) fun _ => .pure _
      exact hblind parted q
  | error e => exact Blind.bind (.report _) (fun _ => .pure _) parted q

theorem ignores_evictUnlessAccessed {place : Nat} {entry : RingEntry} {page : Page}
    (hsame : m.SameContent q page) : Ignores (evictUnlessAccessed place entry page) m q := by
  unfold evictUnlessAccessed
  refine (blind_secondChance page m q).bind fun accessed visited hpool => ?_
  cases accessed with
  | true => exact Blind.pure none visited q
  | false =>
      exact ignores_evictPage (hsame.congr (congrArg FramePool.frames hpool) rfl)

theorem ignores_evictEntry {place : Nat} {entry : RingEntry} (k : m.Sound { locks := locks } mem)
    (h : Twin [] m.pool q) : Ignores (evictEntry place entry) m q := by
  unfold evictEntry
  split
  · exact Blind.pure none m q
  · refine Agree.get ?_
    rw [show (m.withPool q).ownedPage? entry.owner = m.ownedPage? entry.owner from rfl]
    cases howned : m.ownedPage? entry.owner with
    | none => exact Blind.bind (blind_modifyRing _) (fun _ => .pure _) m q
    | some page =>
        have hpage := (ownedPage?_eq_some_iff.mp howned).1
        refine .withFreeLock ?_ fun _ => ⟨rfl, rfl⟩
        exact ignores_evictUnlessAccessed (k.sameContent h hpage)

theorem agree_modifyRing {α : Type} {change : FrameRing → FrameRing} {k k' : PUnit → Routine α}
    {done : α → Machine → FramePool → Prop} {failed : PagingError → Machine → FramePool → Prop}
    (h : Agree (k ⟨⟩) (k' ⟨⟩) { m with ring := change m.ring } q done failed) :
    Agree (modifyRing change >>= k) (modifyRing change >>= k') m q done failed :=
  h

/-- The sweep goes the same way with either pool and leaves both alone. -/
theorem conceals_sweep {visits : Nat} (k : m.Sound { locks := locks } mem)
    (hswap : Lock.swap ∉ locks) (h : Twin [] m.pool q) :
    Conceals (sweep visits) m q [] [] := by
  induction visits generalizing m q with
  | zero => exact Agree.abort _
  | succ visits ih =>
      unfold sweep
      refine Agree.get ?_
      dsimp only [withPool]
      split
      · exact Agree.abort _
      · rename_i entry hentry
        have kadvanced : Sound { m with ring := m.ring.advance } { locks := locks } mem :=
          { k with }
        have hvisited : Conceals (evictEntry m.ring.candidate entry)
            { m with ring := m.ring.advance } q [] [] :=
          (ignores_evictEntry kadvanced h).conceals h
        refine agree_modifyRing (Conceals.bind_ends hvisited
          (ends_evictEntry kadvanced hentry hswap) fun taken next q' htwin hnext => ?_)
        cases taken with
        | some f => exact Agree.pure htwin
        | none => exact ih hnext.2 htwin

/-! ## Handing frames out -/

theorem agree_obtainFrame (k : m.Sound { locks := locks } mem) (hswap : Lock.swap ∉ locks)
    (h : Twin [] m.pool q) :
    Agree obtainFrame obtainFrame m q (fun f next q' => Twin [f] next.pool q')
      fun _ next q' => Twin [] next.pool q' := by
  refine (agree_takeFromPool h).bind_ends (ends_takeFromPool k) fun taken next q' htwin hnext => ?_
  cases taken with
  | some f => exact .pure htwin
  | none =>
      refine Agree.get ?_
      exact Agree.mono (conceals_sweep hnext.2.2 hswap htwin)
        (fun f _ _ htwin => htwin.hide [f]) fun _ _ _ htwin => htwin

theorem agree_allocateFrame {owner : Owner} (k : m.Sound { locks := locks } mem)
    (hswap : Lock.swap ∉ locks) (h : Twin [] m.pool q) :
    Agree (allocateFrame owner) (allocateFrame owner) m q
      (fun f next q' => Twin [f] next.pool q') fun _ next q' => Twin [] next.pool q' := by
  have hswap' : Lock.swap ∉ Lock.ring :: locks := by
    simpa using hswap
  refine .withLock (.bind (agree_obtainFrame (k.locked .ring) hswap' h) fun f next q' htwin => ?_)
  exact agree_modifyRing (.pure htwin)

end Machine
end DemandPaging
