import DemandPaging.Proofs.Machine.Retry
import DemandPaging.Proofs.Machine.Serving
import DemandPaging.Proofs.Scene.Fault

/-!
# Runs of custom loaders

A custom loader runs when the page that it is to fill is claimed, and then it runs once. No other
operation runs a loader, and no claim runs the loader of another page.
-/

namespace DemandPaging
namespace Machine

open Routine

variable {l m n : Machine} {mem : FlatMemory} {p : Nat} {va : Vaddr} {page : Page}
  {op : Operation} {loader? : Option CustomLoader}

/-! ## Machines before and after a run -/

def SameRuns (m n : Machine) : Prop :=
  n.loaderRuns = m.loaderRuns

theorem sameRuns_ignores : IgnoresServing SameRuns where
  refl := fun _ => rfl
  trans := fun _ _ _ h h' => Eq.trans h' h
  locked := fun _ _ => rfl
  seized := fun _ _ => rfl
  unlocked := fun _ _ => rfl
  contended := fun _ _ => rfl
  reported := fun _ _ => rfl
  setSwap := fun _ _ _ => rfl
  recorded := fun _ _ => rfl
  modifyPage := fun _ _ _ _ _ => rfl
  modifyMmu := fun _ _ _ _ => rfl
  writeFile := fun _ _ _ _ => rfl
  modifyRing := fun _ _ => rfl
  takeFrame := fun _ => rfl
  setPool := fun _ _ => rfl
  readSlot := fun _ _ _ => rfl
  withPage := fun _ _ _ => rfl
  modifyMappings := fun _ _ _ => rfl
  readFile := fun _ _ _ _ => rfl
  setMmu := fun _ _ _ => rfl
  erasePage := fun _ _ _ => rfl
  clearPages := fun _ _ => rfl
  shut := fun _ _ => rfl
  finish := fun _ _ => rfl
  withProcess := fun _ _ => rfl

/-- No custom loader was run but the given one, if there is one, and that at most once. -/
def RunsOnly (m : Machine) (loader? : Option CustomLoader) (n : Machine) : Prop :=
  n.loaderRuns = m.loaderRuns ∨
    ∃ loader, loader? = some loader ∧ n.loaderRuns = (m.countRun loader.counter).loaderRuns

namespace RunsOnly

theorem of_same (h : SameRuns m n) : m.RunsOnly loader? n :=
  Or.inl h

theorem after_same (h : SameRuns l m) (h' : m.RunsOnly loader? n) : l.RunsOnly loader? n := by
  unfold SameRuns at h
  unfold RunsOnly countRun at h' ⊢
  rw [h] at h'
  exact h'

theorem before_same (h : l.RunsOnly loader? m) (h' : SameRuns m n) : l.RunsOnly loader? n := by
  unfold SameRuns at h'
  unfold RunsOnly at h ⊢
  rw [h']
  exact h

theorem same_of_none (h : m.RunsOnly none n) : SameRuns m n :=
  h.resolve_right nofun

end RunsOnly

/-! ## Claims -/

theorem runs_loadState (state : PageState) (frame length : Nat) :
    Ends (loadState state frame length) m Anyhow
      (fun _ next => m.RunsOnly state.customLoader? next)
      fun _ next => m.RunsOnly state.customLoader? next := by
  cases hloader : state.customLoader? with
  | none =>
      have hcount : ∀ loader, state.customLoader? = some loader →
          ∀ m, SameRuns m (m.countRun loader.counter) := by
        intro loader hsome
        rw [hloader] at hsome
        contradiction
      exact (kept_loadState sameRuns_ignores hcount frame length m).mono (fun _ _ => .of_same)
        fun _ _ => .of_same
  | some loader =>
      rw [PageState.eq_uninit_of_customLoader? hloader]
      unfold loadState loadOrigin runCustom
      simp only [ends_bind, ends_writeFrame, ends_readFrame, ends_get, ends_modify]
      split
      · exact Or.inr ⟨loader, rfl, rfl⟩
      · exact Or.inr ⟨loader, rfl, rfl⟩

theorem runs_makeResident (p : Nat) (page : Page) :
    Ends (makeResident p page) m Anyhow
      (fun _ next => m.RunsOnly page.state.customLoader? next)
      fun _ next => m.RunsOnly page.state.customLoader? next := by
  have hcopying := sameRuns_ignores.toIgnoresCopying
  unfold makeResident
  rw [ends_bind]
  refine (kept_allocateFrame hcopying.toIgnoresEviction _ m).mono ?_ fun _ _ => .of_same
  intro f given hgiven
  rw [ends_bind]
  refine (kept_attachFrame hcopying.toIgnoresParting p page f given).mono ?_ ?_
  · intro _ attached hattached
    have hstart : SameRuns m attached := hattached.trans hgiven
    have hloaded : Ends (mapAndLoad p page f) attached Anyhow
        (fun _ next => m.RunsOnly page.state.customLoader? next)
        fun _ next => m.RunsOnly page.state.customLoader? next := by
      unfold mapAndLoad
      rw [ends_bind]
      refine (kept_mapPage hcopying.toIgnoresParting _ _ _ _ attached).mono ?_ ?_
      · intro accepted mapped hmapped
        have hstart' : SameRuns m mapped := hmapped.trans hstart
        rw [ends_bind, ends_require]
        split
        · unfold loadPage
          rw [ends_bind]
          exact (runs_loadState page.state f page.bytes).mono
            (fun _ _ hnext => hnext.after_same hstart') fun _ _ hnext => hnext.after_same hstart'
        · exact .of_same hstart'
      · exact fun _ _ hnext => .of_same (hnext.trans hstart)
    rw [ends_bind, ends_attempt]
    refine hloaded.mono ?_ ?_
    · intro _ loaded hruns
      dsimp only
      rw [ends_bind]
      exact (kept_unpinFrame hcopying.toIgnoresEviction f loaded).mono
        (fun _ _ hnext => hruns.before_same hnext) fun _ _ hnext => hruns.before_same hnext
    · intro e loaded hruns
      dsimp only
      rw [ends_bind]
      exact (kept_undoClaim hcopying p page f loaded).mono
        (fun _ _ hnext => hruns.before_same hnext) fun _ _ hnext => hruns.before_same hnext
  · exact fun _ _ hnext => .of_same (hnext.trans hgiven)

def loaderAt? (m : Machine) (p : Nat) (va : Vaddr) : Option CustomLoader :=
  (m.page? p va).bind fun page => page.state.customLoader?

theorem runs_claim (p : Nat) (va : Vaddr) :
    Ends (claim p va) m Anyhow (fun _ next => m.RunsOnly (m.loaderAt? p va) next)
      fun _ next => m.RunsOnly (m.loaderAt? p va) next := by
  unfold claim
  apply ends_withLock_of
  rw [ends_bind, ends_get, ends_bind]
  cases hpage : (m.locked (.page p va)).page? p va with
  | none => exact .of_same rfl
  | some page =>
      have hloader : m.loaderAt? p va = page.state.customLoader? := by
        rw [loaderAt?, show m.page? p va = some page from hpage]
        rfl
      rw [ends_orFail_some, ends_when, hloader]
      split
      · exact runs_makeResident p page
      · exact .of_same rfl

/-! ## Operations -/

theorem runs_growStack (k : m.Sound {} mem) :
    Ends (growStack p (m.pageBase va)) m Anyhow (fun _ next => SameRuns m next)
      fun _ next => SameRuns m next := by
  unfold growStack
  rw [ends_bind, ends_get, ends_bind]
  rw [stackPage_of_aligned (isAligned_pageBase m va), ends_ofStop_ok, ends_bind]
  refine ((steps_registerStack (p := p) ⟨0, m.pageBase va, true, true, none, none, p,
    m.layout.pageSize, .uninit (.anon none)⟩ k ⟨rfl, rfl, rfl⟩ rfl rfl rfl).and
      (kept_register sameRuns_ignores.toIgnoresCopying p _ m)).mono ?_ fun _ _ hnext => hnext.2
  intro stack registered hend
  rcases hend with ⟨⟨-, hnew, -, -, hpage, -⟩, hregistered⟩
  have hloader : registered.loaderAt? p (m.pageBase va) = none := by
    rw [loaderAt?, hpage, Option.bind_some, hnew.2.2]
    rfl
  have hclaim := runs_claim (m := registered) p (m.pageBase va)
  rw [hloader] at hclaim
  rw [ends_bind, ends_attempt]
  refine hclaim.mono ?_ ?_
  · exact fun _ _ hnext => hnext.same_of_none.trans hregistered
  · intro e next hnext
    have hsame : SameRuns m next := hnext.same_of_none.trans hregistered
    rw [ends_bind, ends_attempt]
    exact (kept_removePage sameRuns_ignores p _ next).mono (fun _ _ hlast => hlast.trans hsame)
      fun _ _ hlast => hlast.trans hsame

theorem runs_resolveFault {f : Fault} (k : m.Sound {} mem) :
    Ends (resolveFault p f) m Anyhow
      (fun _ next => m.RunsOnly (m.loaderAt? p (m.pageBase f.va)) next)
      fun _ next => m.RunsOnly (m.loaderAt? p (m.pageBase f.va)) next := by
  unfold resolveFault
  rw [ends_bind, ends_get]
  split
  · exact .of_same rfl
  split
  · exact .of_same rfl
  cases hpage : m.lookup p f.va with
  | none =>
      dsimp only
      split
      · exact (runs_growStack k).mono (fun _ _ => .of_same) fun _ _ => .of_same
      · exact .of_same rfl
  | some page =>
      rw [← (k.placed p _ page hpage).address]
      unfold resolveAtPage
      rw [ends_bind]
      refine (ends_forbidsWrite k).mono ?_ fun _ _ hfalse => hfalse.elim
      intro forbidden looked hend
      have hlooked : SameRuns m looked ∧
          looked.loaderAt? p page.va = m.loaderAt? p page.va := by
        rcases hend.2 with rfl | rfl
        · exact ⟨rfl, rfl⟩
        · exact ⟨rfl, rfl⟩
      cases forbidden with
      | true => exact .of_same hlooked.1
      | false =>
          rw [← hlooked.2]
          exact (runs_claim p page.va).mono (fun _ _ hnext => hnext.after_same hlooked.1)
            fun _ _ hnext => hnext.after_same hlooked.1

/-- A claim or a fault runs the loader of the page that it is about, if any, and at most once. -/
theorem runs_perform_claim (k : m.Sound {} mem) (hclaims : op.claims? = some (p, va)) :
    Ends op.perform m Anyhow
      (fun _ next => m.RunsOnly (m.loaderAt? p (m.pageBase va)) next)
      fun _ next => m.RunsOnly (m.loaderAt? p (m.pageBase va)) next := by
  cases op with
  | claim q wa =>
      cases hclaims
      unfold Operation.perform claimPage
      rw [ends_bind, ends_bind, ends_get, ends_bind]
      cases hpage : m.lookup p va with
      | none => exact .of_same rfl
      | some page =>
          rw [ends_orFail_some, ← (k.placed p _ page hpage).address]
          exact runs_claim p page.va
  | fault q f =>
      cases hclaims
      unfold Operation.perform
      rw [ends_bind]
      exact runs_resolveFault k
  | _ => contradiction

theorem sameRuns_perform (hclaims : op.claims? = none) : Keeps SameRuns op.perform := by
  apply kept_perform_of sameRuns_ignores
  · rintro p va rfl
    contradiction
  · rintro p f rfl
    contradiction

end Machine
end DemandPaging
