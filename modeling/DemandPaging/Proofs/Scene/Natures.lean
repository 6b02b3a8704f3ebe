import DemandPaging.Proofs.Machine.Likeness
import DemandPaging.Proofs.Scene.Fault

/-!
# Natures of pages

The nature of a page is what never changes about it: whatever happens to its content, its frame and
its backing, it stays where it is, as writable as it is, and a page of the stack or of a file
mapping if it is one. A deed changes the natures only where it adds a page or takes one away.
-/

namespace DemandPaging

structure Nature where
  va : Vaddr
  writable : Bool
  isStack : Bool
  mapping : Option Vaddr
  type : PageClass

namespace Page

def nature (page : Page) : Nature :=
  ⟨page.va, page.writable, page.isStack, page.mapping, page.effectiveClass⟩

theorem nature_outline (page : Page) : page.outline.nature = page.nature := by
  unfold nature outline effectiveClass
  cases page.state <;> rfl

theorem nature_loaded (page : Page) (frame : Option Nat) :
    { page with frame := frame, state := page.state.loaded }.nature = page.nature := by
  unfold nature effectiveClass
  cases page.state with
  | uninit origin => cases origin <;> rfl
  | anon slot => rfl
  | file x => rfl

end Page

theorem PageState.Evicted.effectiveClass_eq {state state' : PageState}
    (h : state.Evicted state') : state'.effectiveClass = state.effectiveClass := by
  cases h <;> rfl

def Deed.onNatures (deed : Deed) (natures : Nat → Vaddr → Option Nature) :
    Nat → Vaddr → Option Nature :=
  match deed with
  | register p page => setAt natures p page.va (some page.nature)
  | remove p page => setAt natures p page.va none
  | _ => natures

namespace Scene

variable {v w : Scene} {p q : Nat} {va wa : Vaddr} {old new : Sight} {deed : Deed}
  {allowed : Deed → Prop}

def natures (v : Scene) (p : Nat) (va : Vaddr) : Option Nature :=
  (v.sight p va).page.map Page.nature

theorem natures_see : (v.see p va new).natures =
    setAt v.natures p va (new.page.map Page.nature) :=
  map_setAt fun seen : Sight => seen.page.map Page.nature

theorem natures_see_same (hold : v.sight p va = old)
    (hsame : new.page.map Page.nature = old.page.map Page.nature) :
    (v.see p va new).natures = v.natures := by
  rw [natures_see, hsame, ← hold]
  exact setAt_eq_self rfl

theorem Step.natures_eq (hstep : Step deed v w) : w.natures = deed.onNatures v.natures := by
  cases hstep with
  | start | regroup | save => rfl
  | register free idle => exact natures_see
  | load sight idle image =>
      exact natures_see_same sight (congrArg some (Page.nature_loaded _ _))
  | evict sight evicted saved =>
      refine natures_see_same sight (congrArg some ?_)
      unfold Page.nature Page.effectiveClass
      rw [evicted.effectiveClass_eq]
  | strand sight refused => exact natures_see_same sight rfl
  | relink sight frame anon => exact natures_see_same sight rfl
  | forget sight => exact natures_see
  | remove sight saved => exact natures_see
  | clone sight idle => exact natures_see_same sight rfl
  | store writable =>
      funext q wa
      exact congrArg (Option.map Page.nature) (page_stored q)

namespace Steps

theorem natures_eq_at (h : Steps allowed v w) (hkept : ∀ deed natures, allowed deed →
    deed.onNatures natures q wa = natures q wa) : w.natures q wa = v.natures q wa := by
  refine h.keeps (P := fun w => w.natures q wa = v.natures q wa) ?_ rfl
  intro deed u w hdeed hstep hu
  rw [hstep.natures_eq, hkept deed u.natures hdeed]
  exact hu

end Steps
end Scene

/-! ## Faults -/

theorem Deed.Claiming.onNatures_eq {deed : Deed} {p : Nat} {va : Vaddr} (h : deed.Claiming p va)
    (natures : Nat → Vaddr → Option Nature) : deed.onNatures natures = natures := by
  rcases h with hevicting | ⟨page, -, rfl⟩
  · cases deed with
    | save | evict | strand | relink => rfl
    | start | register | regroup | load | remove | clone | store => exact hevicting.elim
  · rfl

theorem Deed.Faulting.onNatures_eq {deed : Deed} {p q : Nat} {va wa : Vaddr}
    (h : deed.Faulting p va) (hne : ¬(q = p ∧ wa = va)) (natures : Nat → Vaddr → Option Nature) :
    deed.onNatures natures q wa = natures q wa := by
  rcases h with hclaiming | ⟨page, rfl, -, rfl | rfl | rfl⟩
  · rw [hclaiming.onNatures_eq]
  · exact setAt_of_ne hne
  · rfl
  · exact setAt_of_ne hne

end DemandPaging
