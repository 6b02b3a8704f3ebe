import DemandPaging.Proofs.Scene.Copies
import DemandPaging.Proofs.Scene.Natures

/-!
# First loads in scenes

A page is initialised by its first load, and by nothing else: every other deed leaves it as it is
up to its frame and its slot, or takes it away. What is counted here is how many first loads of a
page were made and, while the page is not initialised, the one that is still to come; only when a
page is registered can this number grow.
-/

namespace DemandPaging

/-! ## Pages before and after their first load -/

namespace Page

def initialised (page : Page) : Page :=
  { page.outline with state := page.state.loaded }

theorem outline_loaded (page : Page) (frame : Option Nat) :
    { page with frame := frame, state := page.state.loaded }.outline = page.initialised := by
  unfold outline initialised
  rw [PageState.copied_eq_self (PageState.slot_loaded page.state)]
  rfl

theorem outline_outline (page : Page) : page.outline.outline = page.outline := by
  unfold outline
  rw [PageState.copied_eq_self (PageState.slot_copied page.state)]

theorem initialised_outline (page : Page) : page.outline.initialised = page.initialised := by
  unfold initialised outline
  cases page.state <;> rfl

theorem initialised_initialised (page : Page) : page.initialised.initialised = page.initialised := by
  unfold initialised outline
  rw [PageState.loaded_loaded]

theorem stateClass_initialised (page : Page) : page.initialised.stateClass = page.effectiveClass := by
  unfold initialised stateClass effectiveClass
  rcases page.state with (loader | x) | slot | x <;> rfl

theorem effectiveClass_ne_uninit (page : Page) : page.effectiveClass ≠ .uninit := by
  unfold effectiveClass
  rcases page.state with (loader | x) | slot | x <;> exact PageClass.noConfusion

theorem initialised_eq_outline {page : Page} (h : page.stateClass ≠ .uninit) :
    page.initialised = page.outline := by
  have hstate : page.state.loaded = page.state.copied := by
    unfold stateClass at h
    cases hstate : page.state with
    | uninit origin =>
        rw [hstate] at h
        exact absurd rfl h
    | anon slot => rfl
    | file x => rfl
  rw [initialised, hstate]
  rfl

theorem nature_initialised (page : Page) : page.initialised.nature = page.nature := by
  rw [← outline_loaded page none, nature_outline, nature_loaded]

theorem stateClass_eq_of_outline {page other : Page} (h : page.outline = other.outline) :
    page.stateClass = other.stateClass := by
  have hcopied : page.state.copied = other.state.copied := congrArg Page.state h
  rw [stateClass, stateClass, ← PageState.ownClass_copied, hcopied, PageState.ownClass_copied]

theorem nature_eq_of_outline {page other : Page} (h : page.outline = other.outline) :
    page.nature = other.nature := by
  rw [← nature_outline page, h, nature_outline]

end Page

/-! ## What a deed does to the pages -/

def Deed.onOutlines (deed : Deed) (outlines : Nat → Vaddr → Option Page) :
    Nat → Vaddr → Option Page :=
  match deed with
  | register p page => setAt outlines p page.va (some page.outline)
  | load p page => setAt outlines p page.va (some page.initialised)
  | remove p page => setAt outlines p page.va none
  | _ => outlines

def Deed.firstLoads (deed : Deed) (o : Owner) : Nat :=
  match deed with
  | load p page => if (⟨p, page.va, page.id⟩ : Owner) = o ∧ page.stateClass = .uninit then 1 else 0
  | _ => 0

theorem Deed.load_of_firstLoads {deed : Deed} {o : Owner} (h : deed.firstLoads o ≠ 0) :
    ∃ page, deed = .load o.process page ∧ page.id = o.id ∧ page.va = o.va ∧
      page.stateClass = .uninit ∧ deed.firstLoads o = 1 := by
  cases deed with
  | load p page =>
      by_cases hfirst : (⟨p, page.va, page.id⟩ : Owner) = o ∧ page.stateClass = .uninit
      · rcases hfirst with ⟨rfl, hclass⟩
        exact ⟨page, rfl, rfl, rfl, hclass, if_pos ⟨rfl, hclass⟩⟩
      · exact absurd (if_neg hfirst) h
  | start | register | regroup | save | evict | strand | relink | remove | clone | store =>
      exact absurd rfl h

def Deed.Ageing (places : Nat → Vaddr → Prop) : Deed → Prop
  | register _ _ => False
  | load p page => places p page.va
  | _ => True

def Deed.Growing : Deed → Prop
  | remove _ _ | load _ _ => False
  | _ => True

namespace Scene

variable {v w : Scene} {p q : Nat} {va wa : Vaddr} {old new : Sight} {deed : Deed} {o : Owner}
  {places : Nat → Vaddr → Prop} {look later : Page}

def outlines (v : Scene) (p : Nat) (va : Vaddr) : Option Page :=
  (v.sight p va).page.map Page.outline

theorem outlines_see : (v.see p va new).outlines =
    setAt v.outlines p va (new.page.map Page.outline) :=
  map_setAt fun seen : Sight => seen.page.map Page.outline

theorem outlines_see_same (hold : v.sight p va = old)
    (hsame : new.page.map Page.outline = old.page.map Page.outline) :
    (v.see p va new).outlines = v.outlines := by
  rw [outlines_see, hsame, ← hold]
  exact setAt_eq_self rfl

theorem Step.outlines_eq (hstep : Step deed v w) : w.outlines = deed.onOutlines v.outlines := by
  cases hstep with
  | start | regroup | save => rfl
  | register free idle => exact outlines_see
  | load sight idle image =>
      refine outlines_see.trans ?_
      rw [Option.map_some, Page.outline_loaded]
      rfl
  | evict sight evicted saved =>
      refine outlines_see_same sight (congrArg some ?_)
      unfold Page.outline
      rw [evicted.copied_eq]
  | strand sight refused => exact outlines_see_same sight rfl
  | relink sight frame anon => exact outlines_see_same sight rfl
  | forget sight => exact outlines_see
  | remove sight saved => exact outlines_see
  | clone sight idle => exact outlines_see_same sight rfl
  | store writable =>
      funext q wa
      exact congrArg (Option.map Page.outline) (page_stored q)

theorem Step.free_of_register {page : Page} (hstep : Step (.register p page) v w) :
    v.outlines p page.va = none := by
  cases hstep with
  | register free idle =>
      unfold outlines
      rw [free]
      rfl

theorem Step.outline_of_load {page : Page} (hstep : Step (.load p page) v w) :
    v.outlines p page.va = some page.outline := by
  cases hstep with
  | load sight idle image =>
      unfold outlines
      rw [sight]
      rfl

/-! ## Counting first loads -/

def firstLoads (v : Scene) (o : Owner) : Nat :=
  v.movements.count (.filled o true)

theorem Step.firstLoads_eq (hstep : Step deed v w) :
    w.firstLoads o = v.firstLoads o + deed.firstLoads o := by
  have hother : ∀ {event : Event}, event ≠ .filled o true →
      (event :: v.movements).count (.filled o true) = v.firstLoads o :=
    fun hne => List.count_cons_of_ne hne
  cases hstep with
  | start | register | regroup | relink | forget => rfl
  | @load _ p f page bytes sight idle image =>
      unfold Deed.firstLoads
      dsimp only
      split
      · rename_i hfirst
        rw [← hfirst.1]
        show (Event.filled _ (page.stateClass == .uninit) :: v.movements).count _ = _
        rw [beq_iff_eq.mpr hfirst.2]
        exact List.count_cons_self
      · rename_i hnot
        refine hother fun hevent => hnot ?_
        rcases Event.filled.inj hevent with ⟨howner, hclass⟩
        exact ⟨howner, beq_iff_eq.mp hclass⟩
  | save | evict | strand | remove | clone | store => exact hother Event.noConfusion

def awaits (v : Scene) (o : Owner) : Bool :=
  (v.outlines o.process o.va).any fun look => look.id == o.id && look.stateClass == .uninit

theorem awaits_iff : v.awaits o = true ↔ ∃ look, v.outlines o.process o.va = some look ∧
    look.id = o.id ∧ look.stateClass = .uninit := by
  unfold awaits
  rw [Option.any_eq_true]
  refine exists_congr fun look => and_congr_right fun _ => ?_
  rw [Bool.and_eq_true, beq_iff_eq, beq_iff_eq]

/-- How many first loads of a page were made or are still to come. -/
def loadsDue (v : Scene) (o : Owner) : Nat :=
  v.firstLoads o + (v.awaits o).toNat

theorem firstLoads_le_loadsDue : v.firstLoads o ≤ v.loadsDue o :=
  Nat.le_add_right _ _

theorem loadsDue_of_not_awaits (h : v.awaits o = false) : v.loadsDue o = v.firstLoads o := by
  rw [loadsDue, h]
  rfl

theorem loadsDue_of_awaits (h : v.awaits o = true) : v.loadsDue o = v.firstLoads o + 1 := by
  rw [loadsDue, h]
  rfl

theorem loadsDue_le (hloads : w.firstLoads o = v.firstLoads o)
    (hawaits : w.awaits o = true → v.awaits o = true) : w.loadsDue o ≤ v.loadsDue o := by
  cases hlater : w.awaits o with
  | false =>
      rw [loadsDue_of_not_awaits hlater, hloads]
      exact firstLoads_le_loadsDue
  | true => rw [loadsDue_of_awaits hlater, loadsDue_of_awaits (hawaits hlater), hloads]

/-! ## Deeds that add no page -/

/-- What is there was there before, and if it was initialised, it was so at one of the places. -/
theorem Step.descends (hstep : Step deed v w) (hage : deed.Ageing places)
    (hlater : w.outlines q wa = some later) :
    ∃ look, v.outlines q wa = some look ∧
      (later = look ∨ places q wa ∧ later = look.initialised) := by
  rw [hstep.outlines_eq] at hlater
  cases deed with
  | register p page => exact hage.elim
  | load p page =>
      by_cases hat : q = p ∧ wa = page.va
      · rcases hat with ⟨rfl, rfl⟩
        have hloaded : page.initialised = later := by
          rw [Deed.onOutlines, setAt_self] at hlater
          exact Option.some.inj hlater
        refine ⟨page.outline, hstep.outline_of_load, Or.inr ⟨hage, ?_⟩⟩
        rw [page.initialised_outline, hloaded]
      · rw [Deed.onOutlines, setAt_of_ne hat] at hlater
        exact ⟨later, hlater, Or.inl rfl⟩
  | remove p page =>
      by_cases hat : q = p ∧ wa = page.va
      · rcases hat with ⟨rfl, rfl⟩
        rw [Deed.onOutlines, setAt_self] at hlater
        contradiction
      · rw [Deed.onOutlines, setAt_of_ne hat] at hlater
        exact ⟨later, hlater, Or.inl rfl⟩
  | start | regroup | save | evict | strand | relink | clone | store =>
      exact ⟨later, hlater, Or.inl rfl⟩

theorem Step.awaits_of_awaits (hstep : Step deed v w) (hage : deed.Ageing places)
    (hawaits : w.awaits o = true) : v.awaits o = true := by
  rcases awaits_iff.mp hawaits with ⟨later, hlater, hid, hclass⟩
  rcases hstep.descends hage hlater with ⟨look, hlook, rfl | ⟨-, rfl⟩⟩
  · exact awaits_iff.mpr ⟨later, hlook, hid, hclass⟩
  · rw [look.stateClass_initialised] at hclass
    exact absurd hclass look.effectiveClass_ne_uninit

theorem Step.loadsDue_le (hstep : Step deed v w) (hage : deed.Ageing places) :
    w.loadsDue o ≤ v.loadsDue o := by
  have hloads := hstep.firstLoads_eq (o := o)
  by_cases hnone : deed.firstLoads o = 0
  · rw [hnone] at hloads
    exact Scene.loadsDue_le hloads (hstep.awaits_of_awaits hage)
  · rcases deed.load_of_firstLoads hnone with ⟨page, rfl, hid, hva, hclass, hone⟩
    have hbefore : v.awaits o = true := by
      refine awaits_iff.mpr ⟨page.outline, ?_, hid, ?_⟩
      · rw [← hva]
        exact hstep.outline_of_load
      · rw [← hclass]
        exact Page.stateClass_eq_of_outline page.outline_outline
    have hafter : w.awaits o = false := by
      apply Bool.eq_false_iff.mpr
      intro hawaits
      rcases awaits_iff.mp hawaits with ⟨look, hlook, -, huninit⟩
      rw [hstep.outlines_eq, Deed.onOutlines, ← hva, setAt_self] at hlook
      cases hlook
      rw [page.stateClass_initialised] at huninit
      exact page.effectiveClass_ne_uninit huninit
    rw [loadsDue_of_not_awaits hafter, loadsDue_of_awaits hbefore, hloads, hone]

namespace Steps

theorem descends (h : Steps (Deed.Ageing places) v w) (hlater : w.outlines q wa = some later) :
    ∃ look, v.outlines q wa = some look ∧
      (later = look ∨ places q wa ∧ later = look.initialised) := by
  refine h.keeps (P := fun w => ∀ later, w.outlines q wa = some later →
    ∃ look, v.outlines q wa = some look ∧
      (later = look ∨ places q wa ∧ later = look.initialised)) ?_
    (fun later hlater => ⟨later, hlater, Or.inl rfl⟩) later hlater
  intro deed u w hage hstep hu later hlater
  rcases hstep.descends hage hlater with ⟨middle, hmiddle, rfl | ⟨hplace, rfl⟩⟩
  · exact hu later hmiddle
  · rcases hu middle hmiddle with ⟨look, hlook, rfl | ⟨-, rfl⟩⟩
    · exact ⟨middle, hlook, Or.inr ⟨hplace, rfl⟩⟩
    · exact ⟨look, hlook, Or.inr ⟨hplace, look.initialised_initialised⟩⟩

theorem loadsDue_le (h : Steps (Deed.Ageing places) v w) (o : Owner) :
    w.loadsDue o ≤ v.loadsDue o := by
  refine h.keeps (P := fun w => w.loadsDue o ≤ v.loadsDue o) ?_ (Nat.le_refl _)
  intro deed u w hage hstep hu
  exact Nat.le_trans (hstep.loadsDue_le hage) hu

/-! ## Deeds that take no page away -/

theorem survives (h : Steps Deed.Growing v w) (hlook : v.outlines q wa = some look) :
    w.outlines q wa = some look := by
  refine h.keeps (P := fun w => w.outlines q wa = some look) ?_ hlook
  intro deed u w hgrow hstep hu
  rw [hstep.outlines_eq]
  cases deed with
  | register p page =>
      refine (setAt_of_ne ?_).trans hu
      rintro ⟨rfl, rfl⟩
      rw [hstep.free_of_register] at hu
      contradiction
  | load | remove => exact hgrow.elim
  | start | regroup | save | evict | strand | relink | clone | store => exact hu

theorem firstLoads_eq (h : Steps Deed.Growing v w) (o : Owner) :
    w.firstLoads o = v.firstLoads o := by
  refine h.keeps (P := fun w => w.firstLoads o = v.firstLoads o) ?_ rfl
  intro deed u w hgrow hstep hu
  rw [hstep.firstLoads_eq, hu]
  cases deed with
  | load | remove => exact hgrow.elim
  | start | register | regroup | save | evict | strand | relink | clone | store => rfl

end Steps
end Scene
end DemandPaging
