import DemandPaging.Proofs.Machine.Fault
import DemandPaging.Proofs.Scene.Registration

/-!
# Faults in scenes

A fault that is resolved at a registered page is a claim. When the stack grows, a page appears and
is claimed, and if the claim fails the page goes again.
-/

namespace DemandPaging

def Page.NewStack (page : Page) : Prop :=
  page.isStack = true ∧ page.mapping = none ∧ page.state = .uninit (.anon none)

def Deed.Faulting (p : Nat) (va : Vaddr) (deed : Deed) : Prop :=
  deed.Claiming p va ∨
    ∃ page, page.va = va ∧ page.NewStack ∧ (deed = .register p page ∨ deed.Releasing p page)

namespace Machine

open Routine

variable {m : Machine} {mem : FlatMemory} {p : Nat} {va : Vaddr}

theorem steps_removeUngrouped {page : Page} (k : m.Sound {} mem)
    (hpage : m.page? p (m.pageBase va) = some page) (hmapping : page.mapping = none) :
    Ends (removePage p va) m Anyhow
      (fun _ next => Scene.Steps (Deed.Releasing p page) m.scene next.scene)
      fun _ next => Scene.Steps (Deed.Releasing p page) m.scene next.scene := by
  refine (steps_removePage k).mono ?_ ?_
  · intro _ next hnext
    rcases hnext with ⟨other, hother, hscene⟩
    cases hpage.symm.trans hother
    have hgroups : (m.scene.grouped p
        ((m.process p).mappings.leaving page.mapping page.va)) = m.scene := by
      rw [hmapping]
      exact Scene.grouped_self rfl
    rw [hscene, hgroups, (k.placed p _ page hpage).address]
    exact k.steps_released hpage
  · intro _ next hnext
    rw [hnext.2]
    exact .refl _

theorem steps_registerStack (stack : Page) (k : m.Sound {} mem) (hnew : stack.NewStack)
    (hframe : stack.frame = none) (hunit : stack.mmu = p)
    (hsize : stack.pageSize = m.layout.pageSize) :
    Ends (register p stack) m Anyhow
      (fun given next => given.va = stack.va ∧ given.NewStack ∧ next.Sound {} mem ∧
        next.layout = m.layout ∧ next.page? p stack.va = some given ∧
        Scene.Step (.register p given) m.scene next.scene)
      fun _ next => next = m := by
  have hslot : stack.slot = none := by
    rw [Page.slot, hnew.2.2]
    rfl
  have hfile : ∀ x, stack.state = .file x → x.readBytes.toNat ≤ m.layout.pageBytes := by
    intro x hx
    rw [hnew.2.2] at hx
    contradiction
  have hblank : stack.state = .anon none →
      mem.image p stack.va m.layout.pageBytes = Bytes.filled m.layout.pageBytes 0 := by
    intro hx
    rw [hnew.2.2] at hx
    contradiction
  refine ((ends_register (fun _ => k) hframe hslot hunit hsize hfile hblank).and
    (steps_register (fun _ => k) hframe List.not_mem_nil)).mono ?_ fun _ _ heq => heq.1
  intro given next hend
  rcases hend with ⟨⟨rfl, hnext, hp, -, knext⟩, -, hvacant, hscene⟩
  have hpage : next.page? p stack.va = some { stack with id := m.nextId } := by
    rw [hnext, page?_withPage_eq hp, setAt_self]
  refine ⟨rfl, hnew, knext, ?_, hpage, ?_⟩
  · rw [hnext]
    rfl
  · rw [hscene]
    exact .register hvacant hframe

theorem steps_growStack (k : m.Sound {} mem) :
    Ends (growStack p (m.pageBase va)) m Anyhow
      (fun _ next => Scene.Steps (Deed.Faulting p (m.pageBase va)) m.scene next.scene)
      fun _ next => Scene.Steps (Deed.Faulting p (m.pageBase va)) m.scene next.scene := by
  unfold growStack
  rw [ends_bind, ends_get, ends_bind]
  rw [stackPage_of_aligned (isAligned_pageBase m va), ends_ofStop_ok, ends_bind]
  have hregister := steps_registerStack (p := p) ⟨0, m.pageBase va, true, true, none, none, p,
    m.layout.pageSize, .uninit (.anon none)⟩ k ⟨rfl, rfl, rfl⟩ rfl rfl rfl
  refine hregister.mono ?_ ?_
  · intro stack registered hend
    rcases hend with ⟨hva, hnew, kregistered, hlayout, hpage, hstep⟩
    have hadded : Scene.Steps (Deed.Faulting p (m.pageBase va)) m.scene registered.scene :=
      .single (.register p stack) (Or.inr ⟨stack, hva, hnew, Or.inl rfl⟩) hstep
    rw [ends_bind, ends_attempt]
    refine ((ends_claim kregistered List.not_mem_nil List.not_mem_nil List.not_mem_nil
      fun _ => trivial).and (steps_claim kregistered List.not_mem_nil List.not_mem_nil
        List.not_mem_nil)).mono ?_ ?_
    · intro _ next hnext
      rw [ends_report, scene_recorded rfl]
      exact hadded.trans (hnext.2.mono fun _ => Or.inl)
    · intro e next hnext
      rcases hnext with ⟨⟨halike, hkept, knext, -⟩, hclaimed⟩
      have hremoved : ∀ {last : Machine}, Scene.Steps (Deed.Releasing p stack) next.scene
          last.scene → Scene.Steps (Deed.Faulting p (m.pageBase va)) m.scene last.scene := by
        intro last hlast
        exact (hadded.trans (hclaimed.mono fun _ hdeed => Or.inl (Or.inl hdeed))).trans
          (hlast.mono fun _ hdeed => Or.inr ⟨stack, hva, hnew, Or.inr hdeed⟩)
      have hbase := pageBase_pageBase_of_layout (halike.layout.trans hlayout) va
      rw [ends_bind, ends_attempt]
      refine (steps_removeUngrouped knext ?_ hnew.2.1).mono ?_ ?_
      · rw [hbase, hkept, hpage]
      · exact fun _ _ => hremoved
      · exact fun _ _ => hremoved
  · intro _ _ heq
    rw [heq]
    exact .refl _

theorem steps_resolveAtPage {page : Page} {f : Fault} (k : m.Sound {} mem) :
    Ends (resolveAtPage p page f) m Anyhow
      (fun _ next => Scene.Steps (Deed.Claiming p page.va) m.scene next.scene)
      fun _ next => Scene.Steps (Deed.Evicting []) m.scene next.scene := by
  have hclaimed : ∀ {looked : Machine},
      looked = m ∨ looked = (m.locked (.page p page.va)).unlocked (.page p page.va) →
      looked.scene = m.scene ∧ looked.Sound {} mem := by
    intro looked hlooked
    rcases hlooked with rfl | rfl
    · exact ⟨rfl, k⟩
    · rw [scene_unlocked, scene_locked]
      exact ⟨rfl, (k.locked (.page p page.va)).unlocked rfl⟩
  unfold resolveAtPage
  rw [ends_bind]
  refine (ends_forbidsWrite k).mono ?_ fun _ _ hfalse => hfalse.elim
  intro forbidden looked hend
  rcases hend with ⟨-, hlooked⟩
  rcases hclaimed hlooked with ⟨hscene, klooked⟩
  rw [← hscene]
  cases forbidden with
  | true => exact .of_eq (scene_recorded rfl)
  | false => exact steps_claim klooked List.not_mem_nil List.not_mem_nil List.not_mem_nil

theorem steps_resolveFault {f : Fault} (k : m.Sound {} mem) :
    Ends (resolveFault p f) m Anyhow
      (fun _ next => Scene.Steps (Deed.Faulting p (m.pageBase f.va)) m.scene next.scene)
      fun _ next => Scene.Steps (Deed.Faulting p (m.pageBase f.va)) m.scene next.scene := by
  unfold resolveFault
  rw [ends_bind, ends_get]
  split
  · exact .of_eq (scene_recorded rfl)
  split
  · exact .of_eq (scene_recorded rfl)
  cases hpage : m.lookup p f.va with
  | none =>
      dsimp only
      split
      · exact steps_growStack k
      · exact .of_eq (scene_recorded rfl)
  | some page =>
      have haddress : page.va = m.pageBase f.va := (k.placed p _ page hpage).address
      rw [← haddress]
      exact (steps_resolveAtPage k).mono (fun _ _ hsteps => hsteps.mono fun _ => Or.inl)
        fun _ _ hsteps => hsteps.mono fun _ hdeed => Or.inl (Or.inl hdeed)

end Machine
end DemandPaging
