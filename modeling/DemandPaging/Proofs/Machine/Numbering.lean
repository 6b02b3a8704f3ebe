import DemandPaging.Proofs.Machine.Serving

/-!
# Numbers of pages

A page gets a number when it is registered, and it keeps the number. The numbers are given out in
their order, so a new page is told from every page that was there before, also from one that had
its address.
-/

namespace DemandPaging
namespace Machine

open Routine

variable {l m n : Machine} {p : Nat}

structure NumbersOn (m n : Machine) : Prop where
  next : m.nextId ≤ n.nextId
  pages : ∀ p va page, n.page? p va = some page →
    (∃ old, m.page? p va = some old ∧ page.id = old.id) ∨
      m.nextId ≤ page.id ∧ page.id < n.nextId

namespace NumbersOn

theorem of_page?_eq (hnext : n.nextId = m.nextId) (hpages : n.page? = m.page?) :
    NumbersOn m n where
  next := Nat.le_of_eq hnext.symm
  pages := by
    intro p va page hpage
    rw [hpages] at hpage
    exact Or.inl ⟨page, hpage, rfl⟩

theorem trans (h : NumbersOn l m) (h' : NumbersOn m n) : NumbersOn l n where
  next := Nat.le_trans h.next h'.next
  pages := by
    intro p va page hpage
    rcases h'.pages p va page hpage with ⟨old, hold, hid⟩ | ⟨hnew, hbound⟩
    · rw [hid]
      rcases h.pages p va old hold with hfirst | ⟨hnew, hbound⟩
      · exact Or.inl hfirst
      · exact Or.inr ⟨hnew, Nat.lt_of_lt_of_le hbound h'.next⟩
    · exact Or.inr ⟨Nat.le_trans h.next hnew, hbound⟩

theorem modifyPages {change : AddressMap Page → AddressMap Page}
    (hchange : ∀ va page, (change (m.process p).pages).get? va = some page →
      ∃ old, m.page? p va = some old ∧ page.id = old.id) :
    NumbersOn m (m.modifyPages p change) := by
  refine ⟨Nat.le_refl _, ?_⟩
  intro q va page hpage
  by_cases hp : p < m.processes.length
  · rw [page?_modifyPages hp] at hpage
    split at hpage
    · rename_i hq
      rw [hq]
      exact Or.inl (hchange va page hpage)
    · exact Or.inl ⟨page, hpage, rfl⟩
  · rw [Machine.modifyPages, modifyProcess_absent (Nat.le_of_not_lt hp)] at hpage
    exact Or.inl ⟨page, hpage, rfl⟩

theorem modifyPage (m : Machine) (p : Nat) (va : Vaddr) {change : Page → Page}
    (hid : ∀ page, (change page).id = page.id) : NumbersOn m (m.modifyPage p va change) := by
  refine .modifyPages ?_
  intro wa page hpage
  rw [AddressMap.get?_modify] at hpage
  split at hpage
  · rcases Option.map_eq_some_iff.mp hpage with ⟨old, hold, rfl⟩
    exact ⟨old, hold, hid old⟩
  · exact ⟨page, hpage, rfl⟩

theorem erasePage (m : Machine) (p : Nat) (va : Vaddr) :
    NumbersOn m (m.modifyPages p fun pages => pages.erase va) := by
  refine .modifyPages ?_
  intro wa page hpage
  rw [AddressMap.get?_erase] at hpage
  split at hpage
  · contradiction
  · exact ⟨page, hpage, rfl⟩

theorem clearPages (m : Machine) (p : Nat) :
    NumbersOn m (m.modifyPages p fun _ => .empty) := by
  refine .modifyPages ?_
  intro wa page hpage
  contradiction

theorem withPage (m : Machine) (p : Nat) (page : Page) : NumbersOn m (m.withPage p page) := by
  refine ⟨Nat.le_succ _, ?_⟩
  intro q va other hother
  by_cases hp : p < m.processes.length
  · rw [page?_withPage hp] at hother
    split at hother
    · cases hother
      exact Or.inr ⟨Nat.le_refl _, Nat.lt_succ_self _⟩
    · exact Or.inl ⟨other, hother, rfl⟩
  · rw [Machine.withPage, Machine.modifyPages, modifyProcess_absent (Nat.le_of_not_lt hp)]
      at hother
    exact Or.inl ⟨other, hother, rfl⟩

theorem modifyProcess (m : Machine) (p : Nat) {change : Process → Process}
    (hpages : ∀ process, (change process).pages = process.pages) :
    NumbersOn m (m.modifyProcess p change) := by
  refine .of_page?_eq rfl ?_
  funext q va
  exact process_modifyProcess_of_forall m p q (fun process => process.pages.get? va)
    fun process => congrArg (fun pages => pages.get? va) (hpages process)

end NumbersOn

theorem numbersOn_ignores : IgnoresLoading NumbersOn where
  refl := fun _ => .of_page?_eq rfl rfl
  trans := fun _ _ _ => .trans
  locked := fun _ _ => .of_page?_eq rfl rfl
  seized := fun _ _ => .of_page?_eq rfl rfl
  unlocked := fun _ _ => .of_page?_eq rfl rfl
  contended := fun _ _ => .of_page?_eq rfl rfl
  reported := fun _ _ => .of_page?_eq rfl rfl
  setSwap := fun _ _ _ => .of_page?_eq rfl rfl
  recorded := fun _ _ => .of_page?_eq rfl rfl
  modifyPage := fun m p va _ hid => .modifyPage m p va hid
  modifyMmu := fun m p _ _ => .modifyProcess m p fun _ => rfl
  writeFile := fun _ _ _ _ => .of_page?_eq rfl rfl
  modifyRing := fun _ _ => .of_page?_eq rfl rfl
  takeFrame := fun _ => .of_page?_eq rfl rfl
  setPool := fun _ _ => .of_page?_eq rfl rfl
  readSlot := fun _ _ _ => .of_page?_eq rfl rfl
  withPage := .withPage
  modifyMappings := fun m p _ => .modifyProcess m p fun _ => rfl
  readFile := fun _ _ _ _ => .of_page?_eq rfl rfl
  setMmu := fun m p _ => .modifyProcess m p fun _ => rfl
  erasePage := .erasePage
  clearPages := .clearPages
  shut := fun m p => .modifyProcess m p fun _ => rfl
  finish := fun m p => .modifyProcess m p fun _ => rfl
  withProcess := fun m accepting => .of_page?_eq rfl (page?_withProcess m accepting)
  countRun := fun _ _ => .of_page?_eq rfl rfl

end Machine
end DemandPaging
