import DemandPaging.Proofs.Machine.Operation
import DemandPaging.Proofs.Machine.Serving

/-!
# Closed page tables

A page table that is torn down stays torn down: no routine opens it again, whatever it does to
pages, frames, slots and files. So no operation ever adds a page to it.
-/

namespace DemandPaging
namespace Machine

open Routine

structure StaysShut (m n : Machine) : Prop where
  count : m.processes.length ≤ n.processes.length
  tornDown : ∀ p < m.processes.length,
    (m.process p).tornDown = true → (n.process p).tornDown = true

namespace StaysShut

variable {l m n : Machine}

theorem of_processes (h : n.processes = m.processes) : StaysShut m n where
  count := Nat.le_of_eq (congrArg List.length h).symm
  tornDown := by
    intro p _ htorn
    unfold process at htorn ⊢
    rw [h]
    exact htorn

theorem trans (h : StaysShut l m) (h' : StaysShut m n) : StaysShut l n where
  count := Nat.le_trans h.count h'.count
  tornDown := fun p hp htorn =>
    h'.tornDown p (Nat.lt_of_lt_of_le hp h.count) (h.tornDown p hp htorn)

theorem modifyProcess (m : Machine) (p : Nat) {change : Process → Process}
    (hchange : ∀ process, process.tornDown = true → (change process).tornDown = true) :
    StaysShut m (m.modifyProcess p change) where
  count := Nat.le_of_eq (length_modifyProcess m p change).symm
  tornDown := by
    intro q hq htorn
    by_cases hp : p < m.processes.length
    · rw [process_modifyProcess m p q change hp]
      split
      · exact hchange _ htorn
      · exact htorn
    · rw [modifyProcess_absent (Nat.le_of_not_lt hp)]
      exact htorn

theorem withProcess (m : Machine) (accepting : Schedule Bool) :
    StaysShut m (m.withProcess accepting) where
  count := by
    show m.processes.length ≤ (m.processes ++ [_]).length
    rw [List.length_append]
    exact Nat.le_add_right _ _
  tornDown := by
    intro p hp htorn
    rw [process_withProcess_of_ne (Nat.ne_of_lt hp)]
    exact htorn

end StaysShut

theorem shut_ignores : IgnoresLoading StaysShut where
  refl := fun _ => .of_processes rfl
  trans := fun _ _ _ h h' => h.trans h'
  locked := fun _ _ => .of_processes rfl
  seized := fun _ _ => .of_processes rfl
  unlocked := fun _ _ => .of_processes rfl
  contended := fun _ _ => .of_processes rfl
  reported := fun _ _ => .of_processes rfl
  setSwap := fun _ _ _ => .of_processes rfl
  recorded := fun _ _ => .of_processes rfl
  modifyPage := fun m p _ _ _ => .modifyProcess m p fun _ htorn => htorn
  modifyMmu := fun m p _ _ => .modifyProcess m p fun _ htorn => htorn
  writeFile := fun _ _ _ _ => .of_processes rfl
  modifyRing := fun _ _ => .of_processes rfl
  takeFrame := fun _ => .of_processes rfl
  setPool := fun _ _ => .of_processes rfl
  readSlot := fun _ _ _ => .of_processes rfl
  withPage := by
    intro m p page
    have hpages : StaysShut m (m.modifyPages p fun pages =>
        pages.insert page.va { page with id := m.nextId }) :=
      .modifyProcess m p fun _ htorn => htorn
    exact hpages.trans (.of_processes rfl)
  modifyMappings := fun m p _ => .modifyProcess m p fun _ htorn => htorn
  readFile := fun _ _ _ _ => .of_processes rfl
  setMmu := fun m p _ => .modifyProcess m p fun _ htorn => htorn
  erasePage := fun m p _ => .modifyProcess m p fun _ htorn => htorn
  clearPages := fun m p => .modifyProcess m p fun _ htorn => htorn
  shut := fun m p => .modifyProcess m p fun _ _ => rfl
  finish := fun m p => .modifyProcess m p fun _ htorn => htorn
  withProcess := .withProcess
  countRun := fun _ _ => .of_processes rfl

theorem staysShut_of_run {m last : Machine} {ops : List Operation}
    (hrun : m.run ops = some last) : StaysShut m last := by
  induction ops generalizing m with
  | nil =>
      cases hrun
      exact shut_ignores.refl _
  | cons op rest ih =>
      rw [run_cons] at hrun
      rcases Option.bind_eq_some_iff.mp hrun with ⟨next, hafter, hrest⟩
      exact (of_after? (kept_perform shut_ignores op m) hafter).trans (ih hrest)

end Machine
end DemandPaging
