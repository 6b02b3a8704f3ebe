import Mathlib.Data.List.GetD
import DemandPaging.Machine.Registration
import DemandPaging.Proofs.Custody.Frames
import DemandPaging.Proofs.Mmu

/-!
# Laws of the views

What each change to one part of the machine does to the registered pages and to the mapped pages.
A change of one view leaves the other alone.
-/

namespace DemandPaging
namespace Machine

variable {m : Machine} {p q : Nat} {va wa : Vaddr}

/-! ## Processes -/

@[simp]
theorem length_modifyProcess (m : Machine) (p : Nat) (f : Process → Process) :
    (m.modifyProcess p f).processes.length = m.processes.length :=
  List.length_modify ..

theorem modifyProcess_absent {f : Process → Process} (h : m.processes.length ≤ p) :
    m.modifyProcess p f = m := by
  unfold modifyProcess
  rw [List.modify_eq_self h]

theorem process_modifyProcess_of_forall {α : Type} (m : Machine) (p q : Nat)
    {f : Process → Process} (read : Process → α) (h : ∀ process, read (f process) = read process) :
    read ((m.modifyProcess p f).process q) = read (m.process q) := by
  by_cases hp : p < m.processes.length
  · rw [process_modifyProcess m p q f hp]
    split
    · exact h _
    · rfl
  · rw [modifyProcess_absent (Nat.le_of_not_lt hp)]

theorem lt_of_page?_eq_some {page : Page} (h : m.page? p va = some page) :
    p < m.processes.length := by
  apply Nat.lt_of_not_le
  intro hle
  rw [page?, process_eq_absent hle] at h
  cases h

theorem lt_of_mapped?_eq_some {e : PageEntry} (h : m.mapped? p va = some e) :
    p < m.processes.length := by
  apply Nat.lt_of_not_le
  intro hle
  rw [mapped?, process_eq_absent hle] at h
  cases h

theorem lt_of_tornDown_eq_false (h : (m.process p).tornDown = false) :
    p < m.processes.length := by
  apply Nat.lt_of_not_le
  intro hle
  rw [process_eq_absent hle] at h
  cases h

/-! ## Registered pages -/

theorem mem_keys_iff_isSome : va ∈ (m.process p).pages.keys ↔ (m.page? p va).isSome = true :=
  AddressMap.mem_keys_iff.trans Option.isSome_iff_exists.symm

@[simp]
theorem page?_modifyMmu (m : Machine) (p q : Nat) (f : Mmu → Mmu) (wa : Vaddr) :
    (m.modifyMmu p f).page? q wa = m.page? q wa :=
  process_modifyProcess_of_forall m p q (fun process => process.pages.get? wa) fun _ => rfl

@[simp]
theorem page?_modifyMappings (m : Machine) (p q : Nat)
    (f : AddressMap FileMapping → AddressMap FileMapping) (wa : Vaddr) :
    (m.modifyMappings p f).page? q wa = m.page? q wa :=
  process_modifyProcess_of_forall m p q (fun process => process.pages.get? wa) fun _ => rfl

theorem page?_modifyPages {f : AddressMap Page → AddressMap Page} (hp : p < m.processes.length)
    (q : Nat) (wa : Vaddr) :
    (m.modifyPages p f).page? q wa =
      if q = p then (f (m.process p).pages).get? wa else m.page? q wa := by
  rw [modifyPages, page?, process_modifyProcess m p q _ hp]
  split
  · rename_i hq
    subst hq
    rfl
  · rfl

theorem page?_modifyPage_self {page : Page} {f : Page → Page} (h : m.page? p va = some page) :
    (m.modifyPage p va f).page? p va = some (f page) := by
  rw [page?_modifyPage, if_pos ⟨rfl, rfl⟩, h]
  rfl

theorem page?_modifyPage_ne {f : Page → Page} (h : ¬(q = p ∧ wa = va)) :
    (m.modifyPage p va f).page? q wa = m.page? q wa := by
  rw [page?_modifyPage, if_neg h]

theorem page?_withPage {page : Page} (hp : p < m.processes.length) (q : Nat) (wa : Vaddr) :
    (m.withPage p page).page? q wa =
      if q = p ∧ wa = page.va then some { page with id := m.nextId } else m.page? q wa := by
  have hpages : (m.withPage p page).page? q wa =
      (m.modifyPages p fun pages =>
        pages.insert page.va { page with id := m.nextId }).page? q wa := rfl
  rw [hpages, page?_modifyPages hp]
  by_cases hq : q = p
  · subst hq
    simp only [if_true, true_and]
    exact AddressMap.get?_insert _ page.va wa _
  · simp [hq]

theorem page?_withPage_self {page : Page} (hp : p < m.processes.length) :
    (m.withPage p page).page? p page.va = some { page with id := m.nextId } := by
  rw [page?_withPage hp, if_pos ⟨rfl, rfl⟩]

theorem page?_withPage_of_ne {page : Page} (hp : p < m.processes.length) (hne : q ≠ p)
    (wa : Vaddr) : (m.withPage p page).page? q wa = m.page? q wa := by
  rw [page?_withPage hp, if_neg fun hat => hne hat.1]

theorem ownedPage?_eq_some_iff {o : Owner} {page : Page} :
    m.ownedPage? o = some page ↔ m.page? o.process o.va = some page ∧ page.id = o.id := by
  rw [ownedPage?, Option.filter_eq_some_iff, beq_iff_eq]

theorem modifyProcess_congr {f g : Process → Process} (h : f (m.process p) = g (m.process p)) :
    m.modifyProcess p f = m.modifyProcess p g := by
  unfold modifyProcess
  congr 1
  apply List.ext_getElem?
  intro i
  rw [List.getElem?_modify, List.getElem?_modify]
  cases hi : m.processes[i]? with
  | none => rfl
  | some q =>
      by_cases hpi : p = i
      · subst hpi
        have hprocess : m.process p = q := by
          rw [process, List.getD_eq_getElem?_getD, hi]
          rfl
        rw [hprocess] at h
        simp [h]
      · simp [hpi]

theorem modifyProcess_eq_self {f : Process → Process} (h : f (m.process p) = m.process p) :
    m.modifyProcess p f = m := by
  rw [modifyProcess_congr (g := id) h]
  show { m with processes := m.processes.modify p id } = m
  rw [List.modify_id]

theorem modifyPages_congr {f g : AddressMap Page → AddressMap Page}
    (h : f (m.process p).pages = g (m.process p).pages) :
    m.modifyPages p f = m.modifyPages p g :=
  modifyProcess_congr (by rw [h])

theorem modifyPages_id : (m.modifyPages p fun pages => pages) = m :=
  modifyProcess_eq_self rfl

/-! ## Mapped pages -/

theorem mmu_modifyProcess_of_forall (m : Machine) (p q : Nat) {f : Process → Process}
    (h : ∀ process, (f process).mmu = process.mmu) :
    ((m.modifyProcess p f).process q).mmu = (m.process q).mmu :=
  process_modifyProcess_of_forall m p q Process.mmu h

@[simp]
theorem mmu_modifyPages (m : Machine) (p q : Nat) (f : AddressMap Page → AddressMap Page) :
    ((m.modifyPages p f).process q).mmu = (m.process q).mmu :=
  mmu_modifyProcess_of_forall m p q fun _ => rfl

theorem mmu_modifyMmu {f : Mmu → Mmu} (hp : p < m.processes.length) (q : Nat) :
    ((m.modifyMmu p f).process q).mmu =
      if q = p then f (m.process q).mmu else (m.process q).mmu := by
  rw [modifyMmu, process_modifyProcess m p q _ hp]
  split <;> rfl

theorem mmu_modifyMmu_eq {f : Mmu → Mmu} (hp : p < m.processes.length) (q : Nat) :
    ((m.modifyMmu p f).process q).mmu =
      if q = p then f (m.process p).mmu else (m.process q).mmu := by
  rw [mmu_modifyMmu hp]
  split
  · rename_i hq
    rw [hq]
  · rfl

theorem modifyMmu_modifyMmu (m : Machine) (p : Nat) (f g : Mmu → Mmu) :
    (m.modifyMmu p f).modifyMmu p g = m.modifyMmu p fun mmu => g (f mmu) := by
  unfold modifyMmu modifyProcess
  rw [List.modify_modify_eq]
  rfl

def link? (m : Machine) (p : Nat) (va : Vaddr) : Option (Nat × Bool) :=
  (m.process p).mmu.link? va

def HasRefused (m : Machine) (p : Nat) : Prop :=
  (m.process p).mmu.HasRefused

theorem link?_eq_some_iff {f : Nat} {w : Bool} :
    m.link? p va = some (f, w) ↔ ∃ e, m.mapped? p va = some e ∧ e.frame = f ∧ e.writable = w := by
  unfold link? Mmu.link?
  rw [Option.map_eq_some_iff]
  simp only [Prod.mk.injEq]
  rfl

/-! ## The views as a whole -/

theorem page?_modifyPage_eq {page : Page} {f : Page → Page} (h : m.page? p va = some page) :
    (m.modifyPage p va f).page? = setAt m.page? p va (some (f page)) := by
  funext q wa
  unfold setAt
  split
  · rename_i hat
    rw [hat.1, hat.2]
    exact page?_modifyPage_self h
  · rename_i hat
    exact page?_modifyPage_ne hat

theorem page?_withPage_eq {page : Page} (hp : p < m.processes.length) :
    (m.withPage p page).page? = setAt m.page? p page.va (some { page with id := m.nextId }) := by
  funext q wa
  exact page?_withPage hp q wa

theorem page?_erase_eq (hp : p < m.processes.length) (va : Vaddr) :
    (m.modifyPages p fun pages => pages.erase va).page? = setAt m.page? p va none := by
  funext q wa
  rw [page?_modifyPages hp]
  unfold setAt
  by_cases hq : q = p
  · subst hq
    simp only [if_true, true_and]
    exact AddressMap.get?_erase _ va wa
  · simp [hq]

theorem link?_modifyPages (m : Machine) (p : Nat) (f : AddressMap Page → AddressMap Page) :
    (m.modifyPages p f).link? = m.link? := by
  funext q wa
  rw [link?, mmu_modifyPages]
  rfl

theorem hasRefused_modifyPages (m : Machine) (p : Nat) (f : AddressMap Page → AddressMap Page) :
    (m.modifyPages p f).HasRefused = m.HasRefused := by
  funext q
  rw [HasRefused, mmu_modifyPages]
  rfl

theorem page?_modifyMmu_eq (m : Machine) (p : Nat) (f : Mmu → Mmu) :
    (m.modifyMmu p f).page? = m.page? := by
  funext q wa
  exact page?_modifyMmu m p q f wa

theorem link?_modifyMmu_eq {unit : Mmu} {x : Option (Nat × Bool)} (hp : p < m.processes.length)
    (h : ∀ wa, unit.link? wa = if wa = va then x else m.link? p wa) :
    (m.modifyMmu p fun _ => unit).link? = setAt m.link? p va x := by
  funext q wa
  rw [link?, mmu_modifyMmu hp]
  unfold setAt
  by_cases hq : q = p
  · subst hq
    simp only [if_true, true_and]
    exact h wa
  · simp [hq, link?]

theorem mapped?_eq_setAt {n : Machine} {unit : Mmu} {x : Option PageEntry}
    (h : ∀ q, (n.process q).mmu = if q = p then unit else (m.process q).mmu)
    (hunit : ∀ wa, unit.mapped? wa = if wa = va then x else m.mapped? p wa) :
    n.mapped? = setAt m.mapped? p va x := by
  funext q wa
  rw [mapped?, h]
  unfold setAt
  by_cases hq : q = p
  · subst hq
    simp only [if_true, true_and]
    exact hunit wa
  · simp [hq, mapped?]

def unmapped (m : Machine) (p : Nat) (va : Vaddr) : Machine :=
  m.modifyMmu p fun _ => ((m.process p).mmu.unmap va).2

@[simp]
theorem page?_unmapped (p : Nat) (va : Vaddr) : (m.unmapped p va).page? = m.page? :=
  page?_modifyMmu_eq m p _

theorem link?_unmapped (hp : p < m.processes.length) :
    (m.unmapped p va).link? = setAt m.link? p va none :=
  link?_modifyMmu_eq hp fun _ => Mmu.link?_unmap

theorem mmu_unmapped (hp : p < m.processes.length) (q : Nat) :
    ((m.unmapped p va).process q).mmu =
      if q = p then ((m.process p).mmu.unmap va).2 else (m.process q).mmu :=
  mmu_modifyMmu hp q

theorem mapped?_unmapped (hp : p < m.processes.length) :
    (m.unmapped p va).mapped? = setAt m.mapped? p va none :=
  mapped?_eq_setAt (mmu_unmapped hp) fun _ => Mmu.mapped?_unmap

theorem hasRefused_modifyMmu {unit : Mmu} (hp : p < m.processes.length)
    (h : m.HasRefused p → unit.HasRefused) (q : Nat) (hq : m.HasRefused q) :
    (m.modifyMmu p fun _ => unit).HasRefused q := by
  rw [HasRefused, mmu_modifyMmu hp]
  split
  · rename_i heq
    exact h (heq ▸ hq)
  · exact hq

/-! ## New processes -/

def withProcess (m : Machine) (accepting : Schedule Bool) : Machine :=
  { m with processes := m.processes ++ [Process.new m.layout.pageSize accepting] }

theorem process_withProcess_of_ne {accepting : Schedule Bool} (hq : q ≠ m.processes.length) :
    (m.withProcess accepting).process q = m.process q := by
  unfold process withProcess
  simp only [List.getD_eq_getElem?_getD]
  rcases Nat.lt_or_gt_of_ne hq with hlt | hgt
  · rw [List.getElem?_append_left hlt]
  · rw [List.getElem?_eq_none (by rw [List.length_append]; exact hgt),
      List.getElem?_eq_none (Nat.le_of_lt hgt)]

theorem process_withProcess_self (m : Machine) (accepting : Schedule Bool) :
    (m.withProcess accepting).process m.processes.length =
      Process.new m.layout.pageSize accepting := by
  simp [process, withProcess, List.getD_eq_getElem?_getD]

theorem process_withProcess_of_forall {α : Type} (m : Machine) (accepting : Schedule Bool)
    (q : Nat) (read : Process → α)
    (h : read (Process.new m.layout.pageSize accepting) = read .absent) :
    read ((m.withProcess accepting).process q) = read (m.process q) := by
  by_cases hq : q = m.processes.length
  · rw [hq, process_withProcess_self, process_eq_absent (Nat.le_refl _)]
    exact h
  · rw [process_withProcess_of_ne hq]

theorem page?_withProcess (m : Machine) (accepting : Schedule Bool) :
    (m.withProcess accepting).page? = m.page? := by
  funext q wa
  exact process_withProcess_of_forall m accepting q (fun process => process.pages.get? wa) rfl

theorem link?_withProcess (m : Machine) (accepting : Schedule Bool) :
    (m.withProcess accepting).link? = m.link? := by
  funext q wa
  exact process_withProcess_of_forall m accepting q (fun process => process.mmu.link? wa) rfl

/-! ## Files -/

theorem map_setFile {α : Type} (m : Machine) {f : Nat} {after : BackingFile}
    (read : BackingFile → α) (h : read after = read (m.file f)) :
    (m.files.set f after).map read = m.files.map read := by
  rw [List.map_set, h]
  unfold file
  rw [List.getD_eq_getElem?_getD]
  cases hfile : m.files[f]? with
  | none =>
      apply List.set_eq_of_length_le
      rw [List.length_map]
      exact List.getElem?_eq_none_iff.mp hfile
  | some file =>
      have hmapped : (m.files.map read)[f]? = some (read file) := by
        rw [List.getElem?_map, hfile]
        rfl
      rcases List.getElem?_eq_some_iff.mp hmapped with ⟨hf, hat⟩
      rw [Option.getD_some, ← hat]
      exact List.set_getElem_self hf

theorem getD_of_map_eq {α : Type} {files files' : List BackingFile} (read : BackingFile → α)
    (h : files'.map read = files.map read) (f : Nat) :
    read (files'.getD f (.ofBytes [])) = read (files.getD f (.ofBytes [])) := by
  rw [← List.getD_map files' _ read, ← List.getD_map files _ read, h]

end Machine
end DemandPaging
