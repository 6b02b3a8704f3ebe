import DemandPaging.Proofs.Routine
import DemandPaging.Proofs.Scene

/-!
# The scene of a machine

What each change to one part of a machine does to its scene: nothing, or it changes the sight at
one address.
-/

namespace DemandPaging

/-! ## Entries of a memory management unit -/

namespace Mmu

def entryAt (m : Mmu) (va : Vaddr) : Option PageEntry :=
  (m.mapped? va).map fun e => { e with accessed := false }

variable {m : Mmu} {va wa : Vaddr} {f : Nat} {w : Bool}

theorem link?_eq_map_entry? (m : Mmu) (va : Vaddr) :
    m.link? va = (m.entryAt va).map fun e => (e.frame, e.writable) := by
  unfold link? entryAt
  rw [Option.map_map]
  rfl

theorem isDirty_eq_entry? (m : Mmu) (va : Vaddr) :
    m.isDirty va = (m.entryAt va).any PageEntry.dirty := by
  unfold isDirty entryAt
  cases m.mapped? va <;> rfl

theorem dirty_unmap (m : Mmu) (va : Vaddr) :
    (m.unmap va).1 = (m.entryAt va).any PageEntry.dirty :=
  isDirty_eq_entry? m va

theorem entryAt_linked :
    (m.linked va f w).entryAt wa =
      if wa = va then some ⟨f, w, false, false⟩ else m.entryAt wa := by
  unfold entryAt mapped? linked
  rw [AddressMap.get?_insert]
  split <;> rfl

theorem entryAt_unmap :
    (m.unmap va).2.entryAt wa = if wa = va then none else m.entryAt wa := by
  unfold unmap entryAt mapped?
  rw [AddressMap.get?_erase]
  split <;> rfl

theorem entryAt_setDirty (m : Mmu) (va wa : Vaddr) (dirty : Bool) :
    (m.setDirty va dirty).entryAt wa =
      if wa = va then (m.entryAt wa).map fun e => { e with dirty := dirty } else m.entryAt wa := by
  unfold setDirty entryAt mapped?
  rw [AddressMap.get?_modify]
  split
  · rw [Option.map_map, Option.map_map]
    rfl
  · rfl

@[simp]
theorem entryAt_setAccessed (m : Mmu) (va wa : Vaddr) (accessed : Bool) :
    (m.setAccessed va accessed).entryAt wa = m.entryAt wa := by
  unfold setAccessed entryAt mapped?
  rw [AddressMap.get?_modify]
  split
  · rw [Option.map_map]
    rfl
  · rfl

end Mmu

namespace Machine

/-! ## The scene -/

def entryAt (m : Machine) (p : Nat) (va : Vaddr) : Option PageEntry :=
  (m.process p).mmu.entryAt va

def sight (m : Machine) (p : Nat) (va : Vaddr) : Sight where
  page := m.page? p va
  entry := m.entryAt p va
  content := ((m.page? p va).bind Page.frame).map m.pool.content

def movements (m : Machine) : List Event :=
  m.trace.filter Event.isMovement

def scene (m : Machine) : Scene where
  layout := m.layout
  sight := m.sight
  mappings := fun p => (m.process p).mappings
  files := m.files.map BackingFile.unread
  accepts := fun p => (m.process p).mmu.accepting.outcome
  movements := m.movements

variable {m n : Machine} {p q f : Nat} {va wa : Vaddr} {page : Page}

theorem sight_of_page? (h : m.page? p va = some page) :
    m.sight p va = ⟨some page, m.entryAt p va, page.frame.map m.pool.content⟩ := by
  unfold sight
  rw [h]
  rfl

theorem sight_of_frame (h : m.page? p va = some page) (hframe : page.frame = some f) :
    m.sight p va = ⟨some page, m.entryAt p va, some (m.pool.content f)⟩ := by
  rw [sight_of_page? h, hframe]
  rfl

theorem sight_of_frameless (h : m.page? p va = some page) (hnone : page.frame = none) :
    m.sight p va = ⟨some page, m.entryAt p va, none⟩ := by
  rw [sight_of_page? h, hnone]
  rfl

theorem sight_of_absent (h : m.page? p va = none) :
    m.sight p va = ⟨none, m.entryAt p va, none⟩ := by
  unfold sight
  rw [h]
  rfl

theorem entryAt_eq_none_iff : m.entryAt p va = none ↔ m.link? p va = none := by
  unfold entryAt link?
  rw [Mmu.link?_eq_map_entry?, Option.map_eq_none_iff]

theorem entryAt_of_link? {w : Bool} (h : m.link? p va = some (f, w)) :
    m.entryAt p va = some ⟨f, w, (m.process p).mmu.isDirty va, false⟩ := by
  rcases link?_eq_some_iff.mp h with ⟨e, he, rfl, rfl⟩
  unfold entryAt Mmu.entryAt Mmu.isDirty
  rw [show (m.process p).mmu.mapped? va = some e from he]
  rfl

theorem sight_congr (hpage : n.page? q wa = m.page? q wa)
    (hentry : n.entryAt q wa = m.entryAt q wa)
    (hcontent : ∀ page f, m.page? q wa = some page → page.frame = some f →
      n.pool.content f = m.pool.content f) : n.sight q wa = m.sight q wa := by
  unfold sight
  rw [hpage, hentry]
  cases hold : m.page? q wa with
  | none => rfl
  | some page =>
      cases hframe : page.frame with
      | none => simp [hframe]
      | some f => simp [hframe, hcontent page f hold hframe]

theorem scene_eq_see (hlayout : n.layout = m.layout)
    (hpage : ∀ q wa, ¬(q = p ∧ wa = va) → n.page? q wa = m.page? q wa)
    (hentry : ∀ q wa, ¬(q = p ∧ wa = va) → n.entryAt q wa = m.entryAt q wa)
    (hcontent : ∀ q wa page f, ¬(q = p ∧ wa = va) → m.page? q wa = some page →
      page.frame = some f → n.pool.content f = m.pool.content f)
    (hmappings : ∀ q, (n.process q).mappings = (m.process q).mappings)
    (hfiles : n.files.map BackingFile.unread = m.files.map BackingFile.unread)
    (haccepts : ∀ q, (n.process q).mmu.accepting.outcome = (m.process q).mmu.accepting.outcome)
    (hmovements : n.movements = m.movements) :
    n.scene = m.scene.see p va (n.sight p va) := by
  have hsight : n.sight = setAt m.sight p va (n.sight p va) := by
    funext q wa
    by_cases hat : q = p ∧ wa = va
    · rw [hat.1, hat.2, setAt_self]
    · rw [setAt_of_ne hat]
      exact sight_congr (hpage q wa hat) (hentry q wa hat) fun page f => hcontent q wa page f hat
  apply Scene.ext
  · exact hlayout
  · exact hsight
  · funext q
    exact hmappings q
  · exact hfiles
  · funext q
    exact haccepts q
  · exact hmovements

/-! ## Changes out of sight -/

theorem scene_recorded {event : Event} (h : event.isMovement = false) :
    (m.recorded event).scene = m.scene := by
  have hmovements : (m.recorded event).movements = m.movements :=
    List.filter_cons_of_neg (by rw [h]; exact Bool.false_ne_true)
  exact congrArg (fun events => { m.scene with movements := events }) hmovements

theorem scene_noted {event : Event} (h : event.isMovement = true) :
    (m.recorded event).scene = m.scene.noted event := by
  have hmovements : (m.recorded event).movements = event :: m.movements :=
    List.filter_cons_of_pos h
  exact congrArg (fun events => { m.scene with movements := events }) hmovements

@[simp]
theorem scene_locked (m : Machine) (lock : Lock) : (m.locked lock).scene = m.scene :=
  scene_recorded (m := { m with held := lock :: m.held }) rfl

@[simp]
theorem scene_seized (m : Machine) (lock : Lock) : (m.seized lock).scene = m.scene :=
  scene_recorded (m := { m with held := lock :: m.held }) rfl

@[simp]
theorem scene_unlocked (m : Machine) (lock : Lock) : (m.unlocked lock).scene = m.scene :=
  scene_recorded (m := { m with held := m.held.erase lock }) rfl

/-! ## Changes of a memory management unit -/

theorem entryAt_modifyMmu {change : Mmu → Mmu} (hp : p < m.processes.length) (q : Nat)
    (wa : Vaddr) :
    (m.modifyMmu p change).entryAt q wa =
      if q = p then (change (m.process p).mmu).entryAt wa else m.entryAt q wa := by
  unfold entryAt
  rw [mmu_modifyMmu hp]
  split
  · rename_i hq
    rw [hq]
  · rfl

theorem scene_modifyMmu {change : Mmu → Mmu} (hp : p < m.processes.length)
    (haccepts : (change (m.process p).mmu).accepting.outcome =
      (m.process p).mmu.accepting.outcome)
    (hentry : ∀ wa, wa ≠ va → (change (m.process p).mmu).entryAt wa = m.entryAt p wa) :
    (m.modifyMmu p change).scene =
      m.scene.see p va { m.sight p va with entry := (change (m.process p).mmu).entryAt va } := by
  have hsight : (m.modifyMmu p change).sight p va =
      { m.sight p va with entry := (change (m.process p).mmu).entryAt va } := by
    unfold sight
    rw [page?_modifyMmu, entryAt_modifyMmu hp, if_pos rfl]
    rfl
  rw [← hsight]
  apply scene_eq_see
  · rfl
  · intro q wa _
    exact page?_modifyMmu m p q _ wa
  · intro q wa hne
    rw [entryAt_modifyMmu hp]
    split
    · rename_i hq
      rw [hq]
      exact hentry wa fun hwa => hne ⟨hq, hwa⟩
    · rfl
  · intro q wa page f _ _ _
    rfl
  · intro q
    exact process_modifyProcess_of_forall m p q Process.mappings fun _ => rfl
  · rfl
  · intro q
    rw [mmu_modifyMmu hp]
    split
    · rename_i hq
      rw [hq]
      exact haccepts
    · rfl
  · rfl

theorem scene_unmapped (hp : p < m.processes.length) (va : Vaddr) :
    (m.unmapped p va).scene = m.scene.see p va { m.sight p va with entry := none } := by
  have hgone : ((m.process p).mmu.unmap va).2.entryAt va = none := by
    rw [Mmu.entryAt_unmap, if_pos rfl]
  rw [← hgone]
  apply scene_modifyMmu hp
  · rfl
  · intro wa hne
    rw [Mmu.entryAt_unmap, if_neg hne]
    rfl

theorem scene_linked {w : Bool} (hp : p < m.processes.length) (va : Vaddr) :
    (m.modifyMmu p fun _ => (m.process p).mmu.linked va f w).scene =
      m.scene.see p va { m.sight p va with entry := some ⟨f, w, false, false⟩ } := by
  have hlinked : ((m.process p).mmu.linked va f w).entryAt va = some ⟨f, w, false, false⟩ := by
    rw [Mmu.entryAt_linked, if_pos rfl]
  rw [← hlinked]
  apply scene_modifyMmu hp
  · rfl
  · intro wa hne
    rw [Mmu.entryAt_linked, if_neg hne]
    rfl

theorem scene_setDirty (hp : p < m.processes.length) (va : Vaddr) (dirty : Bool) :
    (m.modifyMmu p fun mmu => mmu.setDirty va dirty).scene =
      m.scene.see p va { m.sight p va with
        entry := (m.entryAt p va).map fun e => { e with dirty := dirty } } := by
  have hmarked : ((m.process p).mmu.setDirty va dirty).entryAt va =
      (m.entryAt p va).map fun e => { e with dirty := dirty } := by
    rw [Mmu.entryAt_setDirty, if_pos rfl]
    rfl
  rw [← hmarked]
  apply scene_modifyMmu hp
  · rfl
  · intro wa hne
    rw [Mmu.entryAt_setDirty, if_neg hne]
    rfl

theorem scene_keepEntries {change : Mmu → Mmu}
    (haccepts : (change (m.process p).mmu).accepting.outcome =
      (m.process p).mmu.accepting.outcome)
    (hentry : ∀ wa, (change (m.process p).mmu).entryAt wa = m.entryAt p wa) :
    (m.modifyMmu p change).scene = m.scene := by
  by_cases hp : p < m.processes.length
  · have hseen : (m.modifyMmu p change).scene = m.scene.see p 0
        { m.sight p 0 with entry := (change (m.process p).mmu).entryAt 0 } :=
      scene_modifyMmu hp haccepts fun wa _ => hentry wa
    rw [hseen, hentry]
    exact Scene.see_self rfl
  · rw [modifyMmu, modifyProcess_absent (Nat.le_of_not_lt hp)]

/-! ## Changes of the pages -/

theorem entryAt_modifyPages (m : Machine) (p q : Nat) (change : AddressMap Page → AddressMap Page)
    (va : Vaddr) : (m.modifyPages p change).entryAt q va = m.entryAt q va := by
  unfold entryAt
  rw [mmu_modifyPages]

theorem scene_modifyPages {change : AddressMap Page → AddressMap Page} {new : Option Page}
    (hpages : (m.modifyPages p change).page? = setAt m.page? p va new) :
    (m.modifyPages p change).scene =
      m.scene.see p va ⟨new, m.entryAt p va, (new.bind Page.frame).map m.pool.content⟩ := by
  have hsight : (m.modifyPages p change).sight p va =
      ⟨new, m.entryAt p va, (new.bind Page.frame).map m.pool.content⟩ := by
    unfold sight
    rw [hpages, setAt_self, entryAt_modifyPages]
    rfl
  rw [← hsight]
  apply scene_eq_see
  · rfl
  · intro q wa hne
    rw [hpages, setAt_of_ne hne]
  · intro q wa _
    exact entryAt_modifyPages m p q change wa
  · intro q wa page f _ _ _
    rfl
  · intro q
    exact process_modifyProcess_of_forall m p q Process.mappings fun _ => rfl
  · rfl
  · intro q
    rw [mmu_modifyPages]
  · rfl

theorem scene_modifyPage {change : Page → Page} (h : m.page? p va = some page) :
    (m.modifyPage p va change).scene = m.scene.see p va
      ⟨some (change page), m.entryAt p va, (change page).frame.map m.pool.content⟩ :=
  scene_modifyPages (page?_modifyPage_eq h)

theorem scene_erase (hp : p < m.processes.length) (va : Vaddr) :
    (m.modifyPages p fun pages => pages.erase va).scene =
      m.scene.see p va ⟨none, m.entryAt p va, none⟩ :=
  scene_modifyPages (page?_erase_eq hp va)

theorem scene_withPage (hp : p < m.processes.length) (page : Page) :
    (m.withPage p page).scene = m.scene.see p page.va
      ⟨some { page with id := m.nextId }, m.entryAt p page.va, page.frame.map m.pool.content⟩ := by
  have hinserted : (m.modifyPages p fun pages =>
      pages.insert page.va { page with id := m.nextId }).scene = _ :=
    scene_modifyPages (page?_withPage_eq hp)
  exact hinserted

/-! ## Changes beside the processes -/

theorem scene_pool {pool : FramePool} (h : ∀ p va page f, m.page? p va = some page →
    page.frame = some f → pool.content f = m.pool.content f) :
    Machine.scene { m with pool := pool } = m.scene := by
  have hseen : Machine.scene { m with pool := pool } =
      m.scene.see 0 0 (Machine.sight { m with pool := pool } 0 0) := by
    apply scene_eq_see
    · rfl
    · intro q wa _
      rfl
    · intro q wa _
      rfl
    · intro q wa page f _ hpage hframe
      exact h q wa page f hpage hframe
    · intro q
      rfl
    · rfl
    · intro q
      rfl
    · rfl
  rw [hseen]
  apply Scene.see_self
  show m.sight 0 0 = Machine.sight { m with pool := pool } 0 0
  unfold sight
  cases hpage : m.page? 0 0 with
  | none =>
      rw [show Machine.page? { m with pool := pool } 0 0 = none from hpage]
      rfl
  | some page =>
      rw [show Machine.page? { m with pool := pool } 0 0 = some page from hpage]
      cases hframe : page.frame with
      | none => simp [hframe, entryAt, process]
      | some f => simp [hframe, entryAt, process, h 0 0 page f hpage hframe]

theorem file_scene (m : Machine) (f : Nat) : m.scene.file f = (m.file f).unread := by
  show (m.files.map BackingFile.unread).getD f (.ofBytes []) = (m.files.getD f (.ofBytes [])).unread
  rw [List.getD_eq_getElem?_getD, List.getD_eq_getElem?_getD, List.getElem?_map]
  cases m.files[f]? <;> rfl

theorem scene_setFile (m : Machine) (f : Nat) (file : BackingFile) :
    Machine.scene { m with files := m.files.set f file } =
      { m.scene with files := m.scene.files.set f file.unread } := by
  have hfiles : (m.files.set f file).map BackingFile.unread =
      (m.files.map BackingFile.unread).set f file.unread := List.map_set
  exact congrArg (fun files => { m.scene with files := files }) hfiles

theorem scene_modifyProcess {change : Process → Process} (hp : p < m.processes.length)
    (hpages : ∀ process, (change process).pages = process.pages)
    (hmmu : ∀ process, (change process).mmu = process.mmu) :
    (m.modifyProcess p change).scene = m.scene.grouped p (change (m.process p)).mappings := by
  have hmappings : (fun q => ((m.modifyProcess p change).process q).mappings) =
      fun q => if q = p then (change (m.process p)).mappings else (m.process q).mappings := by
    funext q
    rw [process_modifyProcess m p q _ hp]
    split
    · rename_i hq
      rw [hq]
    · rfl
  have hpage : ∀ q wa, (m.modifyProcess p change).page? q wa = m.page? q wa := by
    intro q wa
    exact congrArg (fun pages => AddressMap.get? pages wa)
      (process_modifyProcess_of_forall m p q Process.pages hpages)
  have hsight : (m.modifyProcess p change).sight = m.sight := by
    funext q wa
    unfold sight entryAt
    rw [hpage, mmu_modifyProcess_of_forall m p q hmmu]
    rfl
  have haccepts : (fun q => ((m.modifyProcess p change).process q).mmu.accepting.outcome) =
      fun q => (m.process q).mmu.accepting.outcome := by
    funext q
    rw [mmu_modifyProcess_of_forall m p q hmmu]
  apply Scene.ext
  · rfl
  · exact hsight
  · exact hmappings
  · rfl
  · exact haccepts
  · rfl

theorem scene_modifyMappings {change : AddressMap FileMapping → AddressMap FileMapping}
    (hp : p < m.processes.length) :
    (m.modifyMappings p change).scene = m.scene.grouped p (change (m.process p).mappings) :=
  scene_modifyProcess hp (fun _ => rfl) fun _ => rfl

end Machine
end DemandPaging
