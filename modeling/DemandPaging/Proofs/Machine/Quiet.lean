import DemandPaging.Proofs.Machine.Keeping

/-!
# Copying without loading

Evictions write to files and to the swap device, and copies read slots, but neither runs a custom
loader nor reads a file. A fork is made of these, so it loads nothing.
-/

namespace DemandPaging
namespace Machine

open Routine

/-- No custom loader was run and no file was read, and no process was started. -/
structure Quiet (m n : Machine) : Prop where
  runs : n.loaderRuns = m.loaderRuns
  reading : n.files.map BackingFile.reading = m.files.map BackingFile.reading
  count : n.processes.length = m.processes.length

variable {m n : Machine}

theorem Quiet.modifyProcess (m : Machine) (p : Nat) (change : Process → Process) :
    Quiet m (m.modifyProcess p change) :=
  ⟨rfl, rfl, length_modifyProcess m p change⟩

theorem quiet_ignores : IgnoresCopying Quiet where
  refl := fun _ => ⟨rfl, rfl, rfl⟩
  trans := fun _ _ _ h h' =>
    ⟨h'.runs.trans h.runs, h'.reading.trans h.reading, h'.count.trans h.count⟩
  locked := fun _ _ => ⟨rfl, rfl, rfl⟩
  seized := fun _ _ => ⟨rfl, rfl, rfl⟩
  unlocked := fun _ _ => ⟨rfl, rfl, rfl⟩
  contended := fun _ _ => ⟨rfl, rfl, rfl⟩
  reported := fun _ _ => ⟨rfl, rfl, rfl⟩
  setSwap := fun _ _ _ => ⟨rfl, rfl, rfl⟩
  recorded := fun _ _ => ⟨rfl, rfl, rfl⟩
  modifyPage := fun m p _ _ _ => .modifyProcess m p _
  modifyMmu := fun m p _ _ => .modifyProcess m p _
  writeFile := fun m _ _ _ =>
    ⟨rfl, m.map_setFile BackingFile.reading (BackingFile.reading_write _ _ _), rfl⟩
  modifyRing := fun _ _ => ⟨rfl, rfl, rfl⟩
  takeFrame := fun _ => ⟨rfl, rfl, rfl⟩
  setPool := fun _ _ => ⟨rfl, rfl, rfl⟩
  readSlot := fun _ _ _ => ⟨rfl, rfl, rfl⟩
  withPage := fun m p _ => ⟨rfl, rfl, length_modifyProcess m p _⟩
  modifyMappings := fun m p _ => .modifyProcess m p _

theorem quiet_copyPages (s t : Nat) (vas : List Vaddr) : Keeps Quiet (copyPages s t vas) :=
  kept_copyPages quiet_ignores s t vas

theorem quiet_fork (s t : Nat) : Keeps Quiet (fork s t) :=
  kept_fork quiet_ignores s t

end Machine
end DemandPaging
