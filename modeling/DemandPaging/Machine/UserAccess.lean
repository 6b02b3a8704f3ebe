import DemandPaging.Machine.Fault

/-!
# Accesses of user processes

A user process reads and writes memory through its memory management unit. When an access faults,
the fault is handled and the whole access is tried again, until it succeeds, a fault cannot be
resolved, or the patience is used up.
-/

namespace DemandPaging
namespace Machine

open Routine

def ofAccess {α : Type} : Except AccessStop α → Routine (Except AccessFault α)
  | .ok a => pure (.ok a)
  | .error (.faulted fault) => pure (.error fault)
  | .error .wrapped => abort .addOverflow

def userRead (p : Nat) (va : Vaddr) (length : Nat) : Routine (Except AccessFault Bytes) := do
  let m ← get
  let effect := (m.process p).mmu.userRead m.pool.frames va length
  set (m.modifyMmu p fun _ => effect.mmu)
  ofAccess effect.answer

def userWrite (p : Nat) (va : Vaddr) (data : Bytes) : Routine (Except AccessFault Unit) := do
  let m ← get
  let effect := (m.process p).mmu.userWrite m.pool.frames va data
  set { m.modifyMmu p fun _ => effect.mmu with pool := { m.pool with frames := effect.memory } }
  record (.stored p va effect.written)
  ofAccess effect.result

def faultOf (stackPointer : Vaddr) (write : Bool) : AccessFault → Fault
  | .notPresent va => ⟨va, ⟨true, write, true⟩, stackPointer⟩
  | .readOnly va => ⟨va, ⟨false, write, true⟩, stackPointer⟩

/-- Tries an access up to `patience` times and resolves the fault after each try. There is no
result when every try faulted. -/
def retrying {α : Type} (p : Nat) (stackPointer : Vaddr) (write : Bool)
    (access : Routine (Except AccessFault α)) : Nat → Routine (Option α)
  | 0 => pure none
  | patience + 1 => do
      match ← access with
      | .ok a => pure (some a)
      | .error fault =>
          resolveFault p (faultOf stackPointer write fault)
          retrying p stackPointer write access patience

def readMemory (p : Nat) (va : Vaddr) (length : Nat) (stackPointer : Vaddr) (patience : Nat) :
    Routine (Option Bytes) :=
  retrying p stackPointer false (userRead p va length) patience

def writeMemory (p : Nat) (va : Vaddr) (data : Bytes) (stackPointer : Vaddr) (patience : Nat) :
    Routine (Option Unit) :=
  retrying p stackPointer true (userWrite p va data) patience

end Machine
end DemandPaging
