import DemandPaging.Machine.Routine

/-!
# Routines on the parts of the machine

Each part of the machine keeps its own rules; here its operations become routines that replace the
part by its changed self, take the lock that guards it, and report what went wrong.
-/

namespace DemandPaging
namespace Machine

open Routine

/-! ## Pages and their mappings -/

def updatePage (p : Nat) (va : Vaddr) (f : Page → Page) : Routine Unit :=
  modify fun m => m.modifyPage p va f

def mapPage (p : Nat) (va : Vaddr) (frame : Nat) (writable : Bool) : Routine Bool := do
  let (accepted, mmu) := ((← get).process p).mmu.map va frame writable
  modify fun m => m.modifyMmu p fun _ => mmu
  ofAbort accepted

def unmapPage (p : Nat) (va : Vaddr) : Routine Bool := do
  let (dirty, mmu) := ((← get).process p).mmu.unmap va
  modify fun m => m.modifyMmu p fun _ => mmu
  pure dirty

def setDirty (p : Nat) (va : Vaddr) (dirty : Bool) : Routine Unit :=
  modify fun m => m.modifyMmu p fun mmu => mmu.setDirty va dirty

def setAccessed (p : Nat) (va : Vaddr) (accessed : Bool) : Routine Unit :=
  modify fun m => m.modifyMmu p fun mmu => mmu.setAccessed va accessed

/-! ## Frames -/

def takeFromPool : Routine (Option Nat) := do
  let (frame, pool) := (← get).pool.take
  modify fun m => { m with pool := pool }
  pure frame

def returnToPool (frame : Nat) : Routine Unit := do
  let pool ← ofAbort ((← get).pool.giveBack frame)
  modify fun m => { m with pool := pool }

def writeFrame (frame start : Nat) (data : Bytes) : Routine Unit :=
  modify fun m => { m with pool := m.pool.write frame start data }

def readFrame (frame length : Nat) : Routine Bytes := do
  pure (((← get).pool.content frame).take length)

def modifyRing (f : FrameRing → FrameRing) : Routine Unit :=
  modify fun m => { m with ring := f m.ring }

/-! ## The swap area -/

def setSwap (area : Swap.Area) : Routine Unit :=
  modify fun m => { m with swap := area }

def allocateSlot : Routine (Option Nat) :=
  withLock .swap do
    match (← get).swap.allocate? with
    | some (slot, area) =>
        setSwap area
        pure (some slot)
    | none => pure none

def releaseSlot (slot : Nat) : Routine Unit :=
  withLock .swap do
    let area ← ofAbort ((← get).swap.release slot)
    setSwap area

def writeSlot (slot : Nat) (page : Bytes) : Routine Unit := do
  let (result, area) := (← get).swap.write slot page
  setSwap area
  match result with
  | .ok () => pure ()
  | .error failure =>
      report? (Swap.Area.writeReport? slot failure)
      throw failure.stop

def readSlot (slot frame length : Nat) : Routine Unit := do
  let buffer ← readFrame frame length
  let (result, bytes, area) := (← get).swap.read slot buffer
  setSwap area
  writeFrame frame 0 bytes
  match result with
  | .ok () => pure ()
  | .error failure =>
      report? (Swap.Area.readReport? slot failure)
      throw failure.stop

/-! ## Files -/

def file (m : Machine) (f : Nat) : BackingFile :=
  m.files.getD f (.ofBytes [])

def setFile (f : Nat) (file : BackingFile) : Routine Unit :=
  modify fun m => { m with files := m.files.set f file }

def readFile (f offset count : Nat) : Routine (Option Bytes) := do
  let (data, after) := ((← get).file f).read offset count
  setFile f after
  pure data

def writeFile (page : Owner) (f : Nat) (offset : UInt64) (data : Bytes) :
    Routine (Option Nat) := do
  let (accepted, after) := ((← get).file f).write offset.toNat data
  setFile f after
  record (.wroteBack ⟨page, f, offset, data, accepted⟩)
  pure accepted

end Machine
end DemandPaging
