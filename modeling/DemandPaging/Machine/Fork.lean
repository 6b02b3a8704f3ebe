import DemandPaging.Machine.Registration

/-!
# Forks

A fork copies the pages of one process to another, in the order of their addresses. A page that is
resident or in a slot is copied with its content, at once, to a frame of its own; any other page
is copied as a description. The first failure ends the fork, and what was copied until then stays.
-/

namespace DemandPaging
namespace Machine

open Routine

/-! ## Copying one page -/

def mapCopy (p : Nat) (copy : Page) (frame : Nat) (dirty : Bool) : Routine Unit := do
  attachFrame p copy frame
  if ← mapPage p copy.va frame copy.writable then
    when dirty (setDirty p copy.va true)
    unpinFrame frame
    record (.cloned (ownerOf p copy) dirty)
  else
    detachFrame p copy
    freeFrame frame
    fail .mappingFailed

def placeCopy (p : Nat) (copy : Page) (dirty : Bool) (fill : Nat → Routine Unit) :
    Routine Unit :=
  withLock (.page p copy.va) do
    let frame ← allocateFrame (ownerOf p copy)
    match ← attempt (fill frame) with
    | .ok () => mapCopy p copy frame dirty
    | .error e =>
        freeFrame frame
        fail e

def copyContent (source target : Nat) (page copy : Page) : Routine Unit := do
  match page.frame, page.slot with
  | some frame, _ =>
      let dirty := ((← get).process source).mmu.isDirty page.va
      let bytes ← readFrame frame page.bytes
      placeCopy target copy dirty fun place => writeFrame place 0 bytes
  | none, some slot => placeCopy target copy false fun place => readSlot slot place copy.bytes
  | none, none => pure ()

def copyPage (source target : Nat) (page : Page) : Routine Unit := do
  let copy ← register target (page.copyFor target)
  copyContent source target page copy

/-! ## Copying a process -/

def copyPages (source target : Nat) : List Vaddr → Routine Unit
  | [] => pure ()
  | va :: rest => do
      withLock (.page source va) do
        match (← get).page? source va with
        | some page => copyPage source target page
        | none => pure ()
      copyPages source target rest

/-- The file mappings of one process, with those of another in their stead where both have the
base. -/
def mergeMappings (mappings : AddressMap FileMapping) :
    List (Vaddr × FileMapping) → AddressMap FileMapping
  | [] => mappings
  | (base, mapping) :: rest => mergeMappings (mappings.insert base mapping) rest

/-- Copies all pages and file mappings of the process `source` to the process `target`. -/
def fork (source target : Nat) : Routine Unit := do
  let m ← get
  require (!(m.process target).tornDown) .tornDown
  copyPages source target (m.process source).pages.keys
  modify fun m => m.modifyMappings target fun mappings =>
    mergeMappings mappings (m.process source).mappings.entries
  report (.copied (m.process source).pages.size)

end Machine
end DemandPaging
