import DemandPaging.Machine.Eviction

/-!
# Residency

A page becomes resident when it is claimed: it gets a frame, its mapping and its content, or, if
one of them cannot be had, none of them. A page that is given up is released: its changes go to
its file, its slot and its frame become free.
-/

namespace DemandPaging
namespace Machine

open Routine

/-! ## Claiming -/

def attachFrame (p : Nat) (page : Page) (frame : Nat) : Routine Unit := do
  let registered := (← get).page? p page.va
  ensure (!registered.any Page.isResident) (.secondFrame page.va)
  updatePage p page.va fun q => { q with frame := some frame }

def detachFrame (p : Nat) (page : Page) : Routine Unit :=
  updatePage p page.va fun q => { q with frame := none }

def mapAndLoad (p : Nat) (page : Page) (frame : Nat) : Routine Unit := do
  require (← mapPage p page.va frame page.writable) .mappingFailed
  loadPage p page frame

/-- Takes the mapping and the frame of a page away that could not be loaded. -/
def undoClaim (p : Nat) (page : Page) (frame : Nat) : Routine Unit := do
  let _ ← unmapPage p page.va
  detachFrame p page
  freeFrame frame

def makeResident (p : Nat) (page : Page) : Routine Unit := do
  let frame ← allocateFrame (ownerOf p page)
  attachFrame p page frame
  match ← attempt (mapAndLoad p page frame) with
  | .ok () =>
      unpinFrame frame
      report (.claimed page.va frame)
  | .error e =>
      undoClaim p page frame
      refuse (.claimFailed page.va e) e

/-- Makes the page registered at an address resident. A resident page is left alone. -/
def claim (p : Nat) (va : Vaddr) : Routine Unit :=
  withLock (.page p va) do
    let page ← orFail .notMapped ((← get).page? p va)
    when (!page.isResident) (makeResident p page)

def claimPage (p : Nat) (va : Vaddr) : Routine Unit := do
  let page ← orFail .notMapped ((← get).lookup p va)
  claim p page.va

/-! ## Releasing -/

/-- Writes the changes to a page that is given up back to its file. If the file does not take
them, they are lost. -/
def saveChanges (p : Nat) (page : Page) (extent : FileExtent) (frame : Nat) : Routine Unit := do
  let bytes ← readFrame frame page.bytes
  match ← attempt (writeBack (ownerOf p page) extent bytes) with
  | .ok () => pure ()
  | .error e => report (.writeBackFailed page.va e)

/-- Gives up what a page keeps outside its frame: an anonymous page its slot, a dirty resident
file page its changes, which go to the file. -/
def releaseBacking (p : Nat) (page : Page) (dirty : Bool) : Routine Unit :=
  match page.state, page.frame with
  | .anon (some slot), _ => releaseSlot slot
  | .file extent, some frame => when dirty (saveChanges p page extent frame)
  | _, _ => pure ()

def unmapResident (p : Nat) (page : Page) : Routine Bool :=
  if page.isResident then unmapPage p page.va else pure false

/-- Gives up a page that is no longer registered: its mapping, its backing and its frame. -/
def releasePage (p : Nat) (page : Page) : Routine Unit :=
  withLock (.page p page.va) do
    let dirty ← unmapResident p page
    releaseBacking p page dirty
    match page.frame with
    | some frame =>
        let bytes ← readFrame frame page.bytes
        record (.parted (ownerOf p page) page.state.extent bytes false)
        freeFrame frame
    | none => pure ()

end Machine
end DemandPaging
