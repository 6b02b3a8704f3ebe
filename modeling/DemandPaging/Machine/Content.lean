import DemandPaging.Machine.Devices

/-!
# Page content

How the content of a page gets into its frame and out of it again. `loadPage` fills the frame from
the loader, the slot or the file of the page, and `savePage` puts the content where a later load
finds it.
-/

namespace DemandPaging
namespace Machine

open Routine

def ownerOf (p : Nat) (page : Page) : Owner :=
  ⟨p, page.va, page.id⟩

/-! ## Extents of files -/

/-- Reads an extent into a frame of `length` bytes and zeroes the rest of it. -/
def readExtent (extent : FileExtent) (frame length : Nat) : Routine Unit := do
  let count := extent.readBytes.toNat
  require (count ≤ length) .invalidArgument
  let data ← orFail .ioError (← readFile extent.file extent.offset.toNat count)
  writeFrame frame 0 data
  if data.length = count then writeFrame frame count (Bytes.filled (length - count) 0)
  else refuse (.partialRead extent.offset.toNat count data.length) .shortRead

def writeBack (page : Owner) (extent : FileExtent) (bytes : Bytes) : Routine Unit := do
  let count := extent.readBytes.toNat
  if count = 0 then pure ()
  else
    ensure (count ≤ bytes.length) (.sliceTooLong count bytes.length)
    let accepted ←
      orFail .ioError (← writeFile page extent.file extent.offset (bytes.take count))
    if accepted = count then pure ()
    else refuse (.partialWrite extent.offset.toNat count accepted) .shortWrite

/-! ## Loading -/

/-- Zeroes the page and runs a custom loader on it. What it delivers never leaves the page. -/
def runCustom (loader : CustomLoader) (frame length : Nat) : Routine Unit := do
  writeFrame frame 0 (Bytes.filled length 0)
  let buffer ← readFrame frame length
  let earlier := (← get).loaderRuns loader.counter
  modify fun m => m.countRun loader.counter
  let (bytes, error) := loader.run earlier buffer
  writeFrame frame 0 (Bytes.overlay buffer 0 bytes)
  match error with
  | some e => fail e
  | none => pure ()

def loadOrigin (origin : Origin) (frame length : Nat) : Routine Unit :=
  match origin with
  | .anon none => writeFrame frame 0 (Bytes.filled length 0)
  | .anon (some (.file extent)) => readExtent extent frame length
  | .anon (some (.custom loader)) => runCustom loader frame length
  | .file extent => readExtent extent frame length

/-- Fills a frame with the content of a page in a given state. The answer is the state of the page
afterwards: it is initialised, and its slot, if it had one, is free. -/
def loadState (state : PageState) (frame length : Nat) : Routine PageState :=
  match state with
  | .uninit origin => do
      loadOrigin origin frame length
      pure origin.initialised
  | .anon (some slot) => do
      readSlot slot frame length
      releaseSlot slot
      pure (.anon none)
  | .anon none => do
      writeFrame frame 0 (Bytes.filled length 0)
      pure (.anon none)
  | .file extent => do
      readExtent extent frame length
      pure (.file extent)

/-- Fills the frame of a page. A page that cannot be loaded keeps its state. -/
def loadPage (p : Nat) (page : Page) (frame : Nat) : Routine Unit := do
  let state ← loadState page.state frame page.bytes
  updatePage p page.va fun q => { q with state := state }
  record (.filled (ownerOf p page) (page.stateClass == .uninit))

/-! ## Saving -/

/-- Writes the content of an anonymous page to a new slot. The slot is freed again when it cannot
be written. -/
def saveToSlot (bytes : Bytes) : Routine Nat := do
  let slot ← orFail .swapExhausted (← allocateSlot)
  match ← attempt (writeSlot slot bytes) with
  | .ok () => pure slot
  | .error e =>
      releaseSlot slot
      fail e

/-- Saves the content of a page. A file page needs saving only when it is dirty. The answer is the
state of the page without its frame. -/
def savePage (owner : Owner) (state : PageState) (bytes : Bytes) (dirty : Bool) :
    Routine PageState :=
  match state with
  | .uninit _ => fail .unsupportedType
  | .anon _ => do
      let slot ← saveToSlot bytes
      pure (.anon (some slot))
  | .file extent => do
      when dirty (writeBack owner extent bytes)
      pure (.file extent)

end Machine
end DemandPaging
