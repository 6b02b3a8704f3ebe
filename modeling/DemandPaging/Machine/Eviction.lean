import DemandPaging.Machine.Content

/-!
# Eviction

When the pool has no free frame, a page must give up its frame. The hand goes round the ring of
frames at most twice. It passes over pinned frames, over pages whose lock is held and over pages
that were accessed since its last visit, whose accessed bit it clears; it takes the frame of the
first other page that can be saved. A frame whose owner is gone is taken at once.
-/

namespace DemandPaging
namespace Machine

open Routine

/-! ## Taking the frame of a page -/

def secondChance (page : Page) : Routine Bool := do
  let accessed := ((← get).process page.mmu).mmu.isAccessed page.va
  when accessed (setAccessed page.mmu page.va false)
  pure accessed

def restoreMapping (owner : Owner) (page : Page) (frame : Nat) (dirty : Bool) : Routine Unit := do
  if ← mapPage page.mmu page.va frame page.writable then
    when dirty (setDirty page.mmu page.va true)
  else record (.stranded owner)

/-- Unmaps a page, saves its content and takes its frame. A page that cannot be saved is mapped
again and keeps its frame. -/
def pageOut (owner : Owner) (page : Page) : Routine Nat := do
  let frame ← orFail .notMapped page.frame
  let dirty ← unmapPage page.mmu page.va
  let bytes ← readFrame frame page.bytes
  match ← attempt (savePage owner page.state bytes dirty) with
  | .ok state =>
      updatePage owner.process owner.va fun q => { q with state := state, frame := none }
      record (.parted owner page.state.extent bytes true)
      pure frame
  | .error e =>
      restoreMapping owner page frame dirty
      fail e

/-! ## The clock -/

def evictPage (place : Nat) (entry : RingEntry) (page : Page) : Routine (Option Nat) := do
  match ← attempt (pageOut entry.owner page) with
  | .ok frame =>
      ensure (frame == entry.frame) .disagreement
      modifyRing fun ring => (ring.removeAt place).countEviction
      report (.evicted page.va entry.frame)
      pure (some frame)
  | .error e =>
      report (.evictionFailed page.va e)
      pure none

def evictUnlessAccessed (place : Nat) (entry : RingEntry) (page : Page) :
    Routine (Option Nat) := do
  if ← secondChance page then pure none else evictPage place entry page

def evictEntry (place : Nat) (entry : RingEntry) : Routine (Option Nat) := do
  if entry.pinned then pure none
  else
    match (← get).ownedPage? entry.owner with
    | none =>
        modifyRing fun ring => ring.removeAt place
        pure (some entry.frame)
    | some page =>
        withFreeLock (.page entry.owner.process entry.owner.va)
          (evictUnlessAccessed place entry page)

/-- Visits the given number of candidates until one gives up its frame. -/
def sweep : Nat → Routine Nat
  | 0 => abort .framesExhausted
  | visits + 1 => do
      let ring := (← get).ring
      match ring.entries[ring.candidate]? with
      | none => abort .framesExhausted
      | some entry =>
          modifyRing FrameRing.advance
          match ← evictEntry ring.candidate entry with
          | some frame => pure frame
          | none => sweep visits

/-- Takes a frame from its owner. The ring is gone round at most twice. -/
def evict : Routine Nat := do
  sweep (2 * (← get).ring.entries.length)

/-! ## Handing frames out and taking them back -/

/-- A frame of the pool or, when the pool has none to give, one taken from its owner. -/
def obtainFrame : Routine Nat := do
  match ← takeFromPool with
  | some frame => pure frame
  | none => evict

/-- Hands a frame out to an owner. The frame is pinned until its content is complete. -/
def allocateFrame (owner : Owner) : Routine Nat :=
  withLock .ring do
    let frame ← obtainFrame
    modifyRing fun ring => ring.push ⟨frame, owner, true⟩
    pure frame

def unpinFrame (frame : Nat) : Routine Unit :=
  withLock .ring (modifyRing fun ring => ring.unpin frame)

def unlistFrame (frame : Nat) : Routine Unit := do
  match (← get).ring.position? frame with
  | some place => modifyRing fun ring => ring.removeAt place
  | none => report (.unlistedFrame frame)

def freeFrame (frame : Nat) : Routine Unit := do
  withLock .ring (unlistFrame frame)
  returnToPool frame

end Machine
end DemandPaging
