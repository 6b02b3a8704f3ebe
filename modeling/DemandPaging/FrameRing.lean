import DemandPaging.Word

/-!
# Frame rings

The frames that pages hold, as a ring in the order in which they were handed out, with a hand
that points to the next candidate for eviction. The hand may stand behind the last entry, which
means the first one.
-/

namespace DemandPaging

/-- The page that a frame was handed out for: where it was registered, and which page it was. -/
structure Owner where
  process : Nat
  va : Vaddr
  id : Nat
  deriving DecidableEq, Repr

structure RingEntry where
  frame : Nat
  owner : Owner
  /-- Whether the frame is being filled and must not be evicted. -/
  pinned : Bool
  deriving DecidableEq, Repr

structure FrameRing where
  entries : List RingEntry
  /-- The place of the next candidate. -/
  hand : Nat
  evictions : Nat
  deriving DecidableEq, Repr

namespace FrameRing

def empty : FrameRing :=
  ⟨[], 0, 0⟩

def position? (r : FrameRing) (frame : Nat) : Option Nat :=
  r.entries.findIdx? fun e => e.frame == frame

/-- The place of the next candidate, with the hand at the end meaning the first entry. -/
def candidate (r : FrameRing) : Nat :=
  if r.entries.length ≤ r.hand then 0 else r.hand

def advance (r : FrameRing) : FrameRing :=
  { r with hand := r.candidate + 1 }

def push (r : FrameRing) (e : RingEntry) : FrameRing :=
  { r with entries := r.entries ++ [e] }

/-- Removes the entry at a place. The hand keeps pointing to the same candidate. -/
def removeAt (r : FrameRing) (place : Nat) : FrameRing :=
  { r with
    entries := r.entries.eraseIdx place
    hand := if place < r.hand then r.hand - 1 else r.hand }

def unpin (r : FrameRing) (frame : Nat) : FrameRing :=
  match r.position? frame with
  | some place => { r with entries := r.entries.modify place fun e => { e with pinned := false } }
  | none => r

def countEviction (r : FrameRing) : FrameRing :=
  { r with evictions := r.evictions + 1 }

def pinnedCount (r : FrameRing) : Nat :=
  r.entries.countP RingEntry.pinned

end FrameRing
end DemandPaging
