import DemandPaging.Bytes
import DemandPaging.Failure
import DemandPaging.Schedule

/-!
# Frame pools

The physical memory for user pages: frames of one page each, numbered from zero. Free frames form
a stack, so the frame returned last is handed out next. A frame that is handed out holds whatever
the pool left in it; `residue` says what, and no program may depend on it.
-/

namespace DemandPaging

structure FramePool where
  pageBytes : Nat
  frames : List Bytes
  /-- The frames to hand out, the next one first. -/
  free : List Nat
  given : Nat
  /-- Which requests are granted. -/
  granting : Schedule Bool
  /-- The bytes found in the frame that is handed out by a given request. -/
  residue : Nat → Nat → UInt8

namespace FramePool

/-- A pool of `count` free frames, which grants requests as the schedule says and finds `residue`
in the frames that it hands out. -/
def new (count pageBytes : Nat) (granting : Schedule Bool) (residue : Nat → Nat → UInt8) :
    FramePool where
  pageBytes := pageBytes
  frames := List.replicate count (Bytes.filled pageBytes 0)
  free := List.range count
  given := 0
  granting := granting
  residue := residue

def capacity (p : FramePool) : Nat :=
  p.frames.length

def inUse (p : FramePool) : Nat :=
  p.capacity - p.free.length

def content (p : FramePool) (frame : Nat) : Bytes :=
  p.frames.getD frame []

def setContent (p : FramePool) (frame : Nat) (content : Bytes) : FramePool :=
  { p with frames := p.frames.set frame content }

def take (p : FramePool) : Option Nat × FramePool :=
  let asked := { p with granting := p.granting.advance }
  if p.granting.peek then
    match p.free with
    | frame :: rest =>
        let found := (List.range p.pageBytes).map (p.residue p.given)
        (some frame, { asked.setContent frame found with free := rest, given := p.given + 1 })
    | [] => (none, asked)
  else (none, asked)

def giveBack (p : FramePool) (frame : Nat) : Except Abort FramePool :=
  if frame ∈ p.free then .error (.frameFreedTwice frame)
  else .ok { p with free := frame :: p.free }

def write (p : FramePool) (frame start : Nat) (data : Bytes) : FramePool :=
  p.setContent frame (Bytes.overlay (p.content frame) start data)

end FramePool
end DemandPaging
