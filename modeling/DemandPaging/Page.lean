import DemandPaging.Bytes
import DemandPaging.Failure

/-!
# Pages

A page says what a user virtual page is to hold. It starts uninitialised and becomes anonymous or
file-backed when its content is first loaded; after that it moves between its frame and its
backing, which is a swap slot or a file.
-/

namespace DemandPaging

inductive PageClass where
  | uninit
  | anon
  | file
  /-- Reserved; no page of this class can be made. -/
  | cache
  deriving DecidableEq, Repr

/-- The part of a file that a page holds: `readBytes` bytes from `offset` on, then zeros. -/
structure FileExtent where
  file : Nat
  offset : UInt64
  readBytes : UInt64
  zeroBytes : UInt64
  deriving DecidableEq, Repr

/-- A function that fills a page. It is given the number of its earlier runs and the zeroed page,
and it delivers the content of the page and perhaps an error. -/
structure CustomLoader where
  /-- The counter of the runs; copies of the loader share it. -/
  counter : Nat
  run : Nat → Bytes → Bytes × Option PagingError

namespace CustomLoader

/-- The loader that lays `data` over the page. It fails with `error` in its first `times` runs,
or in all of them when there is no limit. -/
def constant (counter : Nat) (data : Bytes) (error : Option PagingError)
    (times : Option Nat) : CustomLoader where
  counter := counter
  run earlier page :=
    let failing := match times with
      | some limit => decide (earlier < limit)
      | none => true
    (Bytes.overlay page 0 data, if failing then error else none)

end CustomLoader

inductive Loader where
  | file (extent : FileExtent)
  | custom (loader : CustomLoader)

/-- What an uninitialised page is to become. -/
inductive Origin where
  /-- An anonymous page, zeroed unless there is a loader. -/
  | anon (loader : Option Loader)
  | file (extent : FileExtent)

inductive PageState where
  | uninit (origin : Origin)
  /-- An anonymous page; evicted, it may have a slot. -/
  | anon (slot : Option Nat)
  | file (extent : FileExtent)

namespace Origin

def target : Origin → PageClass
  | anon _ => .anon
  | file _ => .file

def initialised : Origin → PageState
  | anon _ => .anon none
  | file extent => .file extent

end Origin

namespace PageState

def ownClass : PageState → PageClass
  | uninit _ => .uninit
  | anon _ => .anon
  | file _ => .file

def effectiveClass : PageState → PageClass
  | uninit origin => origin.target
  | anon _ => .anon
  | file _ => .file

def slot : PageState → Option Nat
  | anon slot => slot
  | _ => none

def extent : PageState → Option FileExtent
  | file extent => some extent
  | _ => none

/-- The state of a copy: the description of the content goes along, a slot does not. -/
def copied : PageState → PageState
  | anon _ => .anon none
  | state => state

end PageState

structure Page where
  /-- Distinguishes the page from all others that ever existed. -/
  id : Nat
  va : Vaddr
  writable : Bool
  isStack : Bool
  /-- The frame of a resident page. -/
  frame : Option Nat
  /-- The base of the file mapping that the page belongs to. -/
  mapping : Option Vaddr
  /-- The process whose memory management unit maps the page. -/
  mmu : Nat
  pageSize : UInt64
  state : PageState

namespace Page

/-- What the state of a new page is to become. A page of a file needs the extent of that file. -/
def originOf (type : PageClass) (loader : Option Loader) : Except PagingError Origin :=
  match type, loader with
  | .anon, loader => .ok (.anon loader)
  | .file, some (.file extent) => .ok (.file extent)
  | .file, _ => .error .invalidArgument
  | .uninit, _ => .error .invalidArgument
  | .cache, _ => .error .unsupportedType

def create (va : Vaddr) (writable : Bool) (type : PageClass) (loader : Option Loader)
    (mmu : Nat) (pageSize : UInt64) : Except Stop Page :=
  match Word.isAlignedOrAbort va pageSize with
  | .error a => .error (.aborted a)
  | .ok false => .error (.failed .invalidAddress)
  | .ok true =>
      match originOf type loader with
      | .error e => .error (.failed e)
      | .ok origin =>
          .ok {
            id := 0
            va := va
            writable := writable
            isStack := false
            frame := none
            mapping := none
            mmu := mmu
            pageSize := pageSize
            state := .uninit origin }

def isResident (p : Page) : Bool :=
  p.frame.isSome

def bytes (p : Page) : Nat :=
  p.pageSize.toNat

def stateClass (p : Page) : PageClass :=
  p.state.ownClass

def effectiveClass (p : Page) : PageClass :=
  p.state.effectiveClass

def slot (p : Page) : Option Nat :=
  p.state.slot

/-- The copy of a page for another process, without a frame. -/
def copyFor (p : Page) (mmu : Nat) : Page :=
  { p with frame := none, mmu := mmu, state := p.state.copied }

end Page
end DemandPaging
