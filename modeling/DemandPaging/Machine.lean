import DemandPaging.BackingFile
import DemandPaging.Config
import DemandPaging.FramePool
import DemandPaging.FrameRing
import DemandPaging.Mmu.Access
import DemandPaging.Page
import DemandPaging.Swap.Area

/-!
# The machine

The whole state of the memory manager: the frames and their ring, the swap area, the files, and
the pages of each process. `Machine.page?` and `Machine.mapped?` are the views through which the
state is read; the trace records, in order, the messages, the use of locks and the movements of
page content.
-/

namespace DemandPaging

/-- The pages that one mapping of a file made and that still exist. -/
structure FileMapping where
  base : Vaddr
  /-- The number of bytes that were asked for. -/
  length : UInt64
  members : List Vaddr
  deriving DecidableEq, Repr

/-- A file mapping without one of its pages, unless that was the last one. -/
def FileMapping.without (mapping : FileMapping) (va : Vaddr) : Option FileMapping :=
  let remaining := mapping.members.filter fun member => member != va
  if remaining.isEmpty then none else some { mapping with members := remaining }

structure Process where
  pages : AddressMap Page
  /-- The file mappings by their base. -/
  mappings : AddressMap FileMapping
  /-- Whether the page table accepts no more pages. -/
  tornDown : Bool
  ended : Bool
  mmu : Mmu

namespace Process

def new (pageSize : UInt64) (accepting : Schedule Bool) : Process where
  pages := .empty
  mappings := .empty
  tornDown := false
  ended := false
  mmu := .new pageSize accepting

/-- What stands for a process that never was. -/
def absent : Process where
  pages := .empty
  mappings := .empty
  tornDown := true
  ended := true
  mmu := .new 1 (.always false)

end Process

structure FileWrite where
  page : Owner
  file : Nat
  offset : UInt64
  data : Bytes
  /-- The number of bytes that the file accepted, unless it refused the call. -/
  accepted : Option Nat
  deriving DecidableEq, Repr

inductive Event where
  | reported (message : Message)
  /-- A lock was acquired by a requester that would have waited for it. -/
  | acquired (lock : Lock)
  /-- A lock was acquired that was asked for without waiting. -/
  | seized (lock : Lock)
  | released (lock : Lock)
  /-- A lock was held when it was asked for without waiting. -/
  | contended (lock : Lock)
  /-- A page got its content, for the first time or again. -/
  | filled (page : Owner) (first : Bool)
  /-- A page got the content of the page that it is a copy of. -/
  | cloned (page : Owner) (dirty : Bool)
  /-- The user wrote a number of bytes. -/
  | stored (process : Nat) (va : Vaddr) (count : Nat)
  /-- A page was written back to its file, or the file refused. -/
  | wroteBack (write : FileWrite)
  /-- A page gave up its frame, which held the given bytes. It was evicted or else removed. -/
  | parted (page : Owner) (extent : Option FileExtent) (content : Bytes) (evicted : Bool)
  /-- A page that could not be saved was not mapped again. -/
  | stranded (page : Owner)
  deriving DecidableEq, Repr

/-- The state of the memory manager. -/
structure Machine where
  layout : Layout
  pool : FramePool
  ring : FrameRing
  swap : Swap.Area
  files : List BackingFile
  /-- How often each custom loader was run. -/
  loaderRuns : Nat → Nat
  processes : List Process
  /-- The number that the next page gets. -/
  nextId : Nat
  held : List Lock
  /-- What happened, the latest first. -/
  trace : List Event

namespace Machine

/-! ## Views -/

def process (m : Machine) (p : Nat) : Process :=
  m.processes.getD p .absent

def page? (m : Machine) (p : Nat) (va : Vaddr) : Option Page :=
  (m.process p).pages.get? va

def mapped? (m : Machine) (p : Nat) (va : Vaddr) : Option PageEntry :=
  (m.process p).mmu.mapped? va

/-- The page for which a frame was handed out, if it still exists. -/
def ownedPage? (m : Machine) (o : Owner) : Option Page :=
  (m.page? o.process o.va).filter fun page => page.id == o.id

def pageBase (m : Machine) (va : Vaddr) : Vaddr :=
  Word.alignDown va m.layout.pageSize

def lookup (m : Machine) (p : Nat) (va : Vaddr) : Option Page :=
  m.page? p (m.pageBase va)

def contains (m : Machine) (p : Nat) (va : Vaddr) : Bool :=
  (m.process p).pages.contains (m.pageBase va)

def log (m : Machine) : List Message :=
  m.trace.reverse.filterMap fun event =>
    match event with
    | .reported message => some message
    | _ => none

/-! ## Changes to one part -/

def modifyProcess (m : Machine) (p : Nat) (f : Process → Process) : Machine :=
  { m with processes := m.processes.modify p f }

def modifyPages (m : Machine) (p : Nat) (f : AddressMap Page → AddressMap Page) : Machine :=
  m.modifyProcess p fun process => { process with pages := f process.pages }

def modifyMappings (m : Machine) (p : Nat)
    (f : AddressMap FileMapping → AddressMap FileMapping) : Machine :=
  m.modifyProcess p fun process => { process with mappings := f process.mappings }

def modifyMmu (m : Machine) (p : Nat) (f : Mmu → Mmu) : Machine :=
  m.modifyProcess p fun process => { process with mmu := f process.mmu }

def modifyPage (m : Machine) (p : Nat) (va : Vaddr) (f : Page → Page) : Machine :=
  m.modifyPages p fun pages => pages.modify va f

def countRun (m : Machine) (counter : Nat) : Machine :=
  { m with loaderRuns := fun c => if c = counter then m.loaderRuns c + 1 else m.loaderRuns c }

def recorded (m : Machine) (event : Event) : Machine :=
  { m with trace := event :: m.trace }

/-! ## Laws of the views -/

theorem process_modifyProcess (m : Machine) (p q : Nat) (f : Process → Process)
    (hp : p < m.processes.length) :
    (m.modifyProcess p f).process q = if q = p then f (m.process q) else m.process q := by
  unfold process modifyProcess
  simp only [List.getD_eq_getElem?_getD, List.getElem?_modify]
  by_cases h : q = p
  · subst h
    simp [List.getElem?_eq_getElem hp]
  · have hne : ¬p = q := fun heq => h heq.symm
    simp [hne, h]

theorem process_eq_absent {m : Machine} {p : Nat} (h : m.processes.length ≤ p) :
    m.process p = .absent := by
  simp [process, List.getD_eq_getElem?_getD, List.getElem?_eq_none h]

theorem page?_modifyPage (m : Machine) (p q : Nat) (va wa : Vaddr) (f : Page → Page) :
    (m.modifyPage p va f).page? q wa =
      if q = p ∧ wa = va then (m.page? q wa).map f else m.page? q wa := by
  by_cases hp : p < m.processes.length
  · unfold modifyPage modifyPages page?
    rw [process_modifyProcess m p q _ hp]
    by_cases hq : q = p
    · subst hq
      simp only [if_true, true_and]
      exact AddressMap.get?_modify _ va wa f
    · simp [hq]
  · have hsame : m.modifyPage p va f = m := by
      unfold modifyPage modifyPages modifyProcess
      rw [List.modify_eq_self (by omega)]
    rw [hsame]
    split
    · rename_i h
      unfold page?
      rw [process_eq_absent (by omega)]
      rfl
    · rfl

theorem mapped?_modifyPage (m : Machine) (p q : Nat) (va wa : Vaddr) (f : Page → Page) :
    (m.modifyPage p va f).mapped? q wa = m.mapped? q wa := by
  unfold modifyPage modifyPages mapped?
  by_cases hp : p < m.processes.length
  · rw [process_modifyProcess m p q _ hp]
    split <;> rfl
  · unfold modifyProcess
    rw [List.modify_eq_self (by omega)]

end Machine
end DemandPaging
