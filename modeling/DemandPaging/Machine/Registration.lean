import DemandPaging.Machine.Residency

/-!
# Registration

Which pages a process has. A page is registered at the address of its first byte; it stays
registered until it is removed, and a torn-down page table registers no page.
-/

namespace DemandPaging
namespace Machine

open Routine

/-! ## Registering -/

def withPage (m : Machine) (p : Nat) (page : Page) : Machine :=
  { m.modifyPages p fun pages => pages.insert page.va { page with id := m.nextId } with
    nextId := m.nextId + 1 }

def register (p : Nat) (page : Page) : Routine Page := do
  let m ← get
  require (!(m.process p).tornDown) .tornDown
  require (Word.isAligned page.va m.layout.pageSize) .invalidAddress
  require (!(m.process p).pages.contains page.va) .alreadyMapped
  set (m.withPage p page)
  pure { page with id := m.nextId }

def allocatePage (p : Nat) (type : PageClass) (va : Vaddr) (writable : Bool)
    (loader : Option Loader) : Routine Page := do
  let page ← ofStop (Page.create va writable type loader p (← get).layout.pageSize)
  register p page

/-! ## Removing -/

def takePage (p : Nat) (va : Vaddr) : Routine (Option Page) := do
  let page := (← get).page? p va
  modify fun m => m.modifyPages p fun pages => pages.erase va
  pure page

def dropPage (p : Nat) (va : Vaddr) : Routine Unit := do
  match ← takePage p va with
  | some page => releasePage p page
  | none => pure ()

def dropPages (p : Nat) : List Vaddr → Routine Unit
  | [] => pure ()
  | va :: rest => do
      dropPage p va
      dropPages p rest

def leaveMapping (p : Nat) (base va : Vaddr) : Routine Unit :=
  modify fun m => m.modifyMappings p fun mappings =>
    match mappings.get? base with
    | none => mappings
    | some mapping =>
        match mapping.without va with
        | some smaller => mappings.insert base smaller
        | none => mappings.erase base

/-- The base of the file mapping that a page belongs to, read under the lock of the page. -/
def mappingOf (p : Nat) (page : Page) : Routine (Option Vaddr) :=
  withLock (.page p page.va) (pure page.mapping)

def removePage (p : Nat) (va : Vaddr) : Routine Unit := do
  let page ← orFail .notMapped (← takePage p ((← get).pageBase va))
  match ← mappingOf p page with
  | some base => leaveMapping p base page.va
  | none => pure ()
  releasePage p page

def classAt (p : Nat) (va : Vaddr) : Routine (Option PageClass) := do
  match (← get).lookup p va with
  | some page => withLock (.page p page.va) (pure (some page.effectiveClass))
  | none => pure none

/-! ## Processes -/

/-- Releases the given pages, which are registered no longer. -/
def releasePages (p : Nat) : List Page → Routine Unit
  | [] => pure ()
  | page :: rest => do
      releasePage p page
      releasePages p rest

/-- Gives up all pages of a process, in the order of their addresses. No page is registered
afterwards, now or later. -/
def teardown (p : Nat) : Routine Unit := do
  let process := (← get).process p
  modify fun m => m.modifyPages p fun _ => .empty
  releasePages p process.pages.values
  modify fun m => m.modifyProcess p fun q => { q with mappings := .empty, tornDown := true }
  when (!process.tornDown) (report (.tornDown process.pages.size))

def endProcess (p : Nat) : Routine Unit := do
  teardown p
  modify fun m => m.modifyProcess p fun q => { q with ended := true }

def startProcess (accepting : Schedule Bool) : Routine Nat := do
  let m ← get
  set { m with processes := m.processes ++ [Process.new m.layout.pageSize accepting] }
  pure m.processes.length

end Machine
end DemandPaging
