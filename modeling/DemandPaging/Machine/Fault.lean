import DemandPaging.Machine.Registration

/-!
# Page faults

A fault is resolved by claiming the page that contains its address, or, close to the stack pointer
in the stack region, by growing the stack by one page. Any other fault is an access that the
process must not make.
-/

namespace DemandPaging

/-! ## Faults -/

structure FaultCause where
  /-- The page is not mapped; otherwise the access is one that its mapping forbids. -/
  notPresent : Bool
  write : Bool
  /-- The access was made in user mode. -/
  user : Bool
  deriving DecidableEq, Repr

structure Fault where
  va : Vaddr
  cause : FaultCause
  /-- The user stack pointer at the time of the fault. -/
  stackPointer : Vaddr
  deriving DecidableEq, Repr

namespace Fault

def inUserSpace (l : Layout) (f : Fault) : Bool :=
  f.va != 0 && decide (f.va < l.userLimit)

/-- Whether the fault is an access to the stack: one in user mode, in the stack region, and not
further below the stack pointer than the slack allows. -/
def touchesStack (l : Layout) (f : Fault) : Bool :=
  f.cause.user && decide (f.va < l.userStackTop) && decide (l.stackFloor ≤ f.va) &&
    decide (Word.saturatingSub f.stackPointer l.stackSlack ≤ f.va)

end Fault

namespace Machine

open Routine

/-! ## Resolving faults -/

def stackPage (l : Layout) (p : Nat) (va : Vaddr) : Except Stop Page :=
  (Page.create va true .anon none p l.pageSize).map fun page => { page with isStack := true }

/-- Grows the stack by the page at an address, which becomes resident. If that fails, the page is
removed. -/
def growStack (p : Nat) (va : Vaddr) : Routine Unit := do
  let page ← ofStop (stackPage (← get).layout p va)
  let _ ← register p page
  match ← attempt (claim p va) with
  | .ok () => report (.stackGrown va)
  | .error e =>
      let _ ← attempt (removePage p va)
      fail e

/-- Whether a write to a page is forbidden, read under the lock of the page. -/
def forbidsWrite (p : Nat) (page : Page) (cause : FaultCause) : Routine Bool :=
  if cause.write then withLock (.page p page.va) (pure (!page.writable)) else pure false

def resolveAtPage (p : Nat) (page : Page) (f : Fault) : Routine Unit := do
  if ← forbidsWrite p page f.cause then refuse (.faultReadOnly f.va) .permissionDenied
  else claim p page.va

def resolveFault (p : Nat) (f : Fault) : Routine Unit := do
  let m ← get
  if !f.inUserSpace m.layout then refuse (.faultOutside f.va) .invalidAddress
  else if !f.cause.notPresent then refuse (.faultProtected f.va) .permissionDenied
  else
    match m.lookup p f.va with
    | some page => resolveAtPage p page f
    | none =>
        if f.touchesStack m.layout then growStack p (m.pageBase f.va)
        else refuse (.faultUnmapped f.va) .notMapped

end Machine
end DemandPaging
