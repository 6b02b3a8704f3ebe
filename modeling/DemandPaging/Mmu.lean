import DemandPaging.AddressMap
import DemandPaging.Failure
import DemandPaging.Schedule

/-!
# Memory management units

Each process has a memory management unit, which maps user pages to frames. The unit sets the
accessed and dirty bits of an entry when the user reads or writes; the program reads and clears
them. It may refuse any new mapping.
-/

namespace DemandPaging

structure PageEntry where
  frame : Nat
  writable : Bool
  dirty : Bool
  accessed : Bool
  deriving DecidableEq, Repr

structure Mmu where
  pageSize : UInt64
  entries : AddressMap PageEntry
  /-- Whether every mapping is refused. -/
  refusing : Bool
  /-- Which calls for a mapping are let through. -/
  accepting : Schedule Bool

namespace Mmu

def new (pageSize : UInt64) (accepting : Schedule Bool) : Mmu where
  pageSize := pageSize
  entries := .empty
  refusing := false
  accepting := accepting

def mapped? (m : Mmu) (va : Vaddr) : Option PageEntry :=
  m.entries.get? va

/-- Maps the page at `va` to a frame. The answer is whether the mapping was accepted; a page that
is mapped already is not mapped again. -/
def map (m : Mmu) (va : Vaddr) (frame : Nat) (writable : Bool) : Except Abort Bool × Mmu :=
  let called := { m with accepting := m.accepting.advance }
  if !m.accepting.peek then (.ok false, called)
  else if va % m.pageSize ≠ 0 then (.error (.unalignedMapping va), called)
  else if m.refusing || m.entries.contains va then (.ok false, called)
  else
    (.ok true, { called with entries := m.entries.insert va ⟨frame, writable, false, false⟩ })

/-- Takes the mapping of a page away. The answer is the dirty bit of the mapping. -/
def unmap (m : Mmu) (va : Vaddr) : Bool × Mmu :=
  ((m.mapped? va).any PageEntry.dirty, { m with entries := m.entries.erase va })

def isDirty (m : Mmu) (va : Vaddr) : Bool :=
  (m.mapped? va).any PageEntry.dirty

def isAccessed (m : Mmu) (va : Vaddr) : Bool :=
  (m.mapped? va).any PageEntry.accessed

def setDirty (m : Mmu) (va : Vaddr) (dirty : Bool) : Mmu :=
  { m with entries := m.entries.modify va fun e => { e with dirty := dirty } }

def setAccessed (m : Mmu) (va : Vaddr) (accessed : Bool) : Mmu :=
  { m with entries := m.entries.modify va fun e => { e with accessed := accessed } }

def translate (m : Mmu) (va : Vaddr) : Option (Nat × UInt64) :=
  let offset := va % m.pageSize
  (m.mapped? (va - offset)).map fun e => (e.frame, offset)

end Mmu
end DemandPaging
