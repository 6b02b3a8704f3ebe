import DemandPaging.Machine.Registration

/-!
# File mappings

A file mapping makes a range of pages that hold consecutive extents of a file. It only registers
the pages; each is read when it is first accessed. All pages of a mapping are taken away together.
-/

namespace DemandPaging

/-! ## The range and the extents of a mapping -/

namespace Layout

/-- The end of a file mapping, if its range may be mapped: a whole number of pages in user space,
clear of the stack region. -/
def mappingEnd (l : Layout) (start : Vaddr) (length : UInt64) : Option Vaddr :=
  match (Word.checkedAdd start length).bind fun last => Word.alignUp? last l.pageSize with
  | none => none
  | some stop =>
      if l.userLimit < stop then none
      else if start < l.userStackTop ∧ l.stackFloor < stop then none
      else some stop

def pagesFrom (l : Layout) (start : Vaddr) (count : Nat) : List Vaddr :=
  (List.range count).map fun i => start + UInt64.ofNat i * l.pageSize

/-- The extent of page number `index` of a mapping that starts at a file offset, when `remaining`
bytes of the file are left. -/
def mappedExtent (l : Layout) (file : Nat) (offset : UInt64) (index : Nat) (remaining : UInt64) :
    Except Abort FileExtent :=
  (Word.addOrAbort offset (UInt64.ofNat index * l.pageSize)).map fun start =>
    let count := min remaining l.pageSize
    ⟨file, start, count, l.pageSize - count⟩

end Layout

def BackingFile.mappedBytes (file : BackingFile) (length offset : UInt64) : UInt64 :=
  min length (Word.saturatingSub file.length offset)

namespace Machine

open Routine

/-! ## Mapping -/

def mappedPage (l : Layout) (p : Nat) (base va : Vaddr) (writable : Bool) (extent : FileExtent) :
    Except Stop Page :=
  (Page.create va writable .file (some (.file extent)) p l.pageSize).map fun page =>
    { page with mapping := some base }

/-- Registers `count` pages from `va` on, the first with the number `index` in the mapping of
`base`. The answer is how many were registered, with the error that ended it early. -/
def registerMapped (p : Nat) (base : Vaddr) (writable : Bool) (file : Nat) (offset : UInt64) :
    Nat → Nat → Vaddr → UInt64 → Routine (Nat × Option PagingError)
  | 0, index, _, _ => pure (index, none)
  | count + 1, index, va, remaining => do
      let l := (← get).layout
      let extent ← ofAbort (l.mappedExtent file offset index remaining)
      let page ← ofStop (mappedPage l p base va writable extent)
      match ← attempt (register p page) with
      | .error e => pure (index, some e)
      | .ok _ =>
          registerMapped p base writable file offset count (index + 1) (va + l.pageSize)
            (remaining - extent.readBytes)

/-- Registers the pages of a mapping from `start` to `stop`, or none of them. -/
def registerRange (p : Nat) (start stop : Vaddr) (length : UInt64) (writable : Bool) (f : Nat)
    (offset : UInt64) : Routine Unit := do
  let m ← get
  let count := (stop - start).toNat / m.layout.pageBytes
  let (registered, failure) ← registerMapped p start writable f offset count 0 start
    ((m.file f).mappedBytes length offset)
  match failure with
  | some e =>
      dropPages p (m.layout.pagesFrom start registered)
      fail e
  | none =>
      report (.mapped start stop offset)
      modify fun m => m.modifyMappings p fun mappings =>
        mappings.insert start ⟨start, length, m.layout.pagesFrom start count⟩

def mapFile (p : Nat) (start : Vaddr) (length : UInt64) (writable : Bool) (f : Nat)
    (offset : UInt64) : Routine Vaddr := do
  let m ← get
  let l := m.layout
  require (start != 0 && Word.isAligned start l.pageSize) .invalidAddress
  require (length != 0 && offset % l.pageSize == 0 && !(m.file f).isEmpty) .invalidArgument
  let stop ← orFail .invalidAddress (l.mappingEnd start length)
  require (!(m.process p).pages.occupied start stop) .alreadyMapped
  registerRange p start stop length writable f offset
  pure start

/-! ## Unmapping -/

def unmapBase (p : Nat) (base : Vaddr) : Routine Unit := do
  match ((← get).process p).mappings.get? base with
  | none => pure ()
  | some mapping =>
      modify fun m => m.modifyMappings p fun mappings => mappings.erase base
      dropPages p mapping.members
      report (.unmapped base mapping.members.length)

def mappingBaseAt (p : Nat) (va : Vaddr) : Routine (Option Vaddr) := do
  match (← get).lookup p va with
  | some page => mappingOf p page
  | none => pure none

/-- Takes the whole file mapping away that the page at an address belongs to. Without such a page
nothing happens. -/
def unmapFile (p : Nat) (va : Vaddr) : Routine Unit := do
  match ← mappingBaseAt p va with
  | some base => unmapBase p base
  | none => pure ()

def mappingAt (p : Nat) (va : Vaddr) : Routine (Option FileMapping) := do
  match ← mappingBaseAt p va with
  | some base => pure (((← get).process p).mappings.get? base)
  | none => pure none

end Machine
end DemandPaging
