import DemandPaging.Bytes
import DemandPaging.Schedule

/-!
# Sector disks

A device of sectors of one size. Reads and writes move whole sectors and can fail at any call,
as the schedules of the disk say; a refused call changes no sector.
-/

namespace DemandPaging
namespace Swap

structure Disk where
  sectorSize : Nat
  sectors : List Bytes
  reads : Nat
  writes : Nat
  /-- Which reads are let through. -/
  reading : Schedule Bool
  /-- Which writes are let through. -/
  writing : Schedule Bool
  uniform : ∀ data ∈ sectors, data.length = sectorSize

namespace Disk

def blank (sectors sectorSize : Nat) : Disk where
  sectorSize := sectorSize
  sectors := List.replicate sectors (Bytes.filled sectorSize 0)
  reads := 0
  writes := 0
  reading := .always true
  writing := .always true
  uniform := by
    intro data hdata
    rw [List.eq_of_mem_replicate hdata]
    exact Bytes.length_filled sectorSize 0

def content (d : Disk) : Bytes :=
  d.sectors.flatten

def countRead (d : Disk) : Disk :=
  { d with reads := d.reads + 1 }

def replace (d : Disk) (sector : Nat) (data : Bytes) (h : data.length = d.sectorSize) : Disk where
  sectorSize := d.sectorSize
  sectors := d.sectors.set sector data
  reads := d.reads
  writes := d.writes + 1
  reading := d.reading
  writing := d.writing
  uniform := by
    intro old hold
    rcases List.mem_or_eq_of_mem_set hold with hmem | heq
    · exact d.uniform old hmem
    · rw [heq]
      exact h

/-- Reads a sector into a buffer of `length` bytes, which must be the sector size. -/
def readSector (d : Disk) (sector length : Nat) : Option Bytes × Disk :=
  let called := { d with reading := d.reading.advance }
  if d.reading.peek && length == d.sectorSize then
    match d.sectors[sector]? with
    | some data => (some data, called.countRead)
    | none => (none, called)
  else (none, called)

/-- Writes a sector; `data` must have the sector size. The answer is whether it was written. -/
def writeSector (d : Disk) (sector : Nat) (data : Bytes) : Bool × Disk :=
  let called := { d with writing := d.writing.advance }
  if h : data.length = called.sectorSize then
    if d.writing.peek && decide (sector < d.sectors.length) then
      (true, called.replace sector data h)
    else (false, called)
  else (false, called)

end Disk
end Swap
end DemandPaging
