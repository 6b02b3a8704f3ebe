import DemandPaging.Message
import DemandPaging.Swap.Bitmap
import DemandPaging.Swap.Disk

/-!
# Swap areas

A swap area cuts a disk into slots of one page each. Sectors behind the last whole slot are not
used. A slot is written and read sector by sector, and the first refused sector ends the transfer.
-/

namespace DemandPaging
namespace Swap

/-- A disk cut into slots, or an area without disk and without slots. -/
structure Area where
  disk : Option Disk
  sectorSize : Nat
  sectorsPerPage : Nat
  slots : Bitmap

inductive SlotFailure where
  | noDevice
  | wrongLength
  | refused (sector : Nat)
  deriving DecidableEq, Repr

def SlotFailure.stop : SlotFailure → Stop
  | noDevice => .failed .swapExhausted
  | wrongLength => .aborted .disagreement
  | refused _ => .failed .ioError

namespace Area

def disabled : Area :=
  ⟨none, 0, 0, .free 0⟩

/-- Cuts a disk into slots. A page must be a whole number of sectors. -/
def create (disk : Disk) (pageSize : Nat) : Except Stop Area :=
  if disk.sectorSize = 0 ∨ pageSize % disk.sectorSize ≠ 0 then
    .error (.failed .invalidArgument)
  else
    let sectorsPerPage := pageSize / disk.sectorSize
    if sectorsPerPage = 0 then .error (.aborted .divideByZero)
    else
      .ok {
        disk := some disk
        sectorSize := disk.sectorSize
        sectorsPerPage := sectorsPerPage
        slots := .free (disk.sectors.length / sectorsPerPage) }

def readyMessage (a : Area) : Message :=
  .swapReady a.slots.total a.sectorsPerPage a.sectorSize

def slotBytes (a : Area) : Nat :=
  a.sectorSize * a.sectorsPerPage

def firstSector (a : Area) (slot : Nat) : Nat :=
  slot * a.sectorsPerPage

def allocate? (a : Area) : Option (Nat × Area) :=
  a.slots.allocate?.map fun given => (given.1, { a with slots := given.2 })

def release (a : Area) (slot : Nat) : Except Abort Area :=
  (a.slots.release slot).map fun slots => { a with slots := slots }

/-! ## Transfers -/

/-- Writes `count` sectors from `sector` on. The answer names the sector that was refused. -/
def writeSectors (disk : Disk) (sector : Nat) : Nat → Bytes → Option Nat × Disk
  | 0, _ => (none, disk)
  | count + 1, data =>
      match disk.writeSector sector (data.take disk.sectorSize) with
      | (true, after) => writeSectors after (sector + 1) count (data.drop disk.sectorSize)
      | (false, after) => (some sector, after)

/-- Reads `count` sectors from `sector` on. The answer has the bytes that were read, and names
the sector that was refused. -/
def readSectors (disk : Disk) (sector : Nat) : Nat → Bytes × Option Nat × Disk
  | 0 => ([], none, disk)
  | count + 1 =>
      match disk.readSector sector disk.sectorSize with
      | (some data, after) =>
          let rest := readSectors after (sector + 1) count
          (data ++ rest.1, rest.2)
      | (none, after) => ([], some sector, after)

def write (a : Area) (slot : Nat) (page : Bytes) : Except SlotFailure Unit × Area :=
  match a.disk with
  | none => (.error .noDevice, a)
  | some disk =>
      if page.length ≠ a.slotBytes then (.error .wrongLength, a)
      else
        let (refusal, after) := writeSectors disk (a.firstSector slot) a.sectorsPerPage page
        (match refusal with
          | some sector => .error (.refused sector)
          | none => .ok (),
          { a with disk := some after })

/-- Reads a slot into a buffer. The sectors read before a failure stay in the buffer. -/
def read (a : Area) (slot : Nat) (buffer : Bytes) : Except SlotFailure Unit × Bytes × Area :=
  match a.disk with
  | none => (.error .noDevice, buffer, a)
  | some disk =>
      if buffer.length ≠ a.slotBytes then (.error .wrongLength, buffer, a)
      else
        let (data, refusal, after) := readSectors disk (a.firstSector slot) a.sectorsPerPage
        (match refusal with
          | some sector => .error (.refused sector)
          | none => .ok (),
          Bytes.overlay buffer 0 data,
          { a with disk := some after })

def writeReport? (slot : Nat) : SlotFailure → Option Message
  | .refused sector => some (.sectorUnwritten sector slot)
  | _ => none

def readReport? (slot : Nat) : SlotFailure → Option Message
  | .refused sector => some (.sectorUnread sector slot)
  | _ => none

end Area
end Swap
end DemandPaging
