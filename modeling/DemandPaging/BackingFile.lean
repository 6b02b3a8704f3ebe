import DemandPaging.Bytes
import DemandPaging.Schedule

/-!
# Backing files

A file of fixed length whose bytes can be mapped to memory. Reads and writes may be cut short or
fail at any call. A write never makes the file longer.
-/

namespace DemandPaging

inductive Transfer where
  /-- All bytes that the file has are moved. -/
  | whole
  /-- Only the first bytes are moved, as many as the count says for the length of the whole. -/
  | short (count : Nat → Nat)
  /-- The call fails. -/
  | refused

def Transfer.half : Transfer :=
  .short (· / 2)

structure BackingFile where
  content : Bytes
  /-- The length that the file reports, if it is not the length of its content. -/
  reported : Option UInt64
  /-- The offset and length of each write, oldest first. -/
  written : List (Nat × Nat)
  reading : Schedule Transfer
  writing : Schedule Transfer

namespace BackingFile

def ofBytes (content : Bytes) : BackingFile where
  content := content
  reported := none
  written := []
  reading := .always .whole
  writing := .always .whole

def patterned (length : Nat) : BackingFile :=
  ofBytes ((List.range length).map fun i => UInt8.ofNat (i % 251))

def length (f : BackingFile) : UInt64 :=
  f.reported.getD (UInt64.ofNat f.content.length)

def isEmpty (f : BackingFile) : Bool :=
  f.length == 0

/-- Reads up to `count` bytes from `offset` on. A refused call delivers nothing at all. -/
def read (f : BackingFile) (offset count : Nat) : Option Bytes × BackingFile :=
  let called := { f with reading := f.reading.advance }
  let available := (f.content.drop offset).take count
  match f.reading.peek with
  | .whole => (some available, called)
  | .short count => (some (available.take (count available.length)), called)
  | .refused => (none, called)

/-- Lays the bytes over the content from `offset` on and records the write. The answer is the
number of bytes that found a place. -/
def accept (f : BackingFile) (offset : Nat) (data : Bytes) : Nat × BackingFile :=
  (min data.length (f.content.length - offset),
    { f with
      content :=
        if offset < f.content.length then Bytes.overlay f.content offset data else f.content
      written := f.written ++ [(offset, data.length)] })

def write (f : BackingFile) (offset : Nat) (data : Bytes) : Option Nat × BackingFile :=
  let called := { f with writing := f.writing.advance }
  match f.writing.peek with
  | .whole =>
      let (count, after) := called.accept offset data
      (some count, after)
  | .short count =>
      let (count, after) := called.accept offset (data.take (count data.length))
      (some count, after)
  | .refused => (none, called)

theorem length_accept (f : BackingFile) (offset : Nat) (data : Bytes) :
    (f.accept offset data).2.content.length = f.content.length := by
  simp only [accept]
  split
  · exact Bytes.length_overlay f.content offset data
  · rfl

end BackingFile
end DemandPaging
