import DemandPaging.Bytes
import DemandPaging.Mmu

/-!
# User accesses

The user reads and writes any number of bytes at any address. The unit carries the access out
in chunks that end at page boundaries, so that each chunk lies in one frame. A chunk on a page that
is not mapped faults, and so does one that writes to a page mapped read-only; the effects of the
chunks before it remain.
-/

namespace DemandPaging

/-- Why an access could not go on, with the first address that it did not reach. -/
inductive AccessFault where
  | notPresent (va : Vaddr)
  | readOnly (va : Vaddr)
  deriving DecidableEq, Repr

def AccessFault.va : AccessFault → Vaddr
  | notPresent va | readOnly va => va

inductive AccessStop where
  | faulted (fault : AccessFault)
  /-- The access goes on behind the last address. -/
  | wrapped
  deriving DecidableEq, Repr

/-- What a read leaves behind. The bytes of a read that stops early are delivered up to there. -/
structure ReadEffect where
  result : Except AccessStop Unit
  delivered : Bytes
  mmu : Mmu

def ReadEffect.answer (effect : ReadEffect) : Except AccessStop Bytes :=
  effect.result.map fun _ => effect.delivered

structure WriteEffect where
  result : Except AccessStop Unit
  written : Nat
  memory : List Bytes
  mmu : Mmu

namespace Mmu

def chunkLength (m : Mmu) (va : Vaddr) (remaining : Nat) : Nat :=
  min (m.pageSize.toNat - (va % m.pageSize).toNat) remaining

def readChunks (memory : List Bytes) : Nat → Mmu → Vaddr → Nat → ReadEffect
  | 0, m, _, _ => ⟨.ok (), [], m⟩
  | fuel + 1, m, va, remaining =>
      if remaining = 0 then ⟨.ok (), [], m⟩
      else
        let offset := va % m.pageSize
        let length := m.chunkLength va remaining
        match m.mapped? (va - offset) with
        | none => ⟨.error (.faulted (.notPresent va)), [], m⟩
        | some e =>
            let touched := m.setAccessed (va - offset) true
            let chunk := ((memory.getD e.frame []).drop offset.toNat).take length
            if remaining = length then ⟨.ok (), chunk, touched⟩
            else
              match Word.checkedAdd va (UInt64.ofNat length) with
              | none => ⟨.error .wrapped, chunk, touched⟩
              | some next =>
                  let rest := readChunks memory fuel touched next (remaining - length)
                  { rest with delivered := chunk ++ rest.delivered }

def writeChunks : Nat → List Bytes → Mmu → Vaddr → Bytes → WriteEffect
  | 0, memory, m, _, _ => ⟨.ok (), 0, memory, m⟩
  | fuel + 1, memory, m, va, data =>
      if data.length = 0 then ⟨.ok (), 0, memory, m⟩
      else
        let offset := va % m.pageSize
        let length := m.chunkLength va data.length
        match m.mapped? (va - offset) with
        | none => ⟨.error (.faulted (.notPresent va)), 0, memory, m⟩
        | some e =>
            if !e.writable then ⟨.error (.faulted (.readOnly va)), 0, memory, m⟩
            else
              let touched := (m.setAccessed (va - offset) true).setDirty (va - offset) true
              let content := Bytes.overlay (memory.getD e.frame []) offset.toNat (data.take length)
              let written := memory.set e.frame content
              if data.length = length then ⟨.ok (), length, written, touched⟩
              else
                match Word.checkedAdd va (UInt64.ofNat length) with
                | none => ⟨.error .wrapped, length, written, touched⟩
                | some next =>
                    let rest := writeChunks fuel written touched next (data.drop length)
                    { rest with written := length + rest.written }

/-- The user reads `length` bytes at `va`. Each chunk has a byte at least, so `length` chunks
are enough. -/
def userRead (m : Mmu) (memory : List Bytes) (va : Vaddr) (length : Nat) : ReadEffect :=
  readChunks memory length m va length

def userWrite (m : Mmu) (memory : List Bytes) (va : Vaddr) (data : Bytes) : WriteEffect :=
  writeChunks data.length memory m va data

end Mmu
end DemandPaging
