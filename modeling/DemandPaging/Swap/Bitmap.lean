import DemandPaging.Failure

/-!
# Slot bitmaps

Which slots of a swap area are in use, one bit per slot in words of 64 bits. The search for a
free slot goes through the words in a circle, starting from the word of the last slot given out,
and takes the lowest free slot of the first word that has one. The last word may have bits
without a slot; they are never set.
-/

namespace DemandPaging
namespace Swap

structure Bitmap where
  words : List (BitVec 64)
  total : Nat
  used : Nat
  /-- The word of the last slot given out. -/
  hint : Nat
  deriving DecidableEq, Repr

namespace Bitmap

def free (total : Nat) : Bitmap :=
  ⟨List.replicate ((total + 63) / 64) 0, total, 0, 0⟩

def word (b : Bitmap) (w : Nat) : BitVec 64 :=
  b.words.getD w 0

def isUsed (b : Bitmap) (slot : Nat) : Bool :=
  (b.word (slot / 64)).getLsbD (slot % 64)

def updateWord (b : Bitmap) (slot : Nat) (f : BitVec 64 → BitVec 64) : Bitmap :=
  { b with words := b.words.modify (slot / 64) f }

def mark (b : Bitmap) (slot : Nat) : Bitmap :=
  b.updateWord slot fun w => w ||| BitVec.twoPow 64 (slot % 64)

def unmark (b : Bitmap) (slot : Nat) : Bitmap :=
  b.updateWord slot fun w => w &&& ~~~(BitVec.twoPow 64 (slot % 64))

def lowestClear (w : BitVec 64) : Option Nat :=
  (List.range 64).find? fun i => !w.getLsbD i

/-- The slot of the lowest clear bit of a word, if that bit has a slot. -/
def freeSlotOf (b : Bitmap) (w : Nat) : Option Nat :=
  match lowestClear (b.word w) with
  | some bit => if w * 64 + bit < b.total then some (w * 64 + bit) else none
  | none => none

/-- The words in the order of the search. -/
def searchOrder (b : Bitmap) : List Nat :=
  (List.range b.words.length).map fun step => (b.hint + step) % b.words.length

def allocate? (b : Bitmap) : Option (Nat × Bitmap) :=
  match b.searchOrder.findSome? b.freeSlotOf with
  | some slot => some (slot, { b.mark slot with used := b.used + 1, hint := slot / 64 })
  | none => none

/-- Takes a slot back. The slot must exist and be in use. -/
def release (b : Bitmap) (slot : Nat) : Except Abort Bitmap :=
  if b.total ≤ slot then .error (.slotOutOfRange slot)
  else if !b.isUsed slot then .error (.slotFreedTwice slot)
  else if b.used = 0 then .error .subtractOverflow
  else .ok { b.unmark slot with used := b.used - 1 }

end Bitmap
end Swap
end DemandPaging
