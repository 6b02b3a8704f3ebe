import DemandPaging.Word

/-!
# The interrupt controller

A processor's interrupt state is one word. Code that must not be interrupted takes the word,
clears the enabling bits in it, and puts the taken word back at the end of the critical section.
-/

namespace DemandPaging
namespace Interrupt

inductive Call where
  /-- The word was read and its enabling bits cleared. -/
  | disabled (before : UInt64)
  | restored (word : UInt64)
  deriving DecidableEq, Repr

structure Controller where
  flags : UInt64
  /-- The bits of the word that enable interrupts. -/
  mask : UInt64
  /-- Whether the program knows the controller; if not, it never calls it. -/
  registered : Bool
  calls : List Call

/-- The saved word that stands for "nothing to restore". -/
def nothingSaved : UInt64 := 0xffffffffffffffff

namespace Controller

def enabled (c : Controller) : Bool :=
  c.flags &&& c.mask != 0

def disable (c : Controller) : UInt64 × Controller :=
  if c.registered then
    (c.flags,
      { c with flags := c.flags &&& ~~~c.mask, calls := c.calls ++ [.disabled c.flags] })
  else (nothingSaved, c)

def restore (c : Controller) (saved : UInt64) : Controller :=
  if saved = nothingSaved then c
  else if c.registered then { c with flags := saved, calls := c.calls ++ [.restored saved] }
  else c

/-- Whether interrupts were enabled when a word was taken; without a controller they were. -/
def wasEnabled (c : Controller) (saved : UInt64) : Bool :=
  if c.registered && saved != nothingSaved then saved &&& c.mask != 0 else true

/-- Putting the taken word back undoes the disabling, unless the word is the reserved one. -/
theorem flags_restore_disable (c : Controller) (h : c.flags ≠ nothingSaved) :
    (c.disable.2.restore c.disable.1).flags = c.flags := by
  unfold disable
  split
  · rename_i hreg
    simp only [restore, if_neg h, hreg, if_true]
  · simp [restore]

end Controller
end Interrupt
end DemandPaging
