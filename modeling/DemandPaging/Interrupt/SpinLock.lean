import DemandPaging.Interrupt.Controller

/-!
# Spin locks

A spin lock guards a value. Its holder runs with interrupts disabled: the lock takes the
interrupt word when it is acquired, keeps it, and puts it back when it is released.
-/

namespace DemandPaging
namespace Interrupt

structure SpinLock (α : Type) where
  held : Bool
  /-- The interrupt word that the holder took. -/
  saved : UInt64
  value : α

namespace SpinLock

variable {α : Type}

def new (value : α) : SpinLock α :=
  ⟨false, 0, value⟩

/-- Acquires a free lock. For a held lock the requester would wait for ever. -/
def acquire? (l : SpinLock α) (c : Controller) : Option (SpinLock α × Controller) :=
  if l.held then none
  else
    let taken := c.disable
    some ({ l with held := true, saved := taken.1 }, taken.2)

/-- Acquires the lock if it is free; otherwise interrupts are restored at once. -/
def tryAcquire (l : SpinLock α) (c : Controller) : Bool × SpinLock α × Controller :=
  let taken := c.disable
  if l.held then (false, l, taken.2.restore taken.1)
  else (true, { l with held := true, saved := taken.1 }, taken.2)

/-- Releases the lock and then restores the interrupt word that it kept. -/
def release (l : SpinLock α) (c : Controller) : SpinLock α × Controller :=
  ({ l with held := false }, c.restore l.saved)

end SpinLock
end Interrupt
end DemandPaging
