import DemandPaging.Interrupt.SpinLock

/-!
# A bank of locks and guards

Any number of spin locks and interrupt guards that share one controller. A guard disables
interrupts like a lock does, but guards no value. `Bank.perform` carries out one request;
a request that no holder could make, or that would never return, is impossible.
-/

namespace DemandPaging
namespace Interrupt

structure Bank where
  controller : Controller
  locks : List (SpinLock Int64)
  /-- The interrupt words that the guards took; a closed guard has none. -/
  guards : List (Option UInt64)

inductive Request where
  | acquire (lock : Nat)
  | tryAcquire (lock : Nat)
  | add (lock : Nat) (amount : Int64)
  | release (lock : Nat)
  | isHeld (lock : Nat)
  | openGuard
  | wasEnabled (guard : Nat)
  | closeGuard (guard : Nat)
  /-- The interrupt word changes from outside. -/
  | setFlags (word : UInt64)
  deriving DecidableEq, Repr

inductive Reply where
  | done
  | value (v : Int64)
  | truth (b : Bool)
  | busy
  | guard (index : Nat)
  deriving DecidableEq, Repr

namespace Bank

def new (controller : Controller) (values : List Int64) : Bank :=
  ⟨controller, values.map SpinLock.new, []⟩

def put (b : Bank) (i : Nat) (l : SpinLock Int64) (c : Controller) : Bank :=
  { b with controller := c, locks := b.locks.set i l }

def perform (b : Bank) : Request → Option (Reply × Bank)
  | .acquire i => do
      let l ← b.locks[i]?
      let (l, c) ← l.acquire? b.controller
      pure (.value l.value, b.put i l c)
  | .tryAcquire i => do
      let l ← b.locks[i]?
      let (got, l, c) := l.tryAcquire b.controller
      pure (if got then .value l.value else .busy, b.put i l c)
  | .add i amount => do
      let l ← b.locks[i]?
      if l.held then
        let v := l.value + amount
        pure (.value v, b.put i { l with value := v } b.controller)
      else none
  | .release i => do
      let l ← b.locks[i]?
      if l.held then
        let (l, c) := l.release b.controller
        pure (.done, b.put i l c)
      else none
  | .isHeld i => do
      let l ← b.locks[i]?
      pure (.truth l.held, b)
  | .openGuard =>
      let taken := b.controller.disable
      some (.guard b.guards.length,
        { b with controller := taken.2, guards := b.guards ++ [some taken.1] })
  | .wasEnabled i => do
      let saved ← (← b.guards[i]?)
      pure (.truth (b.controller.wasEnabled saved), b)
  | .closeGuard i => do
      let saved ← (← b.guards[i]?)
      pure (.done,
        { b with controller := b.controller.restore saved, guards := b.guards.set i none })
  | .setFlags word =>
      some (.done, { b with controller := { b.controller with flags := word } })

/-- Carries out a request if it is possible and leaves the bank alone otherwise. -/
def performIfPossible (b : Bank) (r : Request) : Bank :=
  match b.perform r with
  | some (_, after) => after
  | none => b

/-- Releases the held locks and then closes the open guards, each in the order of the bank. -/
def close (b : Bank) : Bank :=
  let released := (List.range b.locks.length).foldl
    (fun bank i => bank.performIfPossible (.release i)) b
  (List.range b.guards.length).foldl
    (fun bank i => bank.performIfPossible (.closeGuard i)) released

def values (b : Bank) : List Int64 :=
  b.locks.map SpinLock.value

end Bank
end Interrupt
end DemandPaging
