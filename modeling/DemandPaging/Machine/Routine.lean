import DemandPaging.Machine

/-!
# Routines

A routine changes the machine and ends with a result or a stop. The changes made before a stop
remain. Locks are taken around routines by `Routine.withLock`, which releases the lock when the
routine has a result and when it fails.
-/

namespace DemandPaging

/-- A change of the machine with a result, or a stop on the way. -/
abbrev Routine := EStateM Stop Machine

namespace Routine

variable {α : Type}

/-! ## Stops -/

def fail (e : PagingError) : Routine α :=
  throw (.failed e)

def abort (a : Abort) : Routine α :=
  throw (.aborted a)

def ofStop : Except Stop α → Routine α
  | .ok a => pure a
  | .error s => throw s

def ofAbort : Except Abort α → Routine α
  | .ok a => pure a
  | .error e => abort e

def ofError : Except PagingError α → Routine α
  | .ok a => pure a
  | .error e => fail e

def orFail (e : PagingError) : Option α → Routine α
  | some a => pure a
  | none => fail e

def require (condition : Bool) (e : PagingError) : Routine Unit :=
  if condition then pure () else fail e

def ensure (rule : Bool) (a : Abort) : Routine Unit :=
  if rule then pure () else abort a

def when (condition : Bool) (body : Routine Unit) : Routine Unit :=
  if condition then body else pure ()

/-- Makes a failure of the routine part of its result. An abort is not caught. -/
def attempt (body : Routine α) : Routine (Except PagingError α) := fun m =>
  match body m with
  | .ok a after => .ok (.ok a) after
  | .error (.failed e) after => .ok (.error e) after
  | .error (.aborted a) after => .error (.aborted a) after

/-! ## The trace -/

def record (event : Event) : Routine Unit :=
  modify fun m => m.recorded event

def report (message : Message) : Routine Unit :=
  record (.reported message)

def report? : Option Message → Routine Unit
  | some message => report message
  | none => pure ()

def refuse (message : Message) (e : PagingError) : Routine α := do
  report message
  fail e

/-! ## Locks -/

def hold (lock : Lock) : Routine Unit :=
  modify fun m => { m with held := lock :: m.held }

/-- Waits for a lock and takes it. Nobody else would release a lock that the requester holds. -/
def acquire (lock : Lock) : Routine Unit := do
  ensure (lock ∉ (← get).held) (.selfDeadlock lock)
  hold lock
  record (.acquired lock)

def release (lock : Lock) : Routine Unit := do
  modify fun m => { m with held := m.held.erase lock }
  record (.released lock)

def releasing (lock : Lock) (body : Routine α) : Routine α := do
  let result ← attempt body
  release lock
  ofError result

def withLock (lock : Lock) (body : Routine α) : Routine α := do
  acquire lock
  releasing lock body

/-- Runs a routine with a lock held, unless the lock is held already. -/
def withFreeLock (lock : Lock) (body : Routine (Option α)) : Routine (Option α) := do
  if lock ∈ (← get).held then
    record (.contended lock)
    pure none
  else
    hold lock
    record (.seized lock)
    releasing lock body

end Routine
end DemandPaging
