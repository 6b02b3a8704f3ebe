import DemandPaging.Machine.Boot
import DemandPaging.Machine.FileMapping
import DemandPaging.Machine.Fork
import DemandPaging.Machine.UserAccess

/-!
# Operations

The requests that the machine serves, on behalf of a kernel and of user processes. A run is a
sequence of operations; it goes on after an operation that fails and ends with one that aborts.
A state is reachable if some run from a freshly started machine leads to it.
-/

namespace DemandPaging

inductive Operation where
  /-- Starts a process, whose memory management unit follows the schedule. -/
  | start (accepting : Schedule Bool)
  | finish (process : Nat)
  | allocate (process : Nat) (type : PageClass) (va : Vaddr) (writable : Bool)
      (loader : Option Loader)
  /-- Removes the page that contains an address. -/
  | remove (process : Nat) (va : Vaddr)
  /-- Makes the page that contains an address resident. -/
  | claim (process : Nat) (va : Vaddr)
  | fault (process : Nat) (fault : Fault)
  /-- The user reads, without handling of faults. -/
  | read (process : Nat) (va : Vaddr) (length : Nat)
  /-- The user writes, without handling of faults. -/
  | write (process : Nat) (va : Vaddr) (data : Bytes)
  /-- Maps a part of a file. -/
  | map (process : Nat) (start : Vaddr) (length : UInt64) (writable : Bool) (file : Nat)
      (offset : UInt64)
  /-- Takes away the file mapping that contains an address. -/
  | unmap (process : Nat) (va : Vaddr)
  | fork (source target : Nat)
  | teardown (process : Nat)
  /-- Asks for the class of the page that contains an address. -/
  | classAt (process : Nat) (va : Vaddr)
  /-- Asks for the file mapping that contains an address. -/
  | mappingAt (process : Nat) (va : Vaddr)

inductive Reply where
  | done
  | process (number : Nat)
  | data (bytes : Bytes)
  | fault (fault : AccessFault)
  | address (va : Vaddr)
  | class (type : Option PageClass)
  | mapping (mapping : Option FileMapping)

def Reply.ofAccess : Except AccessFault Reply → Reply
  | .ok reply => reply
  | .error f => .fault f

namespace Operation

def perform : Operation → Routine Reply
  | start accepting => do
      let number ← Machine.startProcess accepting
      pure (.process number)
  | finish p => do
      Machine.endProcess p
      pure .done
  | allocate p type va writable loader => do
      let _ ← Machine.allocatePage p type va writable loader
      pure .done
  | remove p va => do
      Machine.removePage p va
      pure .done
  | claim p va => do
      Machine.claimPage p va
      pure .done
  | fault p f => do
      Machine.resolveFault p f
      pure .done
  | read p va length => do
      let result ← Machine.userRead p va length
      pure (.ofAccess (result.map .data))
  | write p va data => do
      let result ← Machine.userWrite p va data
      pure (.ofAccess (result.map fun _ => .done))
  | map p va length writable file offset => do
      let base ← Machine.mapFile p va length writable file offset
      pure (.address base)
  | unmap p va => do
      Machine.unmapFile p va
      pure .done
  | fork source target => do
      Machine.fork source target
      pure .done
  | teardown p => do
      Machine.teardown p
      pure .done
  | classAt p va => do
      let type ← Machine.classAt p va
      pure (.class type)
  | mappingAt p va => do
      let mapping ← Machine.mappingAt p va
      pure (.mapping mapping)

end Operation

namespace Machine

/-- The machine after an operation, unless the operation aborts. -/
def after? (m : Machine) (op : Operation) : Option Machine :=
  match op.perform m with
  | .ok _ next => some next
  | .error (.failed _) next => some next
  | .error (.aborted _) _ => none

def run (m : Machine) : List Operation → Option Machine
  | [] => some m
  | op :: rest =>
      match m.after? op with
      | some next => run next rest
      | none => none

/-- Some run from a freshly started machine leads to the state. -/
def Reachable (m : Machine) : Prop :=
  ∃ config hardware start ops, boot config hardware = .ok start ∧ start.run ops = some m

@[simp]
theorem run_nil (m : Machine) : m.run [] = some m := rfl

theorem run_cons (m : Machine) (op : Operation) (rest : List Operation) :
    m.run (op :: rest) = (m.after? op).bind fun next => next.run rest := by
  rw [run]
  cases m.after? op with
  | none => rfl
  | some next => rfl

theorem run_append (m : Machine) (first second : List Operation) :
    m.run (first ++ second) = (m.run first).bind fun next => next.run second := by
  induction first generalizing m with
  | nil => rfl
  | cons op rest ih =>
      rw [List.cons_append, run_cons, run_cons]
      cases m.after? op with
      | none => rfl
      | some next => exact ih next

/-- What holds of freshly started machines and is kept by each operation holds of every reachable
state. -/
theorem Reachable.induction {P : Machine → Prop}
    (started : ∀ config hardware m, boot config hardware = .ok m → P m)
    (kept : ∀ m op next, P m → m.after? op = some next → P next)
    {m : Machine} (h : m.Reachable) : P m := by
  rcases h with ⟨config, hardware, start, ops, hboot, hrun⟩
  have hstart : P start := started config hardware start hboot
  clear hboot
  induction ops generalizing start with
  | nil =>
      cases hrun
      exact hstart
  | cons op rest ih =>
      rw [run_cons] at hrun
      cases hnext : start.after? op with
      | none =>
          rw [hnext] at hrun
          contradiction
      | some next =>
          rw [hnext] at hrun
          exact ih next hrun (kept start op next hstart hnext)

end Machine
end DemandPaging
