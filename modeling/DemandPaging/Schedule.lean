/-!
# Schedules

A schedule fixes the outcome of each call to a device, file or memory management unit before the
calls are made: it lists one outcome per call and counts the calls. Any pattern of failures is a
schedule, so a statement about all schedules is one about all patterns of failures.
-/

namespace DemandPaging

/-- The outcomes of the calls to come, by the number of the call. -/
structure Schedule (α : Type) where
  /-- The outcome of the call with a given number, counted from zero. -/
  outcome : Nat → α
  calls : Nat

namespace Schedule

variable {α : Type}

def peek (s : Schedule α) : α :=
  s.outcome s.calls

def advance (s : Schedule α) : Schedule α :=
  { s with calls := s.calls + 1 }

def always (a : α) : Schedule α :=
  ⟨fun _ => a, 0⟩

def budget (n : Nat) : Schedule Bool :=
  ⟨fun call => decide (call < n), 0⟩

def limited : Option Nat → Schedule Bool
  | some n => budget n
  | none => always true

@[simp]
theorem peek_always (a : α) : (always a).peek = a := rfl

@[simp]
theorem calls_advance (s : Schedule α) : s.advance.calls = s.calls + 1 := rfl

@[simp]
theorem outcome_advance (s : Schedule α) : s.advance.outcome = s.outcome := rfl

end Schedule
end DemandPaging
