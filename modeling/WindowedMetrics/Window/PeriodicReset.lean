import WindowedMetrics.Log
import WindowedMetrics.Time

/-!
# Periodic resets

A reset is due at a set instant.  The first access at or after it performs the reset and schedules the
next one a whole interval after itself.
-/

namespace WindowedMetrics

structure PeriodicReset where
  interval : Nat
  next : Nat
  deriving DecidableEq

namespace PeriodicReset

def create (interval now : Nat) : PeriodicReset := ⟨interval, satAdd now interval⟩

def due (p : PeriodicReset) (now : Nat) : Bool := p.next ≤ now

def reschedule (p : PeriodicReset) (now : Nat) : PeriodicReset :=
  { p with next := satAdd now p.interval }

/-- An access at `now` to a value that a due reset replaces by `zero`. -/
def access {α : Type} (p : PeriodicReset) (now : Nat) (zero value : α) :
    Logged (α × PeriodicReset) := do
  if p.due now then
    Logged.emit (.periodicReset now)
    return (zero, p.reschedule now)
  else return (value, p)

end PeriodicReset

end WindowedMetrics
