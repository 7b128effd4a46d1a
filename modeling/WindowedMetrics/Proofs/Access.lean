import WindowedMetrics.Cache

/-!
# Runs of aggregates

A run is a list of writes and reads, each at an instant.  Reads count as steps, since some aggregates
change when they are read.
-/

namespace WindowedMetrics

/-- A write or a read of an aggregate. -/
inductive Access (W : Type) where
  | write (now : Nat) (w : W)
  | read (now : Nat)

variable {W : Type}

def Access.instant : Access W → Nat
  | .write now _ => now
  | .read now => now

/-- The instant of a read. -/
def Access.read? : Access W → Option Nat
  | .write _ _ => none
  | .read now => some now

/-- The instant and the content of a write. -/
def Access.write? : Access W → Option (Nat × W)
  | .write now w => some (now, w)
  | .read _ => none

/-- The writes of a run with their instants. -/
def writesOf (run : List (Access W)) : List (Nat × W) := run.filterMap Access.write?

/-- What was written in interval `j`, in its order. -/
def deltasIn (creation interval : Nat) (writes : List (Nat × W)) (j : Nat) : List W :=
  (writes.filter fun x => intervalIndex creation interval x.1 = j).map (·.2)

theorem writesOf_concat (run : List (Access W)) (access : Access W) :
    writesOf (run ++ [access]) = writesOf run ++ access.write?.toList := by
  unfold writesOf
  rw [List.filterMap_append]
  cases access <;> rfl

/-- The clock of the writes is part of the clock of the run. -/
theorem map_writesOf_sublist (run : List (Access W)) :
    ((writesOf run).map (·.1)).Sublist (run.map Access.instant) := by
  induction run with
  | nil => exact List.Sublist.refl _
  | cons access run ih =>
    cases access with
    | write now w => exact ih.cons_cons now
    | read now => exact ih.cons now

theorem deltasIn_concat (creation interval : Nat) (writes : List (Nat × W)) (now : Nat) (w : W) (j : Nat) :
    deltasIn creation interval (writes ++ [(now, w)]) j = deltasIn creation interval writes j ++
      if intervalIndex creation interval now = j then [w] else [] := by
  unfold deltasIn
  rw [List.filter_append, List.map_append]
  by_cases h : intervalIndex creation interval now = j
  · simp [h]
  · simp [h]

namespace Aggregate

variable {σ R V : Type} [Aggregate σ W R V]

/-- The aggregate after an access. -/
def step (s : σ) : Access W → σ
  | .write now w => (Aggregate.write s now w).value.2
  | .read now => (Aggregate.read s now).value.2

/-- The aggregate after a run. -/
def after (s : σ) (run : List (Access W)) : σ := run.foldl step s

theorem after_concat (s : σ) (run : List (Access W)) (access : Access W) :
    after s (run ++ [access]) = step (after s run) access := by
  simp [after]

/-- What the reads of a run return and when, the first read in front. -/
def datedReadings (s : σ) : List (Access W) → List (V × Nat)
  | [] => []
  | .write now w :: run => datedReadings (step s (.write now w)) run
  | .read now :: run => ((Aggregate.read s now).value.1, now) :: datedReadings (step s (.read now)) run

/-- What the reads of a run return, the first read in front. -/
def readings (s : σ) (run : List (Access W)) : List V := (datedReadings s run).map (·.1)

theorem datedReadings_append (s : σ) (run run' : List (Access W)) :
    datedReadings s (run ++ run') = datedReadings s run ++ datedReadings (after s run) run' := by
  induction run generalizing s with
  | nil => rfl
  | cons access run ih =>
    cases access with
    | write now w => exact ih (step s (.write now w))
    | read now => exact congrArg (List.cons _) (ih (step s (.read now)))

end Aggregate

end WindowedMetrics
