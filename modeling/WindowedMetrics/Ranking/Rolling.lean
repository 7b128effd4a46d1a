import WindowedMetrics.Executor
import WindowedMetrics.Ranking.Chunked

/-!
# Rolling rankings and their tasks

A chunked ranking with somebody to run the tasks that its rotations leave: they are executed at once, or
kept until they are run or dropped.
-/

namespace WindowedMetrics

/-- A chunked ranking whose retirement tasks are executed at once or kept. -/
structure RollingRanking (I : Type) where
  ranking : ChunkedRanking I
  background : Background := .executed .inline
  /-- The phases to be retired by the tasks kept, oldest task first. -/
  tasks : List Side := []

namespace RollingRanking

variable {I : Type} [DecidableEq I]

/-- Hand over the task that a rotation left, if there was one. -/
def handOver (r : RollingRanking I) : Option Side → Logged (RollingRanking I)
  | none => pure r
  | some side =>
    match r.background with
    | .executed _ => do
      let ranking ← r.ranking.retire side
      return { r with ranking }
    | .deferred => pure { r with tasks := r.tasks ++ [side] }

def update (r : RollingRanking I) (now : Nat) (weight : Int64) (identity : I) :
    Logged (RollingRanking I) := do
  let (task, ranking) ← r.ranking.update now weight identity
  { r with ranking }.handOver task

def descending (r : RollingRanking I) (now : Nat) :
    Logged (List (Position I) × RollingRanking I) := do
  let (positions, ranking) ← r.ranking.descending now
  return (positions, { r with ranking })

/-- Run a kept task; says whether there is one of this number. -/
def runTask (r : RollingRanking I) (number : Nat) : Logged (Bool × RollingRanking I) :=
  match r.tasks[number]? with
  | none => pure (false, r)
  | some side => do
    let ranking ← r.ranking.retire side
    return (true, { r with ranking, tasks := r.tasks.eraseIdx number })

omit [DecidableEq I] in
/-- Drop a kept task unrun; says whether there is one of this number. -/
def dropTask (r : RollingRanking I) (number : Nat) : Bool × RollingRanking I :=
  (number < r.tasks.length, { r with tasks := r.tasks.eraseIdx number })

end RollingRanking

end WindowedMetrics
