import WindowedMetrics.Proofs.Rolling.Settle

/-!
# Runs of rolling rankings

A run is a list of operations: offers and reads at instants of time and, where tasks are kept, the runs
and the drops of tasks.

What a run leaves behind is known up to the phase that waits to be retired.  `Operation.act` is what an
operation does to a settled ranking; a task does nothing to it.  `settle_step` says that every step
follows it, however tasks are handled, and `answer?_settle` that reads can be made from settled rankings.
So all schedules of the tasks lead to the same answers (`answers_eq_inline`).
-/

namespace WindowedMetrics

/-- What can happen to a rolling ranking.  Kept tasks are numbered, the oldest first. -/
inductive Operation (I : Type) where
  | update (now : Nat) (weight : Int64) (identity : I)
  | read (now : Nat)
  | runTask (number : Nat)
  | dropTask (number : Nat)

variable {I : Type}

/-- Whether an operation is an offer or a read. -/
def Operation.isAccess : Operation I → Bool
  | .update .. | .read _ => true
  | .runTask _ | .dropTask _ => false

variable [DecidableEq I]

namespace RollingRanking

/-! ### Steps and answers -/

/-- The ranking after an operation. -/
def step (r : RollingRanking I) : Operation I → RollingRanking I
  | .update now weight identity => (r.update now weight identity).value
  | .read now => (r.descending now).value.2
  | .runTask number => (r.runTask number).value.2
  | .dropTask number => (r.dropTask number).2

/-- The positions that an operation returns, if it is a read. -/
def answer? (r : RollingRanking I) : Operation I → Option (List (Position I))
  | .read now => some (r.descending now).value.1
  | _ => none

/-- The ranking after a run. -/
def run (r : RollingRanking I) (ops : List (Operation I)) : RollingRanking I := ops.foldl step r

/-- The positions returned by the reads of a run, the first read in front. -/
def answers (r : RollingRanking I) : List (Operation I) → List (List (Position I))
  | [] => []
  | op :: ops => (r.answer? op).toList ++ (r.step op).answers ops

@[simp] theorem run_nil (r : RollingRanking I) : r.run [] = r := rfl

theorem run_concat (r : RollingRanking I) (ops : List (Operation I)) (op : Operation I) :
    r.run (ops ++ [op]) = (r.run ops).step op := by
  simp [run]

end RollingRanking

/-! ### Steps of settled rankings -/

/-- What an operation does to a settled ranking. -/
def Operation.act (s : ChunkedRanking I) : Operation I → ChunkedRanking I
  | .update now weight identity => (s.advanced now).record weight identity
  | .read now => (s.descending now).value.2.settle
  | .runTask _ => s
  | .dropTask _ => s

theorem Operation.act_of_not_isAccess {op : Operation I} (h : ¬ op.isAccess) (s : ChunkedRanking I) :
    op.act s = s := by
  cases op with
  | update now weight identity => exact absurd rfl h
  | read now => exact absurd rfl h
  | runTask number => rfl
  | dropTask number => rfl

namespace RollingRanking

theorem settle_update (r : RollingRanking I) (now : Nat) (weight : Int64) (identity : I) :
    (r.update now weight identity).value.ranking.settle =
      (Operation.update now weight identity).act r.ranking.settle := by
  unfold update Operation.act ChunkedRanking.advanced
  simp only [Logged.value_bind, ChunkedRanking.expired_settle]
  by_cases h : r.ranking.expired now
  · rw [if_pos h, ChunkedRanking.update_of_le h, ← ChunkedRanking.settle_record]
    simp only [handOver]
    -- executed at once or kept, the task leads to the same settled ranking
    cases r.background with
    | executed e => exact ChunkedRanking.settle_retire _ _
    | deferred => rfl
  · rw [if_neg h, ChunkedRanking.update_of_lt h, ← ChunkedRanking.settle_record]
    rfl

/-- **Every step follows the settled ranking**, whoever runs the tasks. -/
theorem settle_step (r : RollingRanking I) (op : Operation I) :
    (r.step op).ranking.settle = op.act r.ranking.settle := by
  cases op with
  | update now weight identity => exact r.settle_update now weight identity
  | read now =>
    simp only [step, Operation.act, ChunkedRanking.descending_settle]
    rfl
  | runTask number =>
    simp only [step, Operation.act, runTask]
    cases r.tasks[number]? with
    | none => rfl
    | some side => exact ChunkedRanking.settle_retire _ side
  | dropTask number => rfl

/-- The settled ranking after a run: tasks have no part in it. -/
theorem settle_run (r : RollingRanking I) (ops : List (Operation I)) :
    (r.run ops).ranking.settle = ops.foldl (fun s op => op.act s) r.ranking.settle := by
  induction ops generalizing r with
  | nil => rfl
  | cons op ops ih =>
    rw [List.foldl_cons, ← settle_step]
    exact ih (r.step op)

theorem answer?_settle (r : RollingRanking I) (op : Operation I) :
    r.answer? op = ({ r with ranking := r.ranking.settle } : RollingRanking I).answer? op := by
  cases op with
  | read now =>
    simp only [answer?, descending, Logged.value_bind, Logged.value_pure,
      ChunkedRanking.descending_settle]
  | _ => rfl

/-- Two rankings that settle alike answer alike, also if only one of them is given the tasks. -/
theorem answers_filter_isAccess (r s : RollingRanking I)
    (h : r.ranking.settle = s.ranking.settle) (ops : List (Operation I)) :
    r.answers ops = s.answers (ops.filter Operation.isAccess) := by
  induction ops generalizing r s with
  | nil => rfl
  | cons op ops ih =>
    by_cases hop : op.isAccess
    · have hanswer : r.answer? op = s.answer? op := by
        rw [answer?_settle r, answer?_settle s, h]
        cases op <;> rfl
      have hnext : (r.step op).ranking.settle = (s.step op).ranking.settle := by
        rw [settle_step, settle_step, h]
      rw [List.filter_cons_of_pos hop, answers, answers, hanswer, ih _ _ hnext]
    · have hnone : r.answer? op = none := by
        cases op with
        | read now => exact absurd rfl hop
        | _ => rfl
      have hnext : (r.step op).ranking.settle = s.ranking.settle := by
        rw [settle_step, Operation.act_of_not_isAccess hop, h]
      rw [List.filter_cons_of_neg hop, answers, hnone, ih _ _ hnext]
      rfl

/-- **Reads do not depend on who runs the tasks**: with any background, and with the kept tasks run at
any time, in any order, or dropped, the reads of a run return the positions, in the same order, that they
return with an executor that runs every task at once. -/
theorem answers_eq_inline (ranking : ChunkedRanking I) (background : Background)
    (ops : List (Operation I)) :
    ({ ranking, background } : RollingRanking I).answers ops =
      ({ ranking, background := .executed .inline } : RollingRanking I).answers
        (ops.filter Operation.isAccess) :=
  answers_filter_isAccess { ranking, background } { ranking, background := .executed .inline } rfl ops

end RollingRanking

end WindowedMetrics
