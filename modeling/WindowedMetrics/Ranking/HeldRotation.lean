import WindowedMetrics.Ranking.Rolling

/-!
# Held updates of rolling rankings

The writer of an offer to a rolling ranking is held up where the identity it offers is first compared.
Within an interval that is in its offer to the current phase.  A rotation offers to an empty phase, where
nothing is compared; its writer is held up only in a retirement:

* before the rotation, of the phase that it rotates to.  Every other offer of that instant needs this
  phase retired too, so none is made meanwhile (`ChunkedRanking.heldUpdate`);
* after the rotation, of the phase that it has left, if the task of that runs on its own thread.  The
  offers made meanwhile go to the new phase, unless that is over already too: at the end of time they
  need the other phase retired again, and none is made (`RollingRanking.heldTask`).

A retirement compares identities where it applies what is still queued in the phase, and where it merges
what it has taken into the totals (`ChunkedRanking.retireUntil`).
-/

namespace WindowedMetrics

/-- Where a retirement was held up. -/
inductive Retirement (I : Type) where
  /-- While it takes the interval, which is all to be done again. -/
  | untaken
  /-- While it merges what it has taken. -/
  | taken (interval : Interval I)
  deriving DecidableEq

namespace ChunkedRanking

variable {I : Type} [DecidableEq I]

/-- Retire a phase, and stop where an identity is first compared. -/
def retireUntil (r : ChunkedRanking I) (side : Side) (watched : I) :
    Logged (Option (Retirement I) × ChunkedRanking I) := do
  if r.isOver side then
    if (r.phase side).recorder.takeCompares watched then return (some .untaken, r)
    else
      let (taken, r) ← r.take side
      if (r.totals.get side).mergeCompares watched taken.ranking.descending then
        return (some (.taken taken), r)
      else
        let r ← r.retireTaken side taken
        return (none, r)
  else return (none, r)

/-- Go on with a retirement that was held up. -/
def resumeRetirement (r : ChunkedRanking I) (side : Side) :
    Retirement I → Logged (ChunkedRanking I)
  | .untaken => r.retire side
  | .taken interval => r.retireTaken side interval

/-- Go on with a retirement if it was held up. -/
def resumeRetirement? (r : ChunkedRanking I) (side : Side) :
    Option (Retirement I) → Logged (ChunkedRanking I)
  | none => pure r
  | some left => r.resumeRetirement side left

/-- Stopping a retirement and going on at once is the retirement. -/
theorem retireUntil_bind_resumeRetirement? (r : ChunkedRanking I) (side : Side) (watched : I) :
    (r.retireUntil side watched >>= fun out => out.2.resumeRetirement? side out.1) =
      r.retire side := by
  unfold retireUntil
  split
  · rename_i hover
    split
    · rfl
    · unfold retire
      rw [if_pos hover, bind_assoc]
      congr 1
      funext out
      obtain ⟨taken, q⟩ := out
      dsimp only
      split
      · rfl
      · simp only [bind_assoc, pure_bind, resumeRetirement?, bind_pure]
  · rename_i hover
    unfold retire
    rw [if_neg hover]
    rfl

/-- Offer a position with the writer held up, in its offer or in the retirement before its rotation. -/
def heldUpdate (r : ChunkedRanking I) (now : Nat) (weight : Int64) (identity : I)
    (offers : List (Int64 × I)) : Logged (HeldReport I × Option Side × ChunkedRanking I) := do
  if now < (r.phase r.current).invalidation then
    let (report, recorder) ← (r.phase r.current).recorder.heldUpdate weight identity offers
    return (report.merge (r.phase r.current.other).recorder.stats, none,
      r.setRecorder r.current recorder)
  else
    let (left, r) ← r.retireUntil r.current.other identity
    let during := left.map fun _ => r.stats
    let r ← r.resumeRetirement? r.current.other left
    let (task, r) ← r.update now weight identity
    return ({ stalled := left.isSome, during, after := r.stats, rest := offers }, task, r)

end ChunkedRanking

namespace RollingRanking

variable {I : Type} [DecidableEq I]

/-- Run the task that a rotation left on the thread of its writer, with the writer held up. -/
def heldTask (r : RollingRanking I) (now : Nat) (side : Side) (watched : I)
    (offers : List (Int64 × I)) : Logged (HeldReport I × RollingRanking I) := do
  let (left, ranking) ← r.ranking.retireUntil side watched
  let r := { r with ranking }
  match left with
  | none => return ({ after := r.ranking.stats, rest := offers }, r)
  | some left =>
    let (made, rest) :=
      if now < (r.ranking.phase r.ranking.current).invalidation then (offers, []) else ([], offers)
    let r ← made.foldlM (fun r o => r.update now o.1 o.2) r
    let before := r.ranking.stats
    let ranking ← r.ranking.resumeRetirement side left
    return ({
      stalled := true
      made := made.length
      during := some before
      after := ranking.stats
      rest }, { r with ranking })

/-- Offer a position with the writer held up once: in its update, or in the task that its rotation
leaves if that runs on its own thread. -/
def heldUpdate (r : RollingRanking I) (now : Nat) (weight : Int64) (identity : I)
    (offers : List (Int64 × I)) : Logged (HeldReport I × RollingRanking I) := do
  let (report, task, ranking) ← r.ranking.heldUpdate now weight identity offers
  let r := { r with ranking }
  match task with
  | none => return (report, r)
  | some side =>
    if !report.stalled && r.background = .executed .inline then r.heldTask now side identity offers
    else
      let r ← r.handOver task
      return ({ report with after := r.ranking.stats }, r)

end RollingRanking

end WindowedMetrics
