import WindowedMetrics.Ranking.Recorder

/-!
# Rolling rankings

The time since creation is cut into intervals of equal length.  Two phases take turns: the current one
records the offers of the running interval, the other one is dormant or waits to be retired.  A retired
phase leaves its positions in an archive, a ring with one slot per interval, where they stay visible for
the rest of the window; without an archive they are forgotten.

* `update` offers to the current phase, or rotates to the other one if the current phase has expired.  A
  rotation leaves the task of retiring the old phase; when that task runs is up to the caller.
* `retire` moves a phase that is neither current nor dormant into the archive.  Readers, and writers
  that need the phase, do it themselves if the task has not run yet, so a task may run late or never.
* `descending` rotates an expired phase, retires what is left to retire and merges the visible archive,
  oldest interval first, and the current phase.
-/

namespace WindowedMetrics

/-- A recorder with the interval it records and the instant at which it expires. -/
structure RankingPhase (I : Type) where
  recorder : Recorder I
  invalidation : Nat
  interval : Nat := 0

/-- The positions of a past interval, visible up to `expiry`; a slot never filled has expiry zero. -/
structure Archived (I : Type) where
  ranking : Ranking I
  expiry : Nat := 0
  deriving DecidableEq

structure ChunkedRanking (I : Type) where
  settings : RankingSettings
  creation : Nat
  interval : Nat
  phases : Twin (RankingPhase I)
  current : Side := .first
  /-- What reads have already taken from the recorder of each phase. -/
  totals : Twin (Ranking I)
  archive : Array (Archived I)
  /-- Where reads merge; what is left in it means nothing. -/
  collector : Ranking I
  /-- The interval taken last, to be filled again. -/
  spare : Option (Interval I) := none

namespace ChunkedRanking

variable {I : Type} [DecidableEq I]

/-- A rolling ranking that starts at `now`, its archive `archiveSize` intervals long. -/
def create (settings : RankingSettings) (interval archiveSize now : Nat) :
    Except ConfigFault (ChunkedRanking I) := do
  settings.validate
  if interval = 0 then .error .zeroInterval
  else
    let first ← Recorder.create settings
    let second ← Recorder.create settings
    let blank := Ranking.blank settings.capacity settings.threshold
    return {
      settings
      creation := now
      interval
      phases := ⟨{ recorder := first, invalidation := boundary now 1 interval },
        { recorder := second, invalidation := dormant }⟩
      totals := ⟨blank, blank⟩
      archive := Array.replicate archiveSize { ranking := blank }
      collector := blank }

omit [DecidableEq I] in
def capacity (r : ChunkedRanking I) : Nat := r.settings.capacity

omit [DecidableEq I] in
def stats (r : ChunkedRanking I) : ActorStats :=
  r.phases.first.recorder.stats.merge r.phases.second.recorder.stats

omit [DecidableEq I] in
def phase (r : ChunkedRanking I) (side : Side) : RankingPhase I := r.phases.get side

omit [DecidableEq I] in
def setPhase (r : ChunkedRanking I) (side : Side) (p : RankingPhase I) : ChunkedRanking I :=
  { r with phases := r.phases.set side p }

omit [DecidableEq I] in
def setRecorder (r : ChunkedRanking I) (side : Side) (recorder : Recorder I) : ChunkedRanking I :=
  r.setPhase side { r.phase side with recorder }

omit [DecidableEq I] in
/-- The interval an instant falls into. -/
def intervalOf (r : ChunkedRanking I) (now : Nat) : Nat := intervalIndex r.creation r.interval now

/-! ### Retirement -/

/-- Take what the recorder of a phase holds. -/
def take (r : ChunkedRanking I) (side : Side) : Logged (Interval I × ChunkedRanking I) := do
  let (taken, recorder) ← (r.phase side).recorder.takeInterval r.spare
  return (taken, r.setRecorder side recorder)

/-- Merge what was taken into the totals of its phase. -/
def credit (r : ChunkedRanking I) (side : Side) (taken : Interval I) : ChunkedRanking I :=
  { r with
    totals := r.totals.set side (taken.ranking.mergeInto (r.totals.get side))
    spare := some taken }

/-- Move what the recorder of a phase holds to the totals of that phase. -/
def collect (r : ChunkedRanking I) (side : Side) : Logged (ChunkedRanking I) := do
  let (taken, r) ← r.take side
  return r.credit side taken

omit [DecidableEq I] in
/-- Put the totals of a phase into its archive slot and empty them.  They stay visible until the
archive has gone round. -/
def store (r : ChunkedRanking I) (side : Side) : Logged (ChunkedRanking I) :=
  let phase := r.phase side
  let totals := r.totals.get side
  if r.archive.isEmpty then pure { r with totals := r.totals.set side totals.reset }
  else do
    let expiry := boundary phase.invalidation (r.archive.size - 1) r.interval
    let slot := phase.interval % r.archive.size
    let old := (r.archive[slot]?).elim totals (·.ranking)
    Logged.emit (.rankingArchived phase.interval totals.size expiry)
    return { r with
      archive := r.archive.setIfInBounds slot { ranking := totals, expiry }
      totals := r.totals.set side old.reset }

/-- Retire a phase from which everything has been taken. -/
def retireTaken (r : ChunkedRanking I) (side : Side) (taken : Interval I) :
    Logged (ChunkedRanking I) := do
  let r ← (r.credit side taken).store side
  return r.setPhase side { r.phase side with invalidation := dormant }

omit [DecidableEq I] in
/-- Whether a phase is to be retired: it is neither current nor dormant already. -/
def isOver (r : ChunkedRanking I) (side : Side) : Bool :=
  (r.phase side).invalidation ≠ dormant && r.current ≠ side

/-- Retire a phase if it is over. -/
def retire (r : ChunkedRanking I) (side : Side) : Logged (ChunkedRanking I) := do
  if r.isOver side then
    let (taken, r) ← r.take side
    r.retireTaken side taken
  else return r

/-! ### Rotation -/

omit [DecidableEq I] in
/-- Make a phase the current one and schedule it for the interval of `now`. -/
def activate (r : ChunkedRanking I) (side : Side) (now : Nat) : Logged (ChunkedRanking I) := do
  let interval := r.intervalOf now
  let invalidation := boundary r.creation (interval + 1) r.interval
  Logged.emit (.rankingRotated now interval invalidation)
  return { r.setPhase side { r.phase side with interval, invalidation } with current := side }

/-- Offer a position at `now`.  The answer is the phase that is left to be retired after a rotation. -/
def update (r : ChunkedRanking I) (now : Nat) (weight : Int64) (identity : I) :
    Logged (Option Side × ChunkedRanking I) := do
  let old := r.current
  if now < (r.phase old).invalidation then
    let recorder ← (r.phase old).recorder.update weight identity
    return (none, r.setRecorder old recorder)
  else
    let r ← r.retire old.other
    let recorder ← (r.phase old.other).recorder.update weight identity
    let r ← (r.setRecorder old.other recorder).activate old.other now
    return (some old, r)

/-! ### Reading -/

/-- Rotate an expired phase as a reader, which retires phases itself. -/
def rotateExpired (r : ChunkedRanking I) (now : Nat) : Logged (ChunkedRanking I) := do
  let invalidation := (r.phase r.current).invalidation
  if invalidation ≠ dormant ∧ invalidation ≤ now then
    let next := r.current.other
    let r ← r.retire next
    r.activate next now
  else return r

omit [DecidableEq I] in
/-- The archive from the slot after that of `interval` around to that slot itself. -/
def archiveFrom (r : ChunkedRanking I) (interval : Nat) : List (Archived I) :=
  (List.range r.archive.size).filterMap fun step => r.archive[(interval + step + 1) % r.archive.size]?

/-- The visible archived positions merged, oldest interval first. -/
def mergeArchive (r : ChunkedRanking I) (now : Nat) : Ranking I :=
  (r.archiveFrom (r.phase r.current).interval).foldl
    (fun merged a => if now < a.expiry then a.ranking.mergeInto merged else merged) r.collector.reset

/-- The heaviest visible positions at `now`, heaviest first. -/
def descending (r : ChunkedRanking I) (now : Nat) :
    Logged (List (Position I) × ChunkedRanking I) := do
  let r ← r.rotateExpired now
  let r ← r.retire .first
  let r ← r.retire .second
  let merged := r.mergeArchive now
  if now < (r.phase r.current).invalidation then
    let r ← r.collect r.current
    let merged := (r.totals.get r.current).mergeInto merged
    return (merged.descending, { r with collector := merged })
  else return (merged.descending, { r with collector := merged })

end ChunkedRanking

instance {I : Type} : Described (ChunkedRanking I) where
  describe r := Text.record "ResetByChunksRanking"
    [("capacity", describe r.settings.capacity), ("interval_ms", describe r.interval),
      ("archive_len", describe r.archive.size)]

end WindowedMetrics
