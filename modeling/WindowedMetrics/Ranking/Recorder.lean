import WindowedMetrics.Ranking.Held
import WindowedMetrics.Twin

/-!
# Recorders

A recorder has two shared rankings.  Offers go to the active one; taking an interval makes the other one
active and moves out what the retired one has collected, so each offer belongs to one interval.

A taken interval can be handed back with the next call to be filled again; if its sizes are not those of
the recorder it is ignored.
-/

namespace WindowedMetrics

/-- What a recorder collected between two calls. -/
structure Interval (I : Type) where
  ranking : Ranking I
  deriving DecidableEq

instance {I : Type} [Described I] : Described (Interval I) where
  describe i := Text.record "IntervalRanking" [("ranking", describe i.ranking)]

structure Recorder (I : Type) where
  settings : RankingSettings
  rankings : Twin (SharedRanking I)
  active : Side := .first

namespace Recorder

variable {I : Type} [DecidableEq I]

def create (settings : RankingSettings) : Except ConfigFault (Recorder I) := do
  let first ← SharedRanking.create settings
  let second ← SharedRanking.create settings
  return { settings, rankings := ⟨first, second⟩ }

omit [DecidableEq I] in
def capacity (r : Recorder I) : Nat := r.settings.capacity

omit [DecidableEq I] in
def stats (r : Recorder I) : ActorStats := r.rankings.first.stats.merge r.rankings.second.stats

omit [DecidableEq I] in
/-- The shared ranking on a side replaced. -/
def setRanking (r : Recorder I) (side : Side) (s : SharedRanking I) : Recorder I :=
  { r with rankings := r.rankings.set side s }

/-- Offer a position to the active ranking. -/
def update (r : Recorder I) (weight : Int64) (identity : I) : Logged (Recorder I) := do
  let s ← (r.rankings.get r.active).update weight identity
  return r.setRanking r.active s

/-- Offer to the active ranking with the writer held up. -/
def heldUpdate (r : Recorder I) (weight : Int64) (identity : I) (offers : List (Int64 × I)) :
    Logged (HeldReport I × Recorder I) := do
  let (report, s) ← (r.rankings.get r.active).heldUpdate weight identity offers
  return (report.merge (r.rankings.get r.active.other).stats, r.setRanking r.active s)

omit [DecidableEq I] in
/-- An empty ranking of the recorder's sizes, made from a recycled interval if that fits. -/
def emptied (r : Recorder I) : Option (Interval I) → Ranking I
  | some i =>
    if i.ranking.capacity = r.settings.capacity ∧ i.ranking.threshold = r.settings.threshold then
      i.ranking.reset
    else Ranking.blank r.settings.capacity r.settings.threshold
  | none => Ranking.blank r.settings.capacity r.settings.threshold

omit [DecidableEq I] in
@[simp] theorem emptied_eq (r : Recorder I) (recycled : Option (Interval I)) :
    r.emptied recycled = Ranking.blank r.settings.capacity r.settings.threshold := by
  unfold emptied
  split
  · split
    · rename_i h
      simp [Ranking.reset, Ranking.blank, h.1, h.2]
    · rfl
  · rfl

/-- Take what was offered since the last call. -/
def takeInterval (r : Recorder I) (recycled : Option (Interval I)) :
    Logged (Interval I × Recorder I) := do
  let retired := r.active
  let (ranking, s) ← (r.rankings.get retired).exchange (r.emptied recycled)
  return (⟨ranking⟩, { r.setRanking retired s with active := retired.other })

/-- Whether taking an interval compares a watched identity while applying what is queued. -/
def takeCompares (r : Recorder I) (watched : I) : Bool :=
  (r.rankings.get r.active).comparesOnEntry watched

end Recorder

instance {I : Type} : Described (Recorder I) where
  describe r := Text.record "RankingRecorder"
    [("capacity", describe r.settings.capacity), ("active", describe r.active.index)]

/-! ### Rankings that start anew with every read -/

/-- A recorder that gives each interval to one read, and keeps it for the next call. -/
structure SnapshotRanking (I : Type) where
  recorder : Recorder I
  spare : Option (Interval I) := none

namespace SnapshotRanking

variable {I : Type} [DecidableEq I]

def create (settings : RankingSettings) : Except ConfigFault (SnapshotRanking I) := do
  let recorder ← Recorder.create settings
  return { recorder }

def update (r : SnapshotRanking I) (weight : Int64) (identity : I) :
    Logged (SnapshotRanking I) := do
  let recorder ← r.recorder.update weight identity
  return { r with recorder }

def heldUpdate (r : SnapshotRanking I) (weight : Int64) (identity : I)
    (offers : List (Int64 × I)) : Logged (HeldReport I × SnapshotRanking I) := do
  let (report, recorder) ← r.recorder.heldUpdate weight identity offers
  return (report, { r with recorder })

/-- The positions offered since the last read, heaviest first. -/
def descending (r : SnapshotRanking I) : Logged (List (Position I) × SnapshotRanking I) := do
  let (interval, recorder) ← r.recorder.takeInterval r.spare
  return (interval.ranking.descending, { recorder, spare := some interval })

end SnapshotRanking

instance {I : Type} : Described (SnapshotRanking I) where
  describe r := Text.record "ResetOnSnapshotRanking" [("recorder", describe r.recorder)]

end WindowedMetrics
