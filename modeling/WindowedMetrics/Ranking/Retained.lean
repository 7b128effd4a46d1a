import WindowedMetrics.Cache
import WindowedMetrics.Ranking.HeldRotation
import WindowedMetrics.Retention

/-!
# Rankings under a retention

`RetainedRanking` is a ranking under any of the retentions, and `build` makes one from a policy.
-/

namespace WindowedMetrics

inductive RetainedRanking (I : Type) where
  | uniform (r : SharedRanking I)
  | resetOnSnapshot (r : SnapshotRanking I)
  | rolling (r : RollingRanking I)

namespace RetainedRanking

variable {I : Type} [DecidableEq I]

/-- A ranking that keeps everything. -/
def createUniform (settings : RankingSettings) : Except ConfigFault (RetainedRanking I) :=
  .uniform <$> SharedRanking.create settings

/-- A ranking that starts anew with every read. -/
def createSnapshot (settings : RankingSettings) : Except ConfigFault (RetainedRanking I) :=
  .resetOnSnapshot <$> SnapshotRanking.create settings

/-- A rolling ranking. -/
def createRolling (settings : RankingSettings) (interval archiveSize now : Nat)
    (background : Background) : Except ConfigFault (RetainedRanking I) := do
  let ranking ← ChunkedRanking.create settings interval archiveSize now
  return .rolling { ranking, background }

def update (r : RetainedRanking I) (now : Nat) (weight : Int64) (identity : I) :
    Logged (RetainedRanking I) :=
  match r with
  | .uniform r => .uniform <$> r.update weight identity
  | .resetOnSnapshot r => .resetOnSnapshot <$> r.update weight identity
  | .rolling r => .rolling <$> r.update now weight identity

def descending (r : RetainedRanking I) (now : Nat) :
    Logged (List (Position I) × RetainedRanking I) :=
  match r with
  | .uniform r => do
    let (positions, r) ← r.descending
    return (positions, .uniform r)
  | .resetOnSnapshot r => do
    let (positions, r) ← r.descending
    return (positions, .resetOnSnapshot r)
  | .rolling r => do
    let (positions, r) ← r.descending now
    return (positions, .rolling r)

instance : Aggregate (RetainedRanking I) (Int64 × I) Unit (List (Position I)) where
  write r now offer := do
    let r ← r.update now offer.1 offer.2
    return ((), r)
  read := descending

omit [DecidableEq I] in
def capacity : RetainedRanking I → Nat
  | .uniform r => r.capacity
  | .resetOnSnapshot r => r.recorder.capacity
  | .rolling r => r.ranking.capacity

omit [DecidableEq I] in
def stats : RetainedRanking I → ActorStats
  | .uniform r => r.stats
  | .resetOnSnapshot r => r.recorder.stats
  | .rolling r => r.ranking.stats

/-- Offer positions one by one. -/
def updateAll (r : RetainedRanking I) (now : Nat) (offers : List (Int64 × I)) :
    Logged (RetainedRanking I) :=
  offers.foldlM (fun r o => r.update now o.1 o.2) r

/-- A held update, and after it the offers that were not made meanwhile. -/
def stall (r : RetainedRanking I) (now : Nat) (weight : Int64) (identity : I)
    (offers : List (Int64 × I)) : Logged (HeldReport I × RetainedRanking I) := do
  let (report, r) ← match r with
    | .uniform r => do
      let (report, r) ← r.heldUpdate weight identity offers
      pure (report, RetainedRanking.uniform r)
    | .resetOnSnapshot r => do
      let (report, r) ← r.heldUpdate weight identity offers
      pure (report, .resetOnSnapshot r)
    | .rolling r => do
      let (report, r) ← r.heldUpdate now weight identity offers
      pure (report, .rolling r)
  let r ← r.updateAll now report.rest
  return (report, r)

/-! ### Kept tasks -/

omit [DecidableEq I] in
/-- The number of kept tasks. -/
def taskCount : RetainedRanking I → Nat
  | .rolling r => r.tasks.length
  | _ => 0

def runTask (r : RetainedRanking I) (number : Nat) : Logged (Bool × RetainedRanking I) :=
  match r with
  | .rolling r => do
    let (found, r) ← r.runTask number
    return (found, .rolling r)
  | r => pure (false, r)

omit [DecidableEq I] in
def dropTask (r : RetainedRanking I) (number : Nat) : Bool × RetainedRanking I :=
  match r with
  | .rolling r =>
    let (found, r) := r.dropTask number
    (found, .rolling r)
  | r => (false, r)

/-! ### Building -/

/-- The ranking of a valid policy.  Periodic resets are a rolling ranking without an archive. -/
def ofPolicy (p : Policy) (settings : RankingSettings) (now : Nat) :
    Except ConfigFault (RetainedRanking I) :=
  match p.retention with
  | .uniform => createUniform settings
  | .resetOnSnapshot => createSnapshot settings
  | .resetPeriodically interval => createRolling settings interval.cappedMillis 0 now p.background
  | .byChunks window chunks =>
    createRolling settings (chunkInterval window chunks) chunks now p.background

/-- Build a ranking that starts at `now`. -/
def build (p : Policy) (settings : RankingSettings) (now : Nat) :
    Except ConfigFault (Decorated (RetainedRanking I) (List (Position I))) := do
  p.validateForRanking
  settings.validate
  let r ← ofPolicy p settings now
  return .create r p.caching

end RetainedRanking

instance {I : Type} [Described I] : Described (RetainedRanking I) where
  describe
    | .uniform r => describe r
    | .resetOnSnapshot r => describe r
    | .rolling r => describe r.ranking

/-- The diagnostic text of a ranking and its cache. -/
def RetainedRanking.describeDecorated {I : Type} [Described I]
    (r : Decorated (RetainedRanking I) (List (Position I))) : String :=
  r.describeWith "CachingRanking" "ranking" describe

end WindowedMetrics
