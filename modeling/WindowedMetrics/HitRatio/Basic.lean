import WindowedMetrics.Cache
import WindowedMetrics.HitRatio.Counts
import WindowedMetrics.Retention
import WindowedMetrics.Window.PeriodicReset

/-!
# Hit ratios

The share of hits among all attempts, under one of the four retentions.  The ratio of a rolling window
weighs hits and attempts of each chunk with the chunk's share.  Without attempts there is no ratio.
-/

namespace WindowedMetrics

inductive HitRatio where
  | uniform (counts : HitCounts)
  | resetOnSnapshot (counts : HitCounts)
  | resetPeriodically (reset : PeriodicReset) (counts : HitCounts)
  | rolling (window : RollingWindow HitCounts)

namespace HitRatio

/-- A ratio that is reset every `interval` milliseconds. -/
def createPeriodic (interval now : Nat) : HitRatio :=
  .resetPeriodically (.create interval now) .zero

/-- A ratio over a rolling window of `chunks` chunks of `interval` milliseconds. -/
def createRolling (chunks interval now : Nat) : HitRatio := .rolling (.create chunks interval now)

/-- Hits by attempts, not a number without attempts. -/
def quotient (hits total : Float) : Float :=
  if total == 0.0 then 0.0 / 0.0 else hits / total

def ofCounts (c : HitCounts) : Float :=
  quotient c.hits.toUInt64.toFloat c.total.toUInt64.toFloat

/-- Hits and attempts weighed with their shares, oldest chunk first. -/
def weigh (live : List (HitCounts × Share)) : Float × Float :=
  live.foldl (fun sums c =>
    let coefficient := c.2.coefficient
    (sums.1 + c.1.hits.toUInt64.toFloat * coefficient,
      sums.2 + c.1.total.toUInt64.toFloat * coefficient)) (0.0, 0.0)

/-- The ratio of a rolling window at `now`. -/
def rollingRatio (window : RollingWindow HitCounts) (now : Nat) : Float :=
  let (hits, total) := weigh (window.live now)
  quotient hits total

/-- Record hits among attempts, of which there cannot be fewer. -/
def update (r : HitRatio) (now : Nat) (hits total : UInt32) :
    Logged (Except UsageFault Unit × HitRatio) :=
  if total < hits then pure (.error (.hitsExceedTotal hits total), r)
  else match r with
    | .uniform counts => pure (.ok (), .uniform (counts.add hits total))
    | .resetOnSnapshot counts => pure (.ok (), .resetOnSnapshot (counts.add hits total))
    | .resetPeriodically reset counts => do
      let (counts, reset) ← reset.access now .zero counts
      return (.ok (), .resetPeriodically reset (counts.add hits total))
    | .rolling window => do
      let window ← window.add (hits, total) now
      return (.ok (), .rolling window)

def ratio (r : HitRatio) (now : Nat) : Logged (Float × HitRatio) :=
  match r with
  | .uniform counts => pure (ofCounts counts, r)
  | .resetOnSnapshot counts => pure (ofCounts counts, .resetOnSnapshot .zero)
  | .resetPeriodically reset counts => do
    let (counts, reset) ← reset.access now .zero counts
    return (ofCounts counts, .resetPeriodically reset counts)
  | .rolling window => pure (rollingRatio window now, r)

instance : Aggregate HitRatio (UInt32 × UInt32) (Except UsageFault Unit) Float where
  write r now w := r.update now w.1 w.2
  read := ratio

/-- The diagnostic text at `now`. -/
def describeAt (now : Nat) : HitRatio → String
  | .uniform counts => Text.record "UniformHitRatio" [("counts", describe counts)]
  | .resetOnSnapshot counts => Text.record "ResetOnSnapshotHitRatio" [("counts", describe counts)]
  | .resetPeriodically reset counts => Text.record "ResetPeriodicallyHitRatio"
      [("interval_ms", describe reset.interval), ("hits", toString counts.hits.toNat),
        ("total", toString counts.total.toNat)]
  | .rolling window => Text.record "SmoothlyDecayingRollingHitRatio"
      [("interval_ms", describe window.interval), ("ratio", describe (rollingRatio window now))]

/-- The hit ratio of a valid retention. -/
def ofRetention (r : Retention) (now : Nat) : HitRatio :=
  match r with
  | .uniform => .uniform .zero
  | .resetOnSnapshot => .resetOnSnapshot .zero
  | .resetPeriodically interval => createPeriodic interval.cappedMillis now
  | .byChunks window chunks => createRolling chunks (chunkInterval window chunks) now

/-- Build a hit ratio that starts at `now`. -/
def build (p : Policy) (now : Nat) : Except ConfigFault (Decorated HitRatio Float) := do
  p.validate
  return .create (ofRetention p.retention now) p.caching

/-- The diagnostic text of a hit ratio and its cache. -/
def describeDecorated (r : Decorated HitRatio Float) (now : Nat) : String :=
  r.describeWith "CachingHitRatio" "ratio" (describeAt now)

end HitRatio

end WindowedMetrics
