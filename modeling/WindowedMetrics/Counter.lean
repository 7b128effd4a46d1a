import WindowedMetrics.Cache
import WindowedMetrics.Retention
import WindowedMetrics.Window.Rolling
import WindowedMetrics.Window.PeriodicReset

/-!
# Counters

A counter sums signed deltas under one of the four retentions.  Within one sum additions wrap around;
the chunks of a rolling window are summed up with saturation, oldest first.
-/

namespace WindowedMetrics

instance : Accumulator Int64 Int64 where
  zero := 0
  add := (· + ·)

/-- Sum that stops at the smallest and the largest number. -/
def saturatingSum (a b : Int64) : Int64 :=
  let sum := a.toInt + b.toInt
  if sum < Int64.minValue.toInt then Int64.minValue
  else if Int64.maxValue.toInt < sum then Int64.maxValue
  else Int64.ofInt sum

inductive Counter where
  | uniform (sum : Int64)
  | resetOnSnapshot (sum : Int64)
  | resetPeriodically (reset : PeriodicReset) (sum : Int64)
  | rolling (window : RollingWindow Int64)

namespace Counter

/-- A counter that is reset every `interval` milliseconds. -/
def createPeriodic (interval now : Nat) : Counter := .resetPeriodically (.create interval now) 0

/-- A counter over a rolling window of `chunks` chunks of `interval` milliseconds. -/
def createRolling (chunks interval now : Nat) : Counter := .rolling (.create chunks interval now)

/-- What a rolling window holds at `now`. -/
def rollingSum (window : RollingWindow Int64) (now : Nat) : Int64 :=
  (window.live now).foldl (fun sum c => saturatingSum sum (c.2.scale c.1)) 0

def add (c : Counter) (now : Nat) (delta : Int64) : Logged Counter :=
  match c with
  | .uniform sum => pure (.uniform (sum + delta))
  | .resetOnSnapshot sum => pure (.resetOnSnapshot (sum + delta))
  | .resetPeriodically reset sum => do
    let (sum, reset) ← reset.access now 0 sum
    return .resetPeriodically reset (sum + delta)
  | .rolling window => do
    let window ← window.add delta now
    return .rolling window

def sum (c : Counter) (now : Nat) : Logged (Int64 × Counter) :=
  match c with
  | .uniform sum => pure (sum, c)
  | .resetOnSnapshot sum => pure (sum, .resetOnSnapshot 0)
  | .resetPeriodically reset sum => do
    let (sum, reset) ← reset.access now 0 sum
    return (sum, .resetPeriodically reset sum)
  | .rolling window => pure (rollingSum window now, c)

instance : Aggregate Counter Int64 Unit Int64 where
  write c now delta := do
    let c ← c.add now delta
    return ((), c)
  read := sum

/-- The diagnostic text at `now`. -/
def describeAt (now : Nat) : Counter → String
  | .uniform sum => Text.record "UniformCounter" [("sum", describe sum)]
  | .resetOnSnapshot sum => Text.record "ResetOnSnapshotCounter" [("sum", describe sum)]
  | .resetPeriodically reset sum => Text.record "ResetPeriodicallyCounter"
      [("interval_ms", describe reset.interval), ("sum", describe sum)]
  | .rolling window => Text.record "SmoothlyDecayingRollingCounter"
      [("interval_ms", describe window.interval), ("sum", describe (rollingSum window now))]

/-- The counter of a valid retention. -/
def ofRetention (r : Retention) (now : Nat) : Counter :=
  match r with
  | .uniform => .uniform 0
  | .resetOnSnapshot => .resetOnSnapshot 0
  | .resetPeriodically interval => createPeriodic interval.cappedMillis now
  | .byChunks window chunks => createRolling chunks (chunkInterval window chunks) now

/-- Build a counter that starts at `now`. -/
def build (p : Policy) (now : Nat) : Except ConfigFault (Decorated Counter Int64) := do
  p.validate
  return .create (ofRetention p.retention now) p.caching

/-- The diagnostic text of a counter and its cache. -/
def describeDecorated (c : Decorated Counter Int64) (now : Nat) : String :=
  c.describeWith "CachingCounter" "counter" (describeAt now)

end Counter

end WindowedMetrics
