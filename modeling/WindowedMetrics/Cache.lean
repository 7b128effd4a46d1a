import WindowedMetrics.Log
import WindowedMetrics.Text.Described
import WindowedMetrics.Time

/-!
# Cached reads

A cache keeps the value of the last read for a fixed time.  An `Aggregate` is anything that is written
to and read at instants of time; `Decorated` puts a cache in front of its reads and leaves its writes
alone.
-/

namespace WindowedMetrics

structure Cache (V : Type) where
  duration : Nat
  /-- The value kept, and when it was computed. -/
  entry : Option (V × Nat) := none

namespace Cache

variable {V : Type}

def create (d : Duration) : Cache V := { duration := d.cappedMillis }

/-- The value kept, if it is still good at `now`. -/
def fresh? (c : Cache V) (now : Nat) : Option V :=
  match c.entry with
  | some (v, computed) => if now < satAdd computed c.duration then some v else none
  | none => none

def store (c : Cache V) (v : V) (now : Nat) : Cache V := { c with entry := some (v, now) }

/-- Forget the value. -/
def invalidate (c : Cache V) : Cache V := { c with entry := none }

/-- The value at `now`, computed anew if need be, and whether it was. -/
def getOrCompute (c : Cache V) (now : Nat) (compute : Unit → V) : (V × Bool) × Cache V :=
  match c.fresh? now with
  | some v => ((v, false), c)
  | none =>
    let v := compute ()
    ((v, true), c.store v now)

end Cache

instance {V : Type} : Described (Cache V) where
  describe c := Text.record "CachingSupplier"
    [("duration_ms", describe c.duration), ("cached", describe c.entry.isSome)]

/-! ### Aggregates -/

/-- States `σ` with writes `W` answered by `R`, and reads answered by `V`. -/
class Aggregate (σ : Type) (W R V : outParam Type) where
  write : σ → Nat → W → Logged (R × σ)
  read : σ → Nat → Logged (V × σ)

/-- An aggregate, with or without a cache in front of its reads. -/
structure Decorated (σ V : Type) where
  inner : σ
  cache : Option (Cache V) := none

namespace Decorated

variable {σ W R V : Type} [Aggregate σ W R V]

omit [Aggregate σ W R V] in
def create (inner : σ) (caching : Option Duration) : Decorated σ V :=
  { inner, cache := caching.map Cache.create }

def write (d : Decorated σ V) (now : Nat) (w : W) : Logged (R × Decorated σ V) := do
  let (reply, inner) ← Aggregate.write d.inner now w
  return (reply, { d with inner })

def read (d : Decorated σ V) (now : Nat) : Logged (V × Decorated σ V) :=
  match d.cache with
  | none => do
    let (v, inner) ← Aggregate.read d.inner now
    return (v, { d with inner })
  | some cache =>
    match cache.fresh? now with
    | some v => pure (v, d)
    | none => do
      let (v, inner) ← Aggregate.read d.inner now
      return (v, { inner, cache := some (cache.store v now) })

instance : Aggregate (Decorated σ V) W R V where
  write := write
  read := read

omit [Aggregate σ W R V] in
/-- The text of the aggregate, inside that of its cache if there is one. -/
def describeWith (d : Decorated σ V) (name label : String) (text : σ → String) : String :=
  match d.cache with
  | none => text d.inner
  | some cache => Text.record name [(label, text d.inner), ("cache", describe cache)]

end Decorated

end WindowedMetrics
