import Std.Data.TreeMap
import WindowedMetrics.Fault
import WindowedMetrics.Reservoir.Scale
import WindowedMetrics.Text.Described

/-!
# Reservoirs of values

A reservoir counts values in the sub-buckets of a scale.  Negative values count as zero; values beyond
the scale count as the highest value it was made for.

A snapshot is a copy of the counts, from which extremes, mean, deviation and quantiles are read off.  A
value read off a snapshot is that of a sub-bucket, so it is exact to the digits of the scale.
-/

namespace WindowedMetrics

/-- How often the sub-buckets of a scale were hit. -/
structure Distribution where
  scale : Scale
  /-- The highest value that is told apart. -/
  high : Nat
  counts : Std.TreeMap Nat Nat := {}
  total : Nat := 0
  largest : Nat := 0
  /-- The smallest value but zero. -/
  smallest : Option Nat := none

namespace Distribution

/-- A distribution of values up to `high`, unless the bounds are out of range. -/
def create (high digits : Nat) : Except ConfigFault Distribution :=
  if high < 2 then .error (.invalidBounds .highestTooLow)
  else if 5 < digits then .error (.invalidBounds .tooManyDigits)
  else .ok { scale := ⟨digits⟩, high }

/-- The value that is counted in place of a value. -/
def clamp (d : Distribution) (v : Nat) : Nat :=
  if d.scale.index v < d.scale.size d.high then v else d.high

def record (d : Distribution) (v : Nat) : Distribution :=
  let v := d.clamp v
  let i := d.scale.index v
  { d with
    counts := d.counts.insert i (d.counts.getD i 0 + 1)
    total := d.total + 1
    largest := max d.largest v
    smallest := if v = 0 then d.smallest else some (d.smallest.elim v (min v)) }

/-- Forget all values. -/
def clear (d : Distribution) : Distribution := { scale := d.scale, high := d.high }

def least (d : Distribution) : Nat :=
  if d.counts.contains 0 then 0 else (d.smallest.map d.scale.lowest).getD 0

def greatest (d : Distribution) : Nat := if d.largest = 0 then 0 else d.scale.highest d.largest

/-- The value that stands for a sub-bucket in averages. -/
def midpoint (d : Distribution) (i : Nat) : Float :=
  (d.scale.median (d.scale.highest (d.scale.valueAt i))).toUInt64.toFloat

def mean (d : Distribution) : Float :=
  d.counts.toList.foldl (fun acc c =>
    acc + d.midpoint c.1 * c.2.toUInt64.toFloat / d.total.toUInt64.toFloat) 0.0

def deviation (d : Distribution) : Float :=
  let mean := d.mean
  let squares := d.counts.toList.foldl (fun acc c =>
    let off := d.midpoint c.1 - mean
    acc + off * off * c.2.toUInt64.toFloat) 0.0
  (squares / d.total.toUInt64.toFloat).sqrt

/-- The first index up to which at least `rank` values were counted. -/
def indexOfRank (rank : Nat) : (counted : Nat) → List (Nat × Nat) → Option Nat
  | _, [] => none
  | counted, (i, n) :: rest =>
    if rank ≤ counted + n then some i else indexOfRank rank (counted + n) rest

/-- A fraction brought into the range from zero to one. -/
def clampFraction (q : Float) : Float :=
  if q < 0.0 then 0.0 else if 1.0 < q then 1.0 else q

/-- The value below or at which a fraction of all values lies. -/
def quantile (d : Distribution) (q : Float) : Nat :=
  let q := clampFraction q
  let rank := max 1 (q * d.total.toUInt64.toFloat).ceil.toUInt64.toNat
  match indexOfRank rank 0 d.counts.toList with
  | none => 0
  | some i =>
    let v := d.scale.valueAt i
    if q == 0.0 then d.scale.lowest v else d.scale.highest v

end Distribution

/-- What was counted up to an instant. -/
structure Snapshot where
  distribution : Distribution

namespace Snapshot

def count (s : Snapshot) : Nat := s.distribution.total

def isEmpty (s : Snapshot) : Bool := s.count = 0

def least (s : Snapshot) : Nat := if s.isEmpty then 0 else s.distribution.least

def greatest (s : Snapshot) : Nat := if s.isEmpty then 0 else s.distribution.greatest

def mean (s : Snapshot) : Float := if s.isEmpty then 0.0 else s.distribution.mean

def deviation (s : Snapshot) : Float := if s.isEmpty then 0.0 else s.distribution.deviation

def quantile (s : Snapshot) (q : Float) : Nat := if s.isEmpty then 0 else s.distribution.quantile q

/-- The line that sums a snapshot up. -/
def summary (s : Snapshot) : String :=
  let mean := Decimal.twoPlaces s.mean
  let (median, p99, p999) := (s.quantile 0.5, s.quantile 0.99, s.quantile 0.999)
  s!"count={s.count} min={s.least} max={s.greatest} mean={mean} p50={median} p99={p99} p999={p999}"

end Snapshot

structure Reservoir where
  distribution : Distribution
  /-- Whether a snapshot takes the counted values away. -/
  resetOnSnapshot : Bool := false

namespace Reservoir

def create (high digits : Nat) : Except ConfigFault Reservoir := do
  let distribution ← Distribution.create high digits
  return { distribution }

def withResetOnSnapshot (r : Reservoir) : Reservoir := { r with resetOnSnapshot := true }

/-- Count a value. -/
def update (r : Reservoir) (v : Int64) : Reservoir :=
  { r with distribution := r.distribution.record v.toInt.toNat }

def snapshot (r : Reservoir) : Snapshot × Reservoir :=
  (⟨r.distribution⟩,
    if r.resetOnSnapshot then { r with distribution := r.distribution.clear } else r)

end Reservoir

instance : Described Reservoir where
  describe r := Text.record "HdrReservoir"
    [("samples", describe r.distribution.total), ("high", describe r.distribution.high),
      ("reset_on_snapshot", describe r.resetOnSnapshot)]

end WindowedMetrics
