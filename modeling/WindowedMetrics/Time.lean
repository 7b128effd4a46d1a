import WindowedMetrics.Word

/-!
# Instants, durations and rotation boundaries

Instants are milliseconds, natural numbers up to `maxWord`; sums and products that could pass that bound
saturate.  The last instant is set aside as `dormant`: no boundary reaches it
(`boundary_lt_dormant`), so a phase that is scheduled is never taken for one that is not.
-/

namespace WindowedMetrics

/-! ### Durations -/

/-- A length of time: whole seconds and nanoseconds below one second. -/
structure Duration where
  seconds : Nat
  nanos : Nat
  deriving DecidableEq

namespace Duration

def isZero (d : Duration) : Bool := d.seconds == 0 && d.nanos == 0

/-- Whole milliseconds, of any size. -/
def millis (d : Duration) : Nat := d.seconds * 1000 + d.nanos / 1000000

/-- Whole milliseconds, at most the largest word. -/
def cappedMillis (d : Duration) : Nat := min d.millis maxWord

theorem cappedMillis_of_le {d : Duration} (h : d.millis ≤ maxWord) : d.cappedMillis = d.millis :=
  Nat.min_eq_left h

end Duration

/-! ### Boundaries -/

/-- The instant that stands for "not scheduled". -/
def dormant : Nat := maxWord

/-- The end of the given number of intervals after `creation`, at most the last instant before
`dormant`. -/
def boundary (creation intervals interval : Nat) : Nat :=
  min (satAdd (satMul intervals interval) creation) (dormant - 1)

theorem boundary_lt_dormant (creation intervals interval : Nat) :
    boundary creation intervals interval < dormant := by
  have := maxWord_eq
  unfold boundary dormant
  omega

/-- A boundary that does not pass the last instant is the plain sum. -/
theorem boundary_eq {creation intervals interval : Nat}
    (h : creation + intervals * interval ≤ dormant - 1) :
    boundary creation intervals interval = creation + intervals * interval := by
  have := maxWord_eq
  unfold boundary satAdd satMul
  unfold dormant at *
  omega

theorem boundary_mono {creation i j interval : Nat} (h : i ≤ j) :
    boundary creation i interval ≤ boundary creation j interval := by
  have := Nat.mul_le_mul_right interval h
  unfold boundary satAdd satMul
  omega

/-- The number of whole intervals from `creation` to `now`; an earlier `now` counts as `creation`. -/
def intervalIndex (creation interval now : Nat) : Nat := (now - creation) / interval

end WindowedMetrics
