import Mathlib.Order.Nat
import WindowedMetrics.Time

/-!
# Intervals of time

Where the intervals since a creation start and end.
-/

namespace WindowedMetrics

/-- The instant at which an interval starts. -/
def startOf (creation interval k : Nat) : Nat := creation + k * interval

variable {creation interval now k : Nat}

theorem startOf_mono {i j : Nat} (h : i ≤ j) : startOf creation interval i ≤ startOf creation interval j :=
  Nat.add_le_add_left (Nat.mul_le_mul_right interval h) creation

theorem startOf_add (i j : Nat) :
    startOf creation interval (i + j) = startOf creation interval i + j * interval := by
  unfold startOf
  rw [Nat.add_mul, Nat.add_assoc]

/-- An interval has begun at its start. -/
theorem le_intervalIndex_iff (hi : 0 < interval) (hc : creation ≤ now) :
    k ≤ intervalIndex creation interval now ↔ startOf creation interval k ≤ now := by
  unfold intervalIndex startOf
  rw [Nat.le_div_iff_mul_le hi]
  omega

theorem intervalIndex_mono {s t : Nat} (h : s ≤ t) :
    intervalIndex creation interval s ≤ intervalIndex creation interval t :=
  Nat.div_le_div_right (Nat.sub_le_sub_right h creation)

/-- Interval `k` runs at `now`. -/
structure RunsAt (creation interval k now : Nat) : Prop where
  index_eq : intervalIndex creation interval now = k
  start_le : startOf creation interval k ≤ now
  lt_end : now < startOf creation interval (k + 1)

/-- At every instant since creation some interval runs. -/
theorem runsAt_intervalIndex (hi : 0 < interval) (hc : creation ≤ now) :
    RunsAt creation interval (intervalIndex creation interval now) now where
  index_eq := rfl
  start_le := (le_intervalIndex_iff hi hc).mp (Nat.le_refl _)
  lt_end := by
    by_contra h
    have := (le_intervalIndex_iff hi hc).mpr (Nat.not_lt.mp h)
    omega

theorem RunsAt.mono {i j t : Nat} (hi : RunsAt creation interval i t) (hj : RunsAt creation interval j now)
    (h : t ≤ now) : i ≤ j := by
  rw [← hi.index_eq, ← hj.index_eq]
  exact intervalIndex_mono h

/-- While an interval runs, the later ones have not begun. -/
theorem RunsAt.lt_startOf_iff {i : Nat} (h : RunsAt creation interval k now) :
    now < startOf creation interval i ↔ k < i := by
  constructor
  · intro hlt
    by_contra hle
    have hbegun := (startOf_mono (Nat.not_lt.mp hle)).trans h.start_le
    omega
  · intro hlt
    exact h.lt_end.trans_le (startOf_mono hlt)

/-- What is clear of a limit at an instant has been so before. -/
theorem startOf_intervalIndex_le {limit n t : Nat}
    (hlimit : startOf creation interval (intervalIndex creation interval now + n + 1) ≤ limit)
    (h : t ≤ now) : startOf creation interval (intervalIndex creation interval t + n + 1) ≤ limit :=
  (startOf_mono (Nat.add_le_add_right (intervalIndex_mono h) (n + 1))).trans hlimit

/-- A boundary does not come after the start of its interval. -/
theorem boundary_le_startOf (creation interval k : Nat) :
    boundary creation k interval ≤ startOf creation interval k := by
  unfold boundary startOf satAdd satMul
  omega

/-- Boundaries that do not saturate are the starts of intervals. -/
theorem boundary_eq_startOf (h : startOf creation interval k ≤ dormant - 1) :
    boundary creation k interval = startOf creation interval k := boundary_eq h

end WindowedMetrics
