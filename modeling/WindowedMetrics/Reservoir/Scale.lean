import WindowedMetrics.Word

/-!
# Bucket scales

A scale puts numbers into buckets of doubling width, so that numbers are told apart to a fixed number of
significant digits.  Bucket `0` holds single numbers, and each bucket is twice as wide as the one before
it; a bucket has `2 * half` sub-buckets, of which the lower half is covered by the buckets before it.
Sub-buckets are indexed through all buckets.
-/

namespace WindowedMetrics

structure Scale where
  /-- Significant digits that are told apart. -/
  digits : Nat
  deriving DecidableEq

namespace Scale

/-- The base-two logarithm of a number from one on, rounded up. -/
def ceilLog2 (x : Nat) : Nat := if x ≤ 1 then 0 else (x - 1).log2 + 1

/-- The number of bits of a number. -/
def bitLength (v : Nat) : Nat := if v = 0 then 0 else v.log2 + 1

/-- Bits of a sub-bucket number. -/
def bits (s : Scale) : Nat := ceilLog2 (2 * Nat.pow 10 s.digits)

/-- Half the sub-buckets of a bucket. -/
def half (s : Scale) : Nat := 1 <<< s.bits / 2

/-- The bucket of a number. -/
def bucket (s : Scale) (v : Nat) : Nat := bitLength v - s.bits

/-- The index of the sub-bucket of a number. -/
def index (s : Scale) (v : Nat) : Nat := s.bucket v * s.half + v >>> s.bucket v

/-- The least number of the sub-bucket with this index. -/
def valueAt (s : Scale) (i : Nat) : Nat :=
  if i < s.half then i else (i % s.half + s.half) <<< (i / s.half - 1)

/-- How many numbers share a sub-bucket with `v`. -/
def width (s : Scale) (v : Nat) : Nat := 1 <<< s.bucket v

/-- The least number in the sub-bucket of `v`. -/
def lowest (s : Scale) (v : Nat) : Nat := v >>> s.bucket v <<< s.bucket v

/-- The largest number in the sub-bucket of `v`. -/
def highest (s : Scale) (v : Nat) : Nat := satAdd (s.lowest v) (s.width v - 1)

/-- The number in the middle of the sub-bucket of `v`. -/
def median (s : Scale) (v : Nat) : Nat := s.lowest v + s.width v / 2

/-- Buckets beyond the first that are needed to go from below `reach` up to `high`. -/
def bucketsBeyond : (fuel reach high : Nat) → Nat
  | 0, _, _ => 0
  | fuel + 1, reach, high =>
    if high < reach then 0
    else if maxWord / 2 < reach then 1
    else 1 + bucketsBeyond fuel (reach * 2) high

/-- The number of indices that a scale up to `high` has. -/
def size (s : Scale) (high : Nat) : Nat := (2 + bucketsBeyond 64 (1 <<< s.bits) high) * s.half

end Scale

end WindowedMetrics
