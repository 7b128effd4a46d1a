import WindowedMetrics.Text.Described
import WindowedMetrics.Window.Rolling

/-!
# Packed hit counts

Hits and attempts share one word, hits in its upper half.  When the attempts would no longer fit, both
counts are halved until they do.
-/

namespace WindowedMetrics

/-- Hits and attempts in one word. -/
structure HitCounts where
  word : UInt64
  deriving DecidableEq

namespace HitCounts

def zero : HitCounts := ⟨0⟩

def pack (hits total : UInt32) : HitCounts := ⟨hits.toUInt64 <<< 32 ||| total.toUInt64⟩

def hits (c : HitCounts) : UInt32 := (c.word >>> 32).toUInt32

def total (c : HitCounts) : UInt32 := c.word.toUInt32

/-- Halve both counts until `room` more attempts fit. -/
def makeRoom (hits total room : UInt32) : UInt32 × UInt32 :=
  if total.toNat + room.toNat < UInt32.size then (hits, total)
  else makeRoom (hits / 2) (total / 2) room
termination_by total.toNat
decreasing_by
  have h := room.toNat_lt
  have hs : UInt32.size = 4294967296 := rfl
  rw [UInt32.toNat_div]
  change total.toNat / 2 < total.toNat
  omega

def add (c : HitCounts) (hits total : UInt32) : HitCounts :=
  let (h, t) := makeRoom c.hits c.total total
  pack (h + hits) (t + total)

instance : Accumulator HitCounts (UInt32 × UInt32) where
  zero := zero
  add c d := c.add d.1 d.2

end HitCounts

instance : Described HitCounts where
  describe c := Text.applied "PackedCounts" (toString c.word.toNat)

end WindowedMetrics
