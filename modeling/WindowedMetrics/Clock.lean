import WindowedMetrics.Text.Described
import WindowedMetrics.Time

/-!
# Clocks set by hand

A clock shows an instant and moves only when told to.  Moving it on wraps around after the largest word.
-/

namespace WindowedMetrics

structure Clock where
  now : Nat := 0
  deriving DecidableEq

namespace Clock

def set (_ : Clock) (instant : Nat) : Clock := ⟨instant⟩

def advance (c : Clock) (d : Duration) : Clock := ⟨(c.now + d.millis) % UInt64.size⟩

theorem now_advance_lt (c : Clock) (d : Duration) : (c.advance d).now < UInt64.size :=
  Nat.mod_lt _ (by decide)

end Clock

instance : Described Clock where
  describe c := Text.record "MockTicker" [("millis", describe c.now)]

end WindowedMetrics
