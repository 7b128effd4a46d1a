import WindowedMetrics.Fault

/-!
# Settings of a ranking

How many positions a ranking keeps, from which weight on, and how the actor that applies its offers is
sized.
-/

namespace WindowedMetrics

structure RankingSettings where
  capacity : Nat
  threshold : Int64 := 0
  poolSize : Nat := Limits.defaultPoolSize
  batchSize : Nat := Limits.defaultBatchSize
  deriving DecidableEq

namespace RankingSettings

/-- The first fault of the settings, if any: capacity, then pool, then batch. -/
def validate (s : RankingSettings) : Except ConfigFault Unit :=
  if s.capacity = 0 ∨ Limits.maxRankingCapacity < s.capacity then
    .error (.invalidCapacity s.capacity)
  else if s.poolSize = 0 then .error (.invalidSizing .poolSize)
  else if s.batchSize = 0 then .error (.invalidSizing .batchSize)
  else .ok ()

end RankingSettings

end WindowedMetrics
