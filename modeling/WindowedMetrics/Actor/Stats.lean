import WindowedMetrics.Text.Described

/-!
# Actor statistics and health

Counts of what an actor did, and the health they show.  An actor is under pressure when more than one
submission in a hundred overflowed or a drain was capped, and under sustained pressure when more than
one in ten overflowed.
-/

namespace WindowedMetrics

structure ActorStats where
  poolSize : Nat
  batchSize : Nat
  submitted : Nat := 0
  executed : Nat := 0
  overflows : Nat := 0
  capHits : Nat := 0
  deriving DecidableEq

inductive Health where
  | healthy
  | degraded
  | critical
  deriving DecidableEq

namespace Health

def name : Health → String
  | .healthy => "Healthy"
  | .degraded => "Degraded"
  | .critical => "Critical"

/-- The name behind its sign. -/
def display : Health → String
  | .healthy => "✅ Healthy"
  | .degraded => "⚠️ Degraded"
  | .critical => "🔴 Critical"

def isUnhealthy (h : Health) : Bool := h ≠ .healthy

def suggestedAction : Health → String
  | .healthy => "No action needed"
  | .degraded => "Monitor closely, consider a larger action pool"
  | .critical => "Immediate action required: increase the action pool size"

end Health

namespace ActorStats

/-- Overflows per submission, zero where nothing was submitted. -/
def overflowRate (s : ActorStats) : Float :=
  if s.submitted = 0 then 0.0 else s.overflows.toUInt64.toFloat / s.submitted.toUInt64.toFloat

/-- Submissions that have not run. -/
def pending (s : ActorStats) : Nat := s.submitted - s.executed

def underPressure (s : ActorStats) : Bool := s.overflowRate > 0.01 || s.capHits > 0

def underSustainedPressure (s : ActorStats) : Bool := s.overflowRate > 0.10

def health (s : ActorStats) : Health :=
  if s.underSustainedPressure then .critical
  else if s.underPressure then .degraded
  else .healthy

/-- The statistics of two actors taken together: counts add up, the batch limit is the larger. -/
def merge (s t : ActorStats) : ActorStats where
  poolSize := s.poolSize + t.poolSize
  batchSize := max s.batchSize t.batchSize
  submitted := s.submitted + t.submitted
  executed := s.executed + t.executed
  overflows := s.overflows + t.overflows
  capHits := s.capHits + t.capHits

theorem merge_comm (s t : ActorStats) : s.merge t = t.merge s := by
  simp [merge, Nat.add_comm, Nat.max_comm]

/-- The report in lines. -/
def summary (s : ActorStats) : String :=
  "\n".intercalate [
    "BufferedActor Stats:",
    "├─ Sizing:",
    "│  ├─ Pool Size: " ++ toString s.poolSize,
    "│  └─ Batch Size: " ++ toString s.batchSize,
    "├─ Counters:",
    "│  ├─ Submitted: " ++ toString s.submitted,
    "│  ├─ Executed: " ++ toString s.executed,
    "│  ├─ Overflow Allocations: " ++ toString s.overflows,
    "│  └─ Batch Cap Hits: " ++ toString s.capHits,
    "└─ Health:",
    "├─ Overflow Rate: " ++ Decimal.twoPlaces (s.overflowRate * 100.0) ++ "%",
    "└─ Status: " ++ s.health.name]

end ActorStats

instance : Described ActorStats where
  describe s := Text.record "ActorStats"
    [("pool_size", describe s.poolSize), ("batch_size", describe s.batchSize),
      ("total_submitted", describe s.submitted), ("total_executed", describe s.executed),
      ("overflow_allocations", describe s.overflows), ("batch_limit_hits", describe s.capHits)]

end WindowedMetrics
