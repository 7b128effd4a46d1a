import WindowedMetrics.Executor
import WindowedMetrics.Fault
import WindowedMetrics.Time

/-!
# Retention policies

A retention says what an aggregate remembers; a policy adds for how long reads are cached and where
background tasks run.

`validate` finds the first fault of a policy, and `validateForRanking` also asks periodic resets to be as
far apart as chunk rotations.
-/

namespace WindowedMetrics

inductive Retention where
  /-- Everything since creation. -/
  | uniform
  /-- Everything since the last read. -/
  | resetOnSnapshot
  /-- Everything since the last periodic reset. -/
  | resetPeriodically (interval : Duration)
  /-- A rolling window in chunks. -/
  | byChunks (window : Duration) (chunks : Nat)
  deriving DecidableEq

structure Policy where
  retention : Retention := .uniform
  /-- How long a read is cached. -/
  caching : Option Duration := none
  background : Background := .executed .inline
  deriving DecidableEq

/-- The time between two rotations of a window in chunks. -/
def chunkInterval (window : Duration) (chunks : Nat) : Nat := window.cappedMillis / max chunks 1

namespace Policy

/-- Cache reads for a duration; no time at all turns caching off. -/
def withCaching (p : Policy) (d : Duration) : Policy :=
  { p with caching := if d.isZero then none else some d }

/-- The time between two rotations or resets. -/
def rotationInterval? (p : Policy) : Option Nat :=
  match p.retention with
  | .uniform => none
  | .resetOnSnapshot => none
  | .resetPeriodically interval => some interval.cappedMillis
  | .byChunks window chunks => some (chunkInterval window chunks)

/-- A window must not be too long. -/
def checkWindow (window : Duration) : Except ConfigFault Unit :=
  if Limits.maxRetentionWindow < window.millis then .error (.windowTooLong window.millis) else .ok ()

/-- Rotations must not be too close to each other. -/
def checkInterval (interval : Nat) : Except ConfigFault Unit :=
  if interval < Limits.minChunkInterval then .error (.chunkIntervalTooShort interval) else .ok ()

/-- The first fault of a policy, if any. -/
def validate (p : Policy) : Except ConfigFault Unit :=
  match p.retention with
  | .uniform => .ok ()
  | .resetOnSnapshot => .ok ()
  | .resetPeriodically interval =>
    if interval.millis = 0 then .error .zeroInterval else checkWindow interval
  | .byChunks window chunks =>
    if chunks < Limits.minChunks then .error (.tooFewChunks chunks)
    else if Limits.maxChunks < chunks then .error (.tooManyChunks chunks)
    else do
      checkWindow window
      checkInterval (chunkInterval window chunks)

/-- The first fault of a policy for a ranking, if any. -/
def validateForRanking (p : Policy) : Except ConfigFault Unit := do
  p.validate
  match p.retention with
  | .resetPeriodically interval => checkInterval interval.cappedMillis
  | _ => .ok ()

end Policy

/-- What is built from a policy. -/
inductive AggregateKind where
  | counter
  | hitRatio
  | ranking
  deriving DecidableEq

def AggregateKind.name : AggregateKind → String
  | .counter => "counter"
  | .hitRatio => "hit ratio"
  | .ranking => "ranking"

/-- What a build reports that does not put up with faults. -/
def ConfigFault.refusal (f : ConfigFault) (kind : AggregateKind) : String :=
  s!"invalid {kind.name} configuration: {f.message}"

end WindowedMetrics
