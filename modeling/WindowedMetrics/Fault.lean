import WindowedMetrics.Limits

/-!
# Faults

`ConfigFault` is why a configuration is refused, `UsageFault` why a single call is.  Each has one text,
made by `message`.
-/

namespace WindowedMetrics

/-- The size of an actor that is out of range. -/
inductive Sizing where
  | poolSize
  | batchSize
  deriving DecidableEq

def Sizing.name : Sizing → String
  | .poolSize => "pool size"
  | .batchSize => "batch size"

/-- Why the bounds of a histogram are refused. -/
inductive BoundsFault where
  /-- The highest value is below twice the lowest, which is one. -/
  | highestTooLow
  /-- More significant digits than can be kept. -/
  | tooManyDigits
  deriving DecidableEq

def BoundsFault.name : BoundsFault → String
  | .highestTooLow => "HighLessThanTwiceLow"
  | .tooManyDigits => "SigFigExceedsMax"

/-- Why a configuration is refused. -/
inductive ConfigFault where
  | zeroInterval
  | tooFewChunks (chunks : Nat)
  | tooManyChunks (chunks : Nat)
  | chunkIntervalTooShort (interval : Nat)
  | windowTooLong (window : Nat)
  | invalidCapacity (capacity : Nat)
  | invalidSizing (what : Sizing)
  | invalidBounds (reason : BoundsFault)
  deriving DecidableEq

def ConfigFault.message : ConfigFault → String
  | .zeroInterval => "reset interval must be greater than zero"
  | .tooFewChunks n =>
      s!"number of chunks {n} is below the minimum of {Limits.minChunks}"
  | .tooManyChunks n =>
      s!"number of chunks {n} exceeds the maximum of {Limits.maxChunks}"
  | .chunkIntervalTooShort ms =>
      s!"interval between chunk rotations is {ms}ms, minimum is {Limits.minChunkInterval}ms"
  | .windowTooLong ms =>
      s!"retention window of {ms}ms exceeds the maximum of {Limits.maxRetentionWindow}ms"
  | .invalidCapacity n =>
      s!"ranking capacity {n} must be between 1 and {Limits.maxRankingCapacity}"
  | .invalidSizing what => s!"buffered actor {what.name} must be greater than zero"
  | .invalidBounds reason => s!"invalid histogram bounds: {reason.name}"

/-- Why a call is refused; it then has no effect. -/
inductive UsageFault where
  | hitsExceedTotal (hits total : UInt32)
  deriving DecidableEq

def UsageFault.message : UsageFault → String
  | .hitsExceedTotal hits total => s!"hit count {hits} exceeds total count {total}"

end WindowedMetrics
