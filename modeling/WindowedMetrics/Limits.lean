/-!
# Limits and defaults

The bounds that configurations are checked against.
-/

namespace WindowedMetrics.Limits

/-- Fewest chunks of a rolling window. -/
def minChunks : Nat := 2

/-- Most chunks of a rolling window. -/
def maxChunks : Nat := 1000

/-- Shortest interval between two chunk rotations, in milliseconds. -/
def minChunkInterval : Nat := 100

/-- Longest retention window, in milliseconds: 366 days. -/
def maxRetentionWindow : Nat := 366 * 24 * 60 * 60 * 1000

/-- Most positions of a ranking. -/
def maxRankingCapacity : Nat := 1000

/-- Slots of an actor unless stated otherwise. -/
def defaultPoolSize : Nat := 64

/-- Limit of a drain unless stated otherwise. -/
def defaultBatchSize : Nat := 256

/-- Slots are numbered by 32-bit words, the last of which stands for "no slot". -/
def poolSizeBound : Nat := UInt32.size - 1

/-- The version of the library. -/
def version : String := "0.1.0"

/-- The oldest compiler release that the library is offered for. -/
def minimumCompiler : String := "1.70.0"

end WindowedMetrics.Limits
