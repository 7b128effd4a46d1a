import WindowedMetrics.Log
import WindowedMetrics.Time
import WindowedMetrics.Twin

/-!
# Rolling windows

A window of `n` chunks has `n + 1` slots, and interval `k` of the time since creation belongs to slot
`k` modulo `n + 1`.  What is added in an interval counts in full for the following `n - 1` intervals,
fades out linearly during one more, and has then expired.

Each slot has two phases, one current and one dormant.  The first addition to a slot whose current phase
has expired goes to the other phase, which becomes current and is scheduled for the running interval;
the old phase is emptied.

`live` lists the values that have not expired, oldest interval first, each with its share.
-/

namespace WindowedMetrics

/-- Values that collect what is added to them. -/
class Accumulator (A : Type) (D : outParam Type) where
  zero : A
  add : A → D → A

structure ChunkPhase (A : Type) where
  value : A
  invalidation : Nat
  deriving DecidableEq

structure Chunk (A : Type) where
  phases : Twin (ChunkPhase A)
  current : Side := .first
  deriving DecidableEq

structure RollingWindow (A : Type) where
  creation : Nat
  interval : Nat
  chunks : Array (Chunk A)

/-- How much of a chunk's value counts. -/
inductive Share where
  | full
  | decaying (remaining interval : Nat)
  deriving DecidableEq

namespace Share

/-- The share of a value, rounded toward zero. -/
def scale (s : Share) (value : Int64) : Int64 :=
  match s with
  | .full => value
  | .decaying remaining interval => Int64.ofInt ((value.toInt * remaining).tdiv interval)

/-- The share as a number between zero and one. -/
def coefficient : Share → Float
  | .full => 1.0
  | .decaying remaining interval => remaining.toUInt64.toFloat / interval.toUInt64.toFloat

end Share

namespace Chunk

variable {A D : Type} [Accumulator A D]

/-- A chunk that first expires at an instant. -/
def create (invalidation : Nat) : Chunk A :=
  { phases := ⟨⟨Accumulator.zero, invalidation⟩, ⟨Accumulator.zero, dormant⟩⟩ }

omit [Accumulator A D] in
/-- The phase that collects. -/
def phase (c : Chunk A) : ChunkPhase A := c.phases.get c.current

/-- Add at `now`; if that starts a new phase, it expires at `next`. -/
def add (c : Chunk A) (delta : D) (now next : Nat) : Logged (Chunk A) := do
  let phase := c.phase
  if now < phase.invalidation then
    return { c with
      phases := c.phases.set c.current { phase with value := Accumulator.add phase.value delta } }
  else
    let other := c.phases.get c.current.other
    Logged.emit (.chunkRotated now phase.invalidation next)
    return {
      current := c.current.other
      phases := (c.phases.set c.current ⟨Accumulator.zero, dormant⟩).set c.current.other
        ⟨Accumulator.add other.value delta, next⟩ }

end Chunk

namespace RollingWindow

variable {A D : Type} [Accumulator A D]

/-- A window of `count` chunks that starts at `now`. -/
def create (count interval now : Nat) : RollingWindow A where
  creation := now
  interval := interval
  chunks := Array.ofFn fun i : Fin (count + 1) =>
    Chunk.create (boundary now (i.val + (count + 1)) interval)

omit [Accumulator A D] in
/-- The number of slots. -/
def slots (w : RollingWindow A) : Nat := w.chunks.size

omit [Accumulator A D] in
def intervalOf (w : RollingWindow A) (now : Nat) : Nat := intervalIndex w.creation w.interval now

omit [Accumulator A D] in
/-- The slot that an instant belongs to. -/
def slotOf (w : RollingWindow A) (now : Nat) : Nat := w.intervalOf now % w.slots

omit [Accumulator A D] in
/-- When a phase expires that starts at `now`. -/
def expiryOf (w : RollingWindow A) (now : Nat) : Nat :=
  boundary w.creation (w.intervalOf now + w.slots) w.interval

def add (w : RollingWindow A) (delta : D) (now : Nat) : Logged (RollingWindow A) :=
  match w.chunks[w.slotOf now]? with
  | none => pure w
  | some chunk => do
    let chunk ← chunk.add delta now (w.expiryOf now)
    return { w with chunks := w.chunks.setIfInBounds (w.slotOf now) chunk }

omit [Accumulator A D] in
/-- The share at `now` of a phase that has not expired: it decays during the last interval before
its expiry. -/
def shareOf (w : RollingWindow A) (invalidation now : Nat) : Share :=
  if invalidation - now < w.interval then .decaying (invalidation - now) w.interval else .full

omit [Accumulator A D] in
/-- The phase collecting in each slot, from the slot after that of `now` around to that slot. -/
def phasesFrom (w : RollingWindow A) (now : Nat) : List (ChunkPhase A) :=
  (List.range w.slots).filterMap fun step =>
    (w.chunks[(w.slotOf now + step + 1) % w.slots]?).map Chunk.phase

omit [Accumulator A D] in
/-- The values that have not expired at `now` with their shares, oldest interval first. -/
def live (w : RollingWindow A) (now : Nat) : List (A × Share) :=
  (w.phasesFrom now).filterMap fun p =>
    if now < p.invalidation then some (p.value, w.shareOf p.invalidation now) else none

end RollingWindow

end WindowedMetrics
