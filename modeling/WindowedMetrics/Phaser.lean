import WindowedMetrics.Text.Described

/-!
# Phasers

Writers enter and leave critical sections without waiting.  A reader that flips the phaser can tell when
all writers of the old phase have left.

Three wrapping counters: `startEpoch` counts entries, the two others count exits of each phase.  The even
phase counts up from zero, the odd phase from the smallest number, so the sign of a section's epoch tells
its phase.  A flip resets the exit counter of the phase it enters, moves `startEpoch` to the base of that
phase and keeps the value it had; the old phase has been left when its exit counter has reached that value.

The steps of a flip are functions of their own, since writers may come and go between them.
-/

namespace WindowedMetrics

inductive Parity where
  | even
  | odd
  deriving DecidableEq

namespace Parity

def other : Parity → Parity
  | .even => .odd
  | .odd => .even

/-- The epoch of the first section of a phase. -/
def base : Parity → Int64
  | .even => 0
  | .odd => Int64.minValue

/-- The phase that an epoch belongs to. -/
def ofEpoch (epoch : Int64) : Parity := if epoch < 0 then .odd else .even

end Parity

structure Phaser where
  startEpoch : Int64 := 0
  evenEnd : Int64 := 0
  oddEnd : Int64 := Int64.minValue
  deriving DecidableEq

/-- An open critical section, with the epoch it was entered in. -/
structure CriticalSection where
  epoch : Int64
  deriving DecidableEq

/-- A flip under way: the phase it enters, and where the old phase ended. -/
structure Flip where
  entering : Parity
  oldStart : Int64
  deriving DecidableEq

namespace Phaser

/-! ### Writers -/

def enter (p : Phaser) : CriticalSection × Phaser :=
  (⟨p.startEpoch⟩, { p with startEpoch := p.startEpoch + 1 })

/-- The exit counter of a phase. -/
def endOf (p : Phaser) : Parity → Int64
  | .even => p.evenEnd
  | .odd => p.oddEnd

def setEnd (p : Phaser) : Parity → Int64 → Phaser
  | .even, n => { p with evenEnd := n }
  | .odd, n => { p with oddEnd := n }

/-- Leave a section: the exit is credited to the phase it was entered in. -/
def exit (p : Phaser) (s : CriticalSection) : Phaser :=
  p.setEnd (.ofEpoch s.epoch) (p.endOf (.ofEpoch s.epoch) + 1)

/-! ### The steps of a flip -/

/-- The phase that a flip would enter. -/
def nextPhase (p : Phaser) : Parity := (Parity.ofEpoch p.startEpoch).other

def resetEnd (p : Phaser) (phase : Parity) : Phaser := p.setEnd phase phase.base

/-- Move new sections to a phase. -/
def swapStart (p : Phaser) (phase : Parity) : Flip × Phaser :=
  (⟨phase, p.startEpoch⟩, { p with startEpoch := phase.base })

/-- Whether all sections of the old phase have been left. -/
def caughtUp (p : Phaser) (f : Flip) : Bool := p.endOf f.entering.other == f.oldStart

/-- All steps of a flip up to the wait. -/
def beginFlip (p : Phaser) : Flip × Phaser := (p.resetEnd p.nextPhase).swapStart p.nextPhase

end Phaser

instance : Described Phaser where
  describe p := Text.record "WriterReaderPhaser" [("start_epoch", describe p.startEpoch)]

instance : Described CriticalSection where
  describe s := Text.record "WriterCriticalSection" [("epoch", describe s.epoch)]

/-- The text of the lock that a reader holds. -/
def Phaser.readerLockText : String := "ReaderGuard"

end WindowedMetrics
