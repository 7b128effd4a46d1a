import WindowedMetrics.Log
import WindowedMetrics.Text.Described

/-!
# Executors of background tasks

An inline executor runs a task at once on the caller; a worker runs its tasks on a thread of its own, in
the order they come, until it is shut down, and on the caller from then on.  Either way a task that fails
is reported and harms nobody else.  A worker starts unless no thread can have its name (`Executor.start`).

A rotation can also leave its task to be run or dropped later: `Background` says which of the two.
-/

namespace WindowedMetrics

/-- How a task failed. -/
inductive TaskFailure where
  | text (message : String)
  /-- With something that is not a text. -/
  | wordless
  deriving DecidableEq

def TaskFailure.message : TaskFailure → String
  | .text s => s
  | .wordless => "<non-string panic payload>"

/-- Where a task runs. -/
inductive Place where
  | caller
  | worker
  deriving DecidableEq

/-- A task on a state it shares with others: it changes the state and may fail. -/
abbrev Job (σ : Type) := Place → σ → σ × Option TaskFailure

/-- Run a task; a failure is reported and goes no further. -/
def Job.runGuarded {σ : Type} (task : Job σ) (place : Place) (s : σ) : Logged σ := do
  match task place s with
  | (s, none) => return s
  | (s, some failure) =>
    Logged.emit (.taskFailed failure.message)
    return s

inductive Executor where
  | inline
  | worker (name : String) (running : Bool)
  deriving DecidableEq

/-- A name that no thread can have: it holds a zero byte, where the name of a thread ends. -/
structure NameFault where
  name : String
  deriving DecidableEq

namespace NameFault

/-- The bytes of a name. -/
def bytes (name : String) : List Nat := name.toUTF8.data.toList.map UInt8.toNat

/-- Tells the place of the first zero byte, and all bytes. -/
def message (f : NameFault) : String :=
  "thread name may not contain interior null bytes: " ++
    Text.applied "NulError" (describe ((bytes f.name).idxOf 0) ++ ", " ++ describe (bytes f.name))

end NameFault

namespace Executor

variable {σ : Type}

/-- Start a worker on a thread of this name. -/
def start (name : String) : Except NameFault Executor :=
  if 0 ∈ NameFault.bytes name then .error ⟨name⟩ else .ok (.worker name true)

/-- Run a task to its end. -/
def execute (e : Executor) (task : Job σ) (s : σ) : Logged σ :=
  match e with
  | .inline => task.runGuarded .caller s
  | .worker _ true => task.runGuarded .worker s
  | .worker name false => do
    Logged.emit (.executorStopped name)
    task.runGuarded .caller s

/-- Let a worker finish what it was given and end. -/
def shutdown : Executor → Executor
  | .inline => .inline
  | .worker name _ => .worker name false

/-- Shut a worker down from a task of its own. -/
def shutdownFromTask (e : Executor) : Logged Executor :=
  match e with
  | .inline => pure .inline
  | .worker .. => e.execute (fun _ e => (e.shutdown, none)) e

end Executor

instance : Described Executor where
  describe
    | .inline => Text.record "InlineExecutor" []
    | .worker name running => Text.record "ThreadExecutor"
        [("name", describe name), ("running", describe running)]

/-- What becomes of the tasks that rotations leave. -/
inductive Background where
  | executed (e : Executor)
  /-- Kept until somebody runs or drops them. -/
  | deferred
  deriving DecidableEq

instance : Described Background where
  describe
    | .executed e => describe e
    | .deferred => Text.record "Deferred" []

/-! ### A diary of tasks -/

/-- An entry that a task leaves in a diary. -/
inductive DiaryEntry (α : Type) where
  | note (a : α)
  | ran (place : Place)

/-- The entries so far. -/
abbrev Diary (α : Type) := List (DiaryEntry α)

namespace Diary

variable {α : Type}

/-- Note something down. -/
def note (a : α) : Job (Diary α) := fun _ d => (d ++ [.note a], none)

/-- Note where the task runs. -/
def whereabouts : Job (Diary α) := fun place d => (d ++ [.ran place], none)

/-- Fail. -/
def failing (f : TaskFailure) : Job (Diary α) := fun _ d => (d, some f)

/-- Note something down, then fail. -/
def noteThenFail (a : α) (f : TaskFailure) : Job (Diary α) := fun _ d => (d ++ [.note a], some f)

end Diary

end WindowedMetrics
