/-!
# Log events

Operations that can report something return `Logged`: their value and the events they emitted, oldest
first.  An event is kept as what happened; its line of text is made by `Event.line` alone.  The value of
a sequence of operations does not depend on the events (`value_bind`), so a statement about values can
drop them.
-/

namespace WindowedMetrics

/-- How serious an event is. -/
inductive Level where
  | debug
  | warn
  | error
  deriving DecidableEq

def Level.name : Level → String
  | .debug => "DEBUG"
  | .warn => "WARN"
  | .error => "ERROR"

/-- What can be reported.  Instants and durations are in milliseconds. -/
inductive Event where
  /-- The first action that found the pool of an actor empty. -/
  | poolExhausted (poolSize : Nat)
  /-- A later action that found it empty, counted from one. -/
  | overflowAllocated (ordinal : Nat)
  /-- A drain that stopped at its limit with actions left in the queue. -/
  | drainCapped (batchSize : Nat)
  | rankingRotated (now interval invalidation : Nat)
  | rankingArchived (interval positions expiry : Nat)
  | chunkRotated (now expired invalidation : Nat)
  | periodicReset (now : Nat)
  /-- A background task that failed, with the text of its failure. -/
  | taskFailed (message : String)
  /-- A task handed to an executor that has been shut down. -/
  | executorStopped (name : String)
  deriving DecidableEq

namespace Event

def level : Event → Level
  | .poolExhausted .. => .warn
  | .taskFailed .. => .error
  | _ => .debug

def message : Event → String
  | .poolExhausted n =>
      s!"Buffered actor pool of {n} actions exhausted, allocating overflow action"
  | .overflowAllocated k => s!"Buffered actor overflow allocation #{k}"
  | .drainCapped n => s!"Buffered actor drain stopped at batch cap of {n}"
  | .rankingRotated now interval invalidation =>
      s!"Rotated ranking phase at {now}ms, interval {interval}, next invalidation {invalidation}ms"
  | .rankingArchived interval positions expiry =>
      s!"Archived ranking interval {interval} with {positions} positions until {expiry}ms"
  | .chunkRotated now expired invalidation =>
      s!"Rotated chunk phase at {now}ms (expired at {expired}ms, next invalidation {invalidation}ms)"
  | .periodicReset now => s!"Periodic reset at {now}ms"
  | .taskFailed message => s!"Background task panicked: {message}"
  | .executorStopped name =>
      s!"Background executor '{name}' is stopped, running task inline"

/-- The line written for an event: level and message. -/
def line (e : Event) : String := e.level.name ++ " " ++ e.message

end Event

/-- A value and the events emitted while it was made, oldest first. -/
structure Logged (α : Type) where
  value : α
  events : List Event := []

namespace Logged

variable {α β : Type}

instance : Monad Logged where
  pure a := ⟨a, []⟩
  bind x f := ⟨(f x.value).value, x.events ++ (f x.value).events⟩

/-- Report one event. -/
def emit (e : Event) : Logged Unit := ⟨(), [e]⟩

@[simp] theorem value_pure (a : α) : (pure a : Logged α).value = a := rfl

@[simp] theorem events_pure (a : α) : (pure a : Logged α).events = [] := rfl

@[simp] theorem value_bind (x : Logged α) (f : α → Logged β) :
    (x >>= f).value = (f x.value).value := rfl

@[simp] theorem events_bind (x : Logged α) (f : α → Logged β) :
    (x >>= f).events = x.events ++ (f x.value).events := rfl

@[simp] theorem value_emit (e : Event) : (emit e).value = () := rfl

@[simp] theorem events_emit (e : Event) : (emit e).events = [e] := rfl

@[ext] theorem ext {x y : Logged α} (hv : x.value = y.value) (he : x.events = y.events) : x = y := by
  cases x; cases y; simp_all

@[simp] theorem value_map (x : Logged α) (f : α → β) : (f <$> x).value = f x.value := rfl

@[simp] theorem events_map (x : Logged α) (f : α → β) : (f <$> x).events = x.events :=
  List.append_nil _

instance : LawfulMonad Logged :=
  LawfulMonad.mk' Logged (fun _ => ext rfl (events_map _ _)) (fun _ _ => ext rfl rfl)
    (fun _ _ _ => ext rfl (List.append_assoc _ _ _))

end Logged

end WindowedMetrics
