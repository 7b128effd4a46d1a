import WindowedMetrics.Executor

/-!
# Threads at one worker

Clients hand tasks over to a worker and shut it down, from any number of threads, and their steps and those of
the worker come in any order.  To hand a task over a thread gets the lock of the sender, sends the task to the
queue or finds that there is no sender any more, and releases the lock; a task that was refused it runs itself.
To shut the worker down a thread takes the sender away under the same lock, gets the lock of the handle, takes
the handle and keeps the lock until the worker has ended; who comes later waits for the lock and finds no handle.
The worker runs what is in the queue, one task after the other, and ends when the queue is empty and the sender
is gone.

* `Errand` is what a task does: it changes the shared state step by step, hands over tasks of its own, and ends
  or fails.  Every task comes to an end, and none shuts the worker down.
* `Stage` says where a thread is in its call, and `Thread.running` which tasks it runs: a task that hands over
  another one, and runs it itself, goes on when that has ended.
* `Record` keeps the number of every task handed over, and what became of it.  No step reads it, except for the
  next number.
-/

namespace WindowedMetrics

/-- What a task does. -/
inductive Errand (σ : Type) where
  | done
  | fail (failure : TaskFailure)
  /-- Change the shared state, and go on with what the state asks for. -/
  | act (change : Place → σ → σ) (next : Place → σ → Errand σ)
  /-- Hand a task over, and go on when that call returns. -/
  | hand (task rest : Errand σ)

/-- What is left of a task that is through: to fail or not. -/
def Errand.last {σ : Type} : Option TaskFailure → Errand σ
  | none => .done
  | some failure => .fail failure

/-- A job is done in one step. -/
def Job.errand {σ : Type} (job : Job σ) : Errand σ :=
  .act (fun place s => (job place s).1) fun place s => .last (job place s).2

namespace Workshop

variable {σ : Type}

/-- A task that has been handed over, with its number. -/
structure Ticket (σ : Type) where
  number : Nat
  errand : Errand σ

/-- A task that has begun, and what is left of it. -/
structure Running (σ : Type) extends Ticket σ where
  /-- It was refused, and its caller runs it. -/
  inline : Bool

/-- A call that needs the sender. -/
inductive Call (σ : Type) where
  | hand (ticket : Ticket σ)
  | close

/-- What a thread has done with the sender. -/
inductive Outcome (σ : Type) where
  | accepted (number : Nat)
  | refused (ticket : Ticket σ)
  | closed

/-- Where a thread is in its call. -/
inductive Stage (σ : Type) where
  /-- In no call. -/
  | ready
  /-- Waits for the lock of the sender. -/
  | waiting (call : Call σ)
  /-- Has the lock of the sender. -/
  | inside (call : Call σ)
  /-- Still has the lock of the sender. -/
  | leaving (outcome : Outcome σ)
  /-- Begins on a task that was refused. -/
  | refused (ticket : Ticket σ)
  /-- Waits for the lock of the handle. -/
  | coming
  /-- Has the lock of the handle. -/
  | looking
  /-- Has taken the handle, and waits for the end of the worker. -/
  | joining
  /-- Still has the lock of the handle. -/
  | parting

structure Thread (σ : Type) where
  stage : Stage σ := .ready
  /-- The tasks it has begun, the latest first; that one runs. -/
  running : List (Running σ) := []

/-- A task on a thread. -/
structure Deed where
  number : Nat
  thread : Nat
  inline : Bool
  deriving DecidableEq

/-- What became of the tasks. -/
structure Record where
  /-- The thread that handed over each task; the tasks are numbered in this order. -/
  callers : List Nat := []
  /-- The tasks handed over when the sender had been taken away. -/
  late : List Nat := []
  accepted : List Nat := []
  begun : List Deed := []
  ended : List Deed := []
  /-- The tasks whose calls have returned. -/
  returned : List Nat := []
  /-- How many shutdowns have returned. -/
  shutdowns : Nat := 0
  deriving DecidableEq

end Workshop

open Workshop in
/-- A worker, which is the first of the threads, and its clients. -/
structure Workshop (σ : Type) where
  name : String
  state : σ
  log : List Event := []
  threads : List (Thread σ)
  queue : List (Ticket σ) := []
  sender : Bool := true
  /-- Who has the lock of the sender. -/
  senderLock : Option Nat := none
  handle : Bool := true
  /-- Who has the lock of the handle. -/
  handleLock : Option Nat := none
  /-- The worker has ended. -/
  stopped : Bool := false
  record : Record := {}

namespace Workshop

variable {σ : Type}

/-- What a client can ask for. -/
inductive Request (σ : Type) where
  | execute (errand : Errand σ)
  | shutdown

/-- What a thread can do: make a request while it does nothing else, or go on. -/
inductive Move (σ : Type) where
  | ask (request : Request σ)
  | go

/-- Where the tasks on a thread run. -/
def place (i : Nat) : Place := if i = 0 then .worker else .caller

section Steps

variable (w : Workshop σ) (i : Nat)

def setThread (thread : Thread σ) : Workshop σ := { w with threads := w.threads.set i thread }

/-- Hand a task over. -/
def handOver (errand : Errand σ) (running : List (Running σ)) : Workshop σ :=
  let number := w.record.callers.length
  { w.setThread i ⟨.waiting (.hand ⟨number, errand⟩), running⟩ with
    record.callers := w.record.callers ++ [i]
    record.late := w.record.late ++ if w.sender then [] else [number] }

/-- Begin on a task. -/
def start (ticket : Ticket σ) (inline : Bool) (running : List (Running σ)) : Workshop σ :=
  { w.setThread i ⟨.ready, ⟨ticket, inline⟩ :: running⟩ with
    record.begun := w.record.begun ++ [⟨ticket.number, i, inline⟩] }

/-- Be through with a task, which may be to return from the call that handed it over. -/
def finish (task : Running σ) (running : List (Running σ)) : Workshop σ :=
  { w.setThread i ⟨.ready, running⟩ with
    record.ended := w.record.ended ++ [⟨task.number, i, task.inline⟩]
    record.returned := w.record.returned ++ if task.inline then [task.number] else [] }

/-- Go on with a task. -/
def work (task : Running σ) (running : List (Running σ)) : Workshop σ :=
  match task.errand with
  | .done => w.finish i task running
  | .fail failure => { w with log := w.log ++ [Event.taskFailed failure.message] }.finish i task running
  | .act change next =>
    { w with state := change (place i) w.state }.setThread i
      ⟨.ready, { task with errand := next (place i) w.state } :: running⟩
  | .hand errand rest => w.handOver i errand ({ task with errand := rest } :: running)

/-- Take the next task from the queue, wait for one, or end. -/
def receive : Option (Workshop σ) :=
  if w.stopped then none
  else
    match w.queue with
    | ticket :: queue => some ({ w with queue }.start i ticket false [])
    | [] => if w.sender then none else some { w with stopped := true }

/-- Send a task to the queue. -/
def accept (ticket : Ticket σ) (running : List (Running σ)) : Workshop σ :=
  { w.setThread i ⟨.leaving (.accepted ticket.number), running⟩ with
    queue := w.queue ++ [ticket]
    record.accepted := w.record.accepted ++ [ticket.number] }

/-- Use the sender. -/
def useSender (call : Call σ) (running : List (Running σ)) : Workshop σ :=
  match call with
  | .hand ticket =>
    -- nothing can be sent to a worker that has ended
    if w.sender && !w.stopped then w.accept i ticket running
    else w.setThread i ⟨.leaving (.refused ticket), running⟩
  | .close => { w.setThread i ⟨.leaving .closed, running⟩ with sender := false }

/-- Release the lock of the sender. -/
def leave (outcome : Outcome σ) (running : List (Running σ)) : Workshop σ :=
  match outcome with
  | .accepted number =>
    { w.setThread i ⟨.ready, running⟩ with
      senderLock := none, record.returned := w.record.returned ++ [number] }
  | .refused ticket => { w.setThread i ⟨.refused ticket, running⟩ with senderLock := none }
  | .closed => { w.setThread i ⟨.coming, running⟩ with senderLock := none }

/-- What a thread does next; nothing while it has to wait. -/
def next : Thread σ → Option (Workshop σ)
  | ⟨.ready, []⟩ => if i = 0 then w.receive i else none
  | ⟨.ready, task :: running⟩ => some (w.work i task running)
  | ⟨.waiting call, running⟩ =>
    if w.senderLock = none then some { w.setThread i ⟨.inside call, running⟩ with senderLock := some i }
    else none
  | ⟨.inside call, running⟩ => some (w.useSender i call running)
  | ⟨.leaving outcome, running⟩ => some (w.leave i outcome running)
  | ⟨.refused ticket, running⟩ =>
    some ({ w with log := w.log ++ [Event.executorStopped w.name] }.start i ticket true running)
  | ⟨.coming, running⟩ =>
    if w.handleLock = none then some { w.setThread i ⟨.looking, running⟩ with handleLock := some i }
    else none
  | ⟨.looking, running⟩ =>
    if w.handle then some { w.setThread i ⟨.joining, running⟩ with handle := false }
    else some (w.setThread i ⟨.parting, running⟩)
  | ⟨.joining, running⟩ => if w.stopped then some (w.setThread i ⟨.parting, running⟩) else none
  | ⟨.parting, running⟩ =>
    some { w.setThread i ⟨.ready, running⟩ with
      handleLock := none, record.shutdowns := w.record.shutdowns + 1 }

/-- A thread goes on, if it does not have to wait. -/
def go? : Option (Workshop σ) := w.threads[i]?.bind (w.next i)

/-- A request of a client that does nothing else. -/
def ask (request : Request σ) : Workshop σ :=
  match w.threads[i]? with
  | some ⟨.ready, []⟩ =>
    if i = 0 then w
    else
      match request with
      | .execute errand => w.handOver i errand []
      | .shutdown => w.setThread i ⟨.waiting .close, []⟩
  | _ => w

def act : Move σ → Workshop σ
  | .ask request => w.ask i request
  | .go => (w.go? i).getD w

end Steps

/-- A worker that has just been started, and its clients. -/
def opened (name : String) (s : σ) (clients : Nat) : Workshop σ :=
  { name, state := s, threads := List.replicate (clients + 1) {} }

/-- A worker and its clients after some moves, each of a numbered thread. -/
def run (w : Workshop σ) (moves : List (Nat × Move σ)) : Workshop σ :=
  moves.foldl (fun w move => w.act move.1 move.2) w

theorem run_concat (w : Workshop σ) (moves : List (Nat × Move σ)) (move : Nat × Move σ) :
    w.run (moves ++ [move]) = (w.run moves).act move.1 move.2 := by
  simp [run]

/-- No thread can go on. -/
def AtRest (w : Workshop σ) : Prop := ∀ i, w.go? i = none

/-! ### Where the tasks are -/

section Tasks

/-- The tickets that a thread has in its hands. -/
def Stage.tickets : Stage σ → List (Ticket σ)
  | .waiting (.hand ticket) | .inside (.hand ticket) | .leaving (.refused ticket) | .refused ticket => [ticket]
  | _ => []

/-- The task of a call that has not returned, if nobody runs it on its behalf. -/
def Stage.pending : Stage σ → List Nat
  | .leaving (.accepted number) => [number]
  | stage => stage.tickets.map (·.number)

namespace Thread

/-- The tasks in the hands of a thread. -/
def carried (thread : Thread σ) : List Nat := thread.stage.tickets.map (·.number)

/-- The tasks that a thread runs. -/
def deeds (i : Nat) (thread : Thread σ) : List Deed :=
  thread.running.map fun task => ⟨task.number, i, task.inline⟩

/-- The tasks whose calls on a thread have not returned. -/
def awaited (thread : Thread σ) : List Nat :=
  thread.stage.pending ++ (thread.running.filter (·.inline)).map (·.number)

end Thread

variable {β : Type}

/-- What all threads have of something. -/
def gather (w : Workshop σ) (f : Nat → Thread σ → List β) : List β := (w.threads.mapIdx f).flatten

def carried (w : Workshop σ) : List Nat := w.gather fun _ => Thread.carried

/-- The tasks in the queue. -/
def queued (w : Workshop σ) : List Nat := w.queue.map (·.number)

def underway (w : Workshop σ) : List Deed := w.gather Thread.deeds

def awaited (w : Workshop σ) : List Nat := w.gather fun _ => Thread.awaited

end Tasks

end Workshop

end WindowedMetrics
