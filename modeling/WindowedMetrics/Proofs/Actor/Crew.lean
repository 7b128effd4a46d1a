import WindowedMetrics.Proofs.Actor.Ledger

/-!
# Threads at one actor

Any number of threads make requests to an actor, and their steps come in any order: to queue a slot, to try
for the lock, to take the whole queue, to go on with an action, to test the limit of the drain, to release
the lock, to look at the queue once more, to try for the lock again.  Who submits an overflow action or wants
exclusive access waits for the lock.

* `Stage` says where a thread is in its call, `Task` what the one that has the lock does next.
* The slots taken from the queue are run along their links, while the actions that are run and other threads
  work on the same links.
* Actions can be handed from thread to thread, so those in anybody's hands are kept together.
-/

namespace WindowedMetrics

/-- What the holder of the lock drains the queue for. -/
inductive Aim (A : Type) where
  /-- To release the lock once that many actions have run. -/
  | release (limit : Nat)
  /-- To run an overflow action. -/
  | overflow (number : Nat) (content : A)
  /-- To get exclusive access. -/
  | access

def Aim.limit {A : Type} : Aim A → Nat
  | .release limit => limit
  | .overflow _ _ | .access => maxWord

/-- What the holder of the lock does next. -/
inductive Task (S A : Type) where
  /-- Take the whole queue; so many actions have run in this drain. -/
  | take (aim : Aim A) (ran : Nat)
  /-- Run the slots that were taken, from this one on. -/
  | run (aim : Aim A) (ran : Nat) (cursor : Option Nat)
  /-- Go on with the action in a slot, and leave in the slot what is spent; then run the others. -/
  | slot (aim : Aim A) (ran : Nat) (next : Option Nat) (slot : Nat) (spent : A) (script : Script S A)
    (held : List (Numbered A))
  /-- End the drain. -/
  | test (aim : Aim A) (ran : Nat)
  /-- Begin on an overflow action. -/
  | begin (number : Nat) (content : A)
  /-- Go on with an overflow action. -/
  | overflow (script : Script S A) (held : List (Numbered A))
  /-- Make requests, with exclusive access. -/
  | access
  | unlock (capped : Bool)

/-- Where a thread is in its call. -/
inductive Stage (A : Type) where
  | idle
  /-- Has queued a slot and tries for the lock. -/
  | trying
  /-- Waits for the lock to run an overflow action. -/
  | waiting (number : Nat) (content : A)
  /-- Waits for the lock to get exclusive access. -/
  | entering
  /-- Has the lock. -/
  | holding
  /-- Has released the lock after a capped drain, and counts that. -/
  | reporting
  /-- Has released the lock after a drain to the end, and looks at the queue. -/
  | looking
  /-- Has seen something in the queue, and tries for the lock again. -/
  | retrying

/-- An actor with the actions taken from it, and the threads. -/
structure Crew (S A : Type) where
  ledger : Ledger S A
  held : List (Numbered A) := []
  stages : List (Stage A)
  /-- Who has the lock, and what for. -/
  holder : Option (Nat × Task S A) := none
  /-- The numbers of the actions submitted. -/
  calls : List Nat := []

/-- What a thread can do: make a request while it is in no call, or go on with its call. -/
inductive Move (S A : Type) where
  | ask (request : Request S A)
  | go

variable {S A : Type} [Action S A]

/-! ### Steps -/

/-- The next step of a script. -/
def Ledger.stepScript (w : Ledger S A) :
    Script S A → List (Numbered A) → Script S A × List (Numbered A) × Ledger S A
  | .done, [] => (.done, [], w)
  | .done, h :: held => (.done, held, w.discard h)
  | .edit change next, held => (next, held, { w with actor.state := change w.actor.state })
  | .inspect next, held => (next w.actor.state, held, w)
  | .acquire next, held => (next w.acquire.1.handle.isOverflow, w.acquire.1 :: held, w.acquire.2)
  | .submit place a next, held =>
    match held[place]? with
    | some ⟨n, .slot i⟩ => (next, held.eraseIdx place, (w.setContent i a).schedule n i)
    | some ⟨n, .overflow _⟩ => (next, held.eraseIdx place, w.note (.dropped n))
    | none => (next, held.eraseIdx place, w)
  | .discard place next, held =>
    match held[place]? with
    | some h => (next, held.eraseIdx place, w.discard h)
    | none => (next, held, w)

omit [Action S A] in
/-- Whether a script has come to its end and given everything back. -/
def Script.isOver : Script S A → List (Numbered A) → Bool
  | .done, [] => true
  | _, _ => false

omit [Action S A] in
theorem Script.eq_of_isOver {script : Script S A} {held : List (Numbered A)}
    (h : script.isOver held = true) : script = .done ∧ held = [] := by
  cases script <;> cases held <;> simp_all [isOver]

omit [Action S A] in
/-- The number of the action that the next step of a script submits. -/
def Script.submits? : Script S A → List (Numbered A) → Option Nat
  | .submit place _ _, held =>
    match held[place]? with
    | some ⟨n, .slot _⟩ => some n
    | _ => none
  | _, _ => none

namespace Task

/-- Whether the holder of the lock goes on by itself before it releases the lock. -/
def isBusy : Task S A → Bool
  | .access | .unlock _ => false
  | _ => true

/-- What the holder of the lock does, and what it does next. -/
def step (w : Ledger S A) : Task S A → Task S A × Ledger S A
  | .take aim ran =>
    match w.actor.pool.takeQueue with
    | none => (.test aim ran, w)
    | some (slots, pool) => (.run aim ran slots.head?, { w with actor := { w.actor with pool } })
  | .run aim ran none => (if aim.limit ≤ ran then .test aim ran else .take aim ran, w)
  | .run aim ran (some i) =>
    let a := w.actor.content i
    -- the link is read first: once the slot is free again it means something else
    (.slot aim (ran + 1) (w.actor.pool.link i) i (Action.spent a) (Action.script a) [],
      w.note (.ran (w.owner i) a))
  | .slot aim ran next i spent script held =>
    if script.isOver held then (.run aim ran next, w.recycle i spent)
    else
      let out := w.stepScript script held
      (.slot aim ran next i spent out.1 out.2.1, out.2.2)
  | .test aim ran =>
    let out := w.endDrain aim.limit ran
    match aim with
    | .release _ => (.unlock out.1, out.2)
    | .overflow number content => (.begin number content, out.2)
    | .access => (.access, out.2)
  | .begin number content => (.overflow (Action.script content) [], w.note (.ranOverflow number content))
  | .overflow script held =>
    if script.isOver held then
      (.take (.release w.actor.batchSize) 0, { w with actor.executed := w.actor.executed + 1 })
    else
      let out := w.stepScript script held
      (.overflow out.1 out.2.1, out.2.2)
  | .access => (.access, w)
  | .unlock capped => (.unlock capped, w)

section Script

variable (w : Ledger S A) (aim : Aim A) (ran : Nat) (next : Option Nat) (i : Nat) (spent : A)
  {script : Script S A} {held : List (Numbered A)}

theorem step_slot (h : script.isOver held = false) :
    (Task.slot aim ran next i spent script held).step w =
      (.slot aim ran next i spent (w.stepScript script held).1 (w.stepScript script held).2.1,
        (w.stepScript script held).2.2) := by
  simp [step, h]

theorem step_overflow (h : script.isOver held = false) :
    (Task.overflow script held).step w =
      (.overflow (w.stepScript script held).1 (w.stepScript script held).2.1,
        (w.stepScript script held).2.2) := by
  simp [step, h]

end Script

/-- The number of the action that the next step submits. -/
def submits? : Task S A → Option Nat
  | .slot _ _ _ _ _ script held | .overflow script held => script.submits? held
  | _ => none

end Task

namespace Crew

omit [Action S A] in
def setStage (c : Crew S A) (i : Nat) (stage : Stage A) : Crew S A :=
  { c with stages := c.stages.set i stage }

omit [Action S A] in
/-- Take the lock. -/
def grab (c : Crew S A) (i : Nat) (task : Task S A) : Crew S A :=
  { c.setStage i .holding with ledger.actor.locked := true, holder := some (i, task) }

omit [Action S A] in
/-- Release the lock. -/
def unlock (c : Crew S A) (i : Nat) (stage : Stage A) : Crew S A :=
  { c.setStage i stage with ledger.actor.locked := false, holder := none }

/-- The holder of the lock goes on. -/
def work (c : Crew S A) (i : Nat) : Task S A → Crew S A
  | .access => c
  | .unlock capped => c.unlock i (if capped then .reporting else .looking)
  | task =>
    { c with
      ledger := (task.step c.ledger).2
      holder := some (i, (task.step c.ledger).1)
      calls := c.calls ++ task.submits?.toList }

/-- A thread goes on with its call. -/
def go (c : Crew S A) (i : Nat) : Crew S A :=
  match c.stages[i]? with
  | some .trying | some .retrying =>
    if c.ledger.actor.locked then c.setStage i .idle
    else c.grab i (.take (.release c.ledger.actor.batchSize) 0)
  | some (.waiting number content) =>
    if c.ledger.actor.locked then c else c.grab i (.take (.overflow number content) 0)
  | some .entering => if c.ledger.actor.locked then c else c.grab i (.take .access 0)
  | some .reporting => { c.setStage i .idle with ledger.actor.capHits := c.ledger.actor.capHits + 1 }
  | some .looking => c.setStage i (if c.ledger.actor.pool.queueEmpty then .idle else .retrying)
  | some .holding =>
    match c.holder with
    | some (j, task) => if i = j then c.work i task else c
    | none => c
  | some .idle | none => c

/-- A request that is through at once. -/
def serve (c : Crew S A) (request : Request S A) : Crew S A :=
  let client := (⟨c.ledger, c.held⟩ : Client S A).act request
  { c with ledger := client.ledger, held := client.held }

/-- Queue the slot of a held action. -/
def queue (c : Crew S A) (place number slot : Nat) : Crew S A :=
  { c with
    ledger := c.ledger.schedule number slot
    held := c.held.eraseIdx place
    calls := c.calls ++ [number] }

omit [Action S A] in
/-- Count a held overflow action as submitted. -/
def count (c : Crew S A) (place number : Nat) : Crew S A :=
  { c with
    ledger.actor.submitted := c.ledger.actor.submitted + 1
    held := c.held.eraseIdx place
    calls := c.calls ++ [number] }

/-- A request of a thread that does not have the lock. -/
def askOutside (c : Crew S A) (i : Nat) : Request S A → Crew S A
  | .submit place =>
    match c.held[place]? with
    | some ⟨number, .slot slot⟩ => (c.queue place number slot).setStage i .trying
    | some ⟨number, .overflow content⟩ => (c.count place number).setStage i (.waiting number content)
    | none => c
  | .enter => c.setStage i .entering
  | .edit _ | .leave => c
  | request => c.serve request

/-- A request of a thread with exclusive access: the lock cannot be had once more, and a thread that waits for
itself would wait for ever. -/
def askInside (c : Crew S A) (i : Nat) : Request S A → Crew S A
  | .submit place =>
    match c.held[place]? with
    | some ⟨number, .slot slot⟩ => c.queue place number slot
    | _ => c
  | .enter => c
  | .leave => c.unlock i .idle
  | request => c.serve request

/-- A request of a thread that is in no call, or has exclusive access. -/
def ask (c : Crew S A) (i : Nat) (request : Request S A) : Crew S A :=
  match c.stages[i]? with
  | some .idle => c.askOutside i request
  | some .holding =>
    match c.holder with
    | some (j, .access) => if i = j then c.askInside i request else c
    | _ => c
  | _ => c

def act (c : Crew S A) (i : Nat) : Move S A → Crew S A
  | .ask request => c.ask i request
  | .go => c.go i

omit [Action S A] in
/-- Threads at an actor that has done nothing yet. -/
def start (x : Actor S A) (threads : Nat) : Crew S A :=
  { ledger := { actor := x }, stages := List.replicate threads .idle }

/-- Threads at an actor; each move is that of a numbered thread. -/
def run (x : Actor S A) (threads : Nat) (moves : List (Nat × Move S A)) : Crew S A :=
  moves.foldl (fun c move => c.act move.1 move.2) (start x threads)

theorem run_concat (x : Actor S A) (threads : Nat) (moves : List (Nat × Move S A)) (move : Nat × Move S A) :
    run x threads (moves ++ [move]) = (run x threads moves).act move.1 move.2 := by
  simp [run]

theorem work_of_isBusy (c : Crew S A) (i : Nat) {task : Task S A} (h : task.isBusy = true) :
    c.work i task =
      { c with
        ledger := (task.step c.ledger).2
        holder := some (i, (task.step c.ledger).1)
        calls := c.calls ++ task.submits?.toList } := by
  cases task with
  | access | unlock => cases h
  | take | run | slot | test | begin | overflow => rfl

omit [Action S A] in
/-- All calls have returned. -/
def Returned (c : Crew S A) : Prop := c.holder = none ∧ ∀ stage ∈ c.stages, stage = .idle

end Crew

end WindowedMetrics
