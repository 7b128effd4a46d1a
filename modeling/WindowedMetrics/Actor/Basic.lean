import WindowedMetrics.Actor.Script
import WindowedMetrics.Actor.Slots
import WindowedMetrics.Actor.Stats
import WindowedMetrics.Fault
import WindowedMetrics.Log
import WindowedMetrics.Time

/-!
# Buffered actors

An actor owns a state that only the holder of its lock changes.  A writer takes an action from a pool of
slots, fills it and submits it: the action is queued, and if the lock is free the writer takes it and
runs what is queued, oldest first.  While the lock is held, submitted actions stay in the queue.

* A drain runs whole queues and looks at its limit only between them (`drain`); it is *capped* if it
  ran at least as many actions as its limit and the queue is not empty.
* A submission drains with the batch size as limit and may leave a capped queue behind.
* A writer that finds the pool empty gets an overflow action of its own; submitting it drains the whole
  queue, runs the action and drains again.
* `exclusively` drains the whole queue before it looks at the state.
-/

namespace WindowedMetrics

structure Actor (S A : Type) where
  state : S
  pool : SlotPool
  /-- What each slot holds. -/
  contents : Array A
  batchSize : Nat
  locked : Bool := false
  submitted : Nat := 0
  executed : Nat := 0
  overflows : Nat := 0
  capHits : Nat := 0

/-- An action taken from an actor: one of its slots, or an overflow action with its content. -/
inductive Handle (A : Type) where
  | slot (index : Nat)
  | overflow (content : A)
  deriving DecidableEq

def Handle.isOverflow {A : Type} : Handle A → Bool
  | .slot _ => false
  | .overflow _ => true

instance {A : Type} : Described (Handle A) where
  describe
    | .slot i => Text.record "PooledAction" [("kind", Text.quoted ("slot " ++ toString i))]
    | .overflow _ => Text.record "PooledAction" [("kind", Text.quoted "overflow")]

namespace Actor

variable {S A : Type} [Action S A]

/-- An actor with all slots free, unless its sizes are out of range. -/
def create (state : S) (poolSize batchSize : Nat) : Except ConfigFault (Actor S A) :=
  if poolSize = 0 ∨ Limits.poolSizeBound ≤ poolSize then .error (.invalidSizing .poolSize)
  else if batchSize = 0 then .error (.invalidSizing .batchSize)
  else .ok {
    state
    pool := SlotPool.fresh poolSize
    contents := Array.replicate poolSize Action.blank
    batchSize }

theorem eq_of_create {state : S} {poolSize batchSize : Nat} {x : Actor S A}
    (h : create state poolSize batchSize = .ok x) :
    x = {
      state
      pool := SlotPool.fresh poolSize
      contents := Array.replicate poolSize Action.blank
      batchSize } := by
  unfold create at h
  split at h
  · cases h
  split at h
  · cases h
  cases h
  rfl

omit [Action S A] in
def stats (x : Actor S A) : ActorStats where
  poolSize := x.pool.size
  batchSize := x.batchSize
  submitted := x.submitted
  executed := x.executed
  overflows := x.overflows
  capHits := x.capHits

/-! ### Taking and filling actions -/

/-- What a slot holds. -/
def content (x : Actor S A) (slot : Nat) : A := (x.contents[slot]?).getD Action.blank

omit [Action S A] in
def setContent (x : Actor S A) (slot : Nat) (a : A) : Actor S A :=
  { x with contents := x.contents.setIfInBounds slot a }

/-- Take an action: the slot freed last, or an overflow action if no slot is free. -/
def acquire (x : Actor S A) : Logged (Handle A × Actor S A) :=
  match x.pool.popFree with
  | some (slot, pool) => pure (.slot slot, { x with pool })
  | none => do
    Logged.emit (if x.overflows = 0 then .poolExhausted x.pool.size
      else .overflowAllocated (x.overflows + 1))
    return (.overflow Action.blank, { x with overflows := x.overflows + 1 })

/-- What a taken action holds. -/
def read (x : Actor S A) : Handle A → A
  | .slot i => x.content i
  | .overflow a => a

omit [Action S A] in
def fill (x : Actor S A) (a : A) : Handle A → Handle A × Actor S A
  | .slot i => (.slot i, x.setContent i a)
  | .overflow _ => (.overflow a, x)

omit [Action S A] in
/-- Give a taken action back without submitting it. -/
def discard (x : Actor S A) : Handle A → Actor S A
  | .slot i => { x with pool := x.pool.pushFree i }
  | .overflow _ => x

omit [Action S A] in
/-- Queue a slot as submitted. -/
def schedule (x : Actor S A) (slot : Nat) : Actor S A :=
  { x with pool := x.pool.enqueue slot, submitted := x.submitted + 1 }

/-! ### Running actions -/

/-- Run a script that holds the given actions.  Those it still holds at its end are given back. -/
def runScript : Script S A → List (Handle A) → Actor S A → Logged (Actor S A)
  | .done, held, x => pure (held.foldl discard x)
  | .edit change next, held, x => runScript next held { x with state := change x.state }
  | .inspect next, held, x => runScript (next x.state) held x
  | .acquire next, held, x => do
    let (h, x) ← x.acquire
    runScript (next h.isOverflow) (h :: held) x
  | .submit place a next, held, x =>
    match held[place]? with
    | some (.slot i) => runScript next (held.eraseIdx place) ((x.setContent i a).schedule i)
    | _ => runScript next (held.eraseIdx place) x
  | .discard place next, held, x =>
    match held[place]? with
    | some h => runScript next (held.eraseIdx place) (x.discard h)
    | none => runScript next held x

/-- Run the action in a slot; the slot is free afterwards. -/
def runSlot (x : Actor S A) (slot : Nat) : Logged (Actor S A) := do
  let a := x.content slot
  let x ← runScript (Action.script a) [] x
  return (x.setContent slot (Action.spent a)).discard (.slot slot)

/-- Run the actions in slots taken from the queue, in this order. -/
def runSlots (x : Actor S A) : List Nat → Logged (Actor S A)
  | [] => pure x
  | slot :: rest => do
    let x ← x.runSlot slot
    runSlots x rest

/-! ### Draining -/

omit [Action S A] in
/-- The end of a drain that ran `ran` actions: whether it was capped. -/
def endDrain (x : Actor S A) (limit ran : Nat) : Bool × Actor S A :=
  (decide (limit ≤ ran) && !x.pool.queueEmpty, { x with executed := x.executed + ran })

/-- Run queued actions, a whole queue at a time, until the queue is empty or at least `limit` actions
ran, `ran` of them before.  Says whether the drain was capped. -/
def drain (x : Actor S A) (limit ran : Nat) : Logged (Bool × Actor S A) :=
  match _h : x.pool.takeQueue with
  | none => pure (x.endDrain limit ran)
  | some (slots, pool) => do
    let x ← runSlots { x with pool } slots
    if limit ≤ ran + slots.length then return x.endDrain limit (ran + slots.length)
    else drain x limit (ran + slots.length)
termination_by limit - ran
decreasing_by
  have := List.length_pos_iff.2 (SlotPool.takeQueue_ne_nil _h)
  omega

/-- A drain that was not capped leaves an empty queue. -/
theorem queueEmpty_of_drain (x : Actor S A) (limit ran : Nat)
    (h : (x.drain limit ran).value.1 = false) :
    (x.drain limit ran).value.2.pool.queueEmpty := by
  have atEnd : ∀ (y : Actor S A) (n : Nat), limit ≤ n → (y.endDrain limit n).1 = false →
      (y.endDrain limit n).2.pool.queueEmpty := by
    intro y n hn hy
    simpa [endDrain, hn] using hy
  induction hm : limit - ran using Nat.strongRecOn generalizing x ran with
  | _ m ih =>
    subst hm
    rw [drain] at h ⊢
    split at h
    · rename_i hq
      exact (SlotPool.takeQueue_eq_none_iff _).1 hq
    · rename_i slots pool hq
      have hpos := List.length_pos_iff.2 (SlotPool.takeQueue_ne_nil hq)
      simp only [Logged.value_bind] at h ⊢
      split at h
      · rename_i hle
        rw [if_pos hle]
        exact atEnd _ _ hle h
      · rename_i hlt
        rw [if_neg hlt]
        exact ih _ (by omega) _ _ h rfl

/-- Drain until the queue is empty. -/
def drainAll (x : Actor S A) : Logged (Actor S A) := do
  let (_, x) ← x.drain maxWord 0
  return x

/-- Release the lock after a drain with the batch size as limit.  A drain that was not capped left an
empty queue, so there is nothing to look for after the release. -/
def release (x : Actor S A) (capped : Bool) : Logged (Actor S A) := do
  if capped then
    Logged.emit (.drainCapped x.batchSize)
    return { x with locked := false, capHits := x.capHits + 1 }
  else return { x with locked := false }

/-- With the lock held: drain with the batch size as limit and release the lock. -/
def drainAndRelease (x : Actor S A) : Logged (Actor S A) := do
  let (capped, x) ← x.drain x.batchSize 0
  x.release capped

/-! ### Submitting -/

/-- With the lock held: run an overflow action, drain and release the lock. -/
def runOverflow (x : Actor S A) (a : A) : Logged (Actor S A) := do
  let x ← runScript (Action.script a) [] x
  drainAndRelease { x with executed := x.executed + 1 }

/-- Submit a taken action.  While the lock is held a slot is only queued; an overflow action would wait
for the lock, and is dropped here. -/
def submit (x : Actor S A) : Handle A → Logged (Actor S A)
  | .slot i =>
    let x := x.schedule i
    if x.locked then pure x else drainAndRelease { x with locked := true }
  | .overflow a =>
    if x.locked then pure x
    else do
      let x ← drainAll { x with locked := true, submitted := x.submitted + 1 }
      x.runOverflow a

/-- Take an action, fill it and submit it. -/
def send (x : Actor S A) (a : A) : Logged (Actor S A) := do
  let (h, x) ← x.acquire
  let (h, x) := x.fill a h
  x.submit h

/-! ### Exclusive access -/

/-- Take the lock and drain the whole queue. -/
def enter (x : Actor S A) : Logged (Actor S A) := drainAll { x with locked := true }

omit [Action S A] in
def leave (x : Actor S A) : Actor S A := { x with locked := false }

/-- Look at the state, or change it, after everything submitted before has run. -/
def exclusively {B : Type} (x : Actor S A) (f : S → B × S) : Logged (B × Actor S A) := do
  let x ← x.enter
  let (b, state) := f x.state
  return (b, { x with state, locked := false })

end Actor

instance {S A : Type} : Described (Actor S A) where
  describe x := Text.record "BufferedActor"
    [("pool_size", describe x.pool.size), ("batch_size", describe x.batchSize),
      ("total_submitted", describe x.submitted), ("overflow_allocations", describe x.overflows)]

end WindowedMetrics
