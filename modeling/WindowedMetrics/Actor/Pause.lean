import WindowedMetrics.Actor.Basic

/-!
# Writers held up

A writer that has the lock of an actor can be held up right before one of the actions it runs, its own or
one that others have queued.  `submitUntil` stops it there, `resume` lets it go on.  In between other
writers can queue actions; a writer with an overflow action waits for the lock, and its submission takes
place after the release.

* A drain that is stopped keeps the slots it has taken from the queue; those it has run are free again
  (`drainUntil`, `drainRest`).
* Holding a writer up changes nothing by itself: `drainUntil_bind_finish`, `submitUntil_bind_resume?`.
-/

namespace WindowedMetrics

/-- What a stopped drain has left of the queue it took. -/
structure Remainder where
  /-- The limit of the drain. -/
  limit : Nat
  /-- The slots to be run, in this order. -/
  slots : List Nat
  /-- How many actions the drain has run after them. -/
  ran : Nat
  deriving DecidableEq

/-- How a drain that could be stopped came out. -/
inductive Drained where
  | ended (capped : Bool)
  | stopped (left : Remainder)
  deriving DecidableEq

def Drained.isStopped : Drained → Bool
  | .ended _ => false
  | .stopped _ => true

/-- Where a writer was held up. -/
inductive Pause (A : Type) where
  /-- In the drain that follows the submission of a slot. -/
  | draining (left : Remainder)
  /-- In the drain ahead of an overflow action. -/
  | drainingAhead (left : Remainder) (content : A)
  /-- Before its overflow action. -/
  | overflow (content : A)
  deriving DecidableEq

namespace Actor

variable {S A : Type} [Action S A]

/-! ### Stopping a drain -/

/-- Run the actions in slots up to the first that `hold` is true of; the slots not run. -/
def runSlotsUntil (hold : S → A → Bool) (x : Actor S A) : List Nat → Logged (List Nat × Actor S A)
  | [] => pure ([], x)
  | slot :: rest =>
    if hold x.state (x.content slot) then pure (slot :: rest, x)
    else do
      let x ← x.runSlot slot
      runSlotsUntil hold x rest

/-- Drain, and stop before the first action that `hold` is true of. -/
def drainUntil (hold : S → A → Bool) (x : Actor S A) (limit ran : Nat) :
    Logged (Drained × Actor S A) :=
  match _h : x.pool.takeQueue with
  | none =>
    let (capped, x) := x.endDrain limit ran
    pure (.ended capped, x)
  | some (slots, pool) => do
    let (left, x) ← runSlotsUntil hold { x with pool } slots
    if left ≠ [] then return (.stopped ⟨limit, left, ran + slots.length⟩, x)
    else if limit ≤ ran + slots.length then
      let (capped, x) := x.endDrain limit (ran + slots.length)
      return (.ended capped, x)
    else drainUntil hold x limit (ran + slots.length)
termination_by limit - ran
decreasing_by
  have := List.length_pos_iff.2 (SlotPool.takeQueue_ne_nil _h)
  omega

/-- Finish a drain that was stopped. -/
def drainRest (x : Actor S A) (left : Remainder) : Logged (Bool × Actor S A) := do
  let x ← x.runSlots left.slots
  if left.limit ≤ left.ran then return x.endDrain left.limit left.ran
  else x.drain left.limit left.ran

/-- Finish a drain however it came out. -/
def finish (x : Actor S A) : Drained → Logged (Bool × Actor S A)
  | .ended capped => pure (capped, x)
  | .stopped left => x.drainRest left

theorem runSlotsUntil_bind_runSlots (hold : S → A → Bool) (x : Actor S A) (slots : List Nat) :
    (x.runSlotsUntil hold slots >>= fun out => out.2.runSlots out.1) = x.runSlots slots := by
  induction slots generalizing x with
  | nil => rfl
  | cons slot rest ih =>
    unfold runSlotsUntil
    split
    · rfl
    · simp only [bind_assoc, ih]
      rfl

theorem drain_of_takeQueue_none {x : Actor S A} (h : x.pool.takeQueue = none) (limit ran : Nat) :
    x.drain limit ran = pure (x.endDrain limit ran) := by
  rw [drain]
  split
  · rfl
  · simp_all

theorem drain_of_takeQueue_some {x : Actor S A} {slots : List Nat} {pool : SlotPool}
    (h : x.pool.takeQueue = some (slots, pool)) (limit ran : Nat) :
    x.drain limit ran =
      Actor.runSlots { x with pool } slots >>= fun y =>
        y.drainRest ⟨limit, [], ran + slots.length⟩ := by
  rw [drain]
  split
  · simp_all
  · rename_i slots' pool' h'
    rw [h] at h'
    cases h'
    rfl

/-- Stopping a drain and finishing it at once is the drain. -/
theorem drainUntil_bind_finish (hold : S → A → Bool) (x : Actor S A) (limit ran : Nat) :
    (x.drainUntil hold limit ran >>= fun out => out.2.finish out.1) = x.drain limit ran := by
  induction hm : limit - ran using Nat.strongRecOn generalizing x ran with
  | _ m ih =>
    subst hm
    rw [drainUntil]
    split
    · rename_i hq
      rw [drain_of_takeQueue_none hq]
      rfl
    · rename_i slots pool hq
      have hpos := List.length_pos_iff.2 (SlotPool.takeQueue_ne_nil hq)
      rw [drain_of_takeQueue_some hq, ← runSlotsUntil_bind_runSlots hold, bind_assoc, bind_assoc]
      congr 1
      funext out
      obtain ⟨left, y⟩ := out
      dsimp only
      by_cases hleft : left = []
      · rw [if_neg (not_not_intro hleft), hleft]
        by_cases hle : limit ≤ ran + slots.length
        · simp only [drainRest, runSlots, if_pos hle]
          rfl
        · rw [if_neg hle, ih _ (by omega) _ _ rfl]
          simp only [drainRest, runSlots, if_neg hle]
          rfl
      · rw [if_pos hleft]
        rfl

/-! ### Submitting -/

/-- Submit a taken action, and stop its writer before the first action that `hold` is true of. -/
def submitUntil (x : Actor S A) (hold : S → A → Bool) :
    Handle A → Logged (Option (Pause A) × Actor S A)
  | .slot i =>
    let x := x.schedule i
    if x.locked then pure (none, x)
    else do
      let (out, x) ← { x with locked := true }.drainUntil hold x.batchSize 0
      match out with
      | .stopped left => return (some (.draining left), x)
      | .ended capped =>
        let x ← x.release capped
        return (none, x)
  | .overflow a =>
    if x.locked then pure (none, x)
    else do
      let (out, x) ←
        { x with locked := true, submitted := x.submitted + 1 }.drainUntil hold maxWord 0
      match out with
      | .stopped left => return (some (.drainingAhead left a), x)
      | .ended _ =>
        if hold x.state a then return (some (.overflow a), x)
        else
          let x ← x.runOverflow a
          return (none, x)

/-- Let a writer go on that was held up. -/
def resume (x : Actor S A) : Pause A → Logged (Actor S A)
  | .draining left => do
    let (capped, x) ← x.drainRest left
    x.release capped
  | .drainingAhead left a => do
    let (_, x) ← x.drainRest left
    x.runOverflow a
  | .overflow a => x.runOverflow a

/-- Let a writer go on if it was held up. -/
def resume? (x : Actor S A) : Option (Pause A) → Logged (Actor S A)
  | none => pure x
  | some pause => x.resume pause

/-- Stopping a writer and letting it go on at once is its submission. -/
theorem submitUntil_bind_resume? (x : Actor S A) (hold : S → A → Bool) (h : Handle A) :
    (x.submitUntil hold h >>= fun out => out.2.resume? out.1) = x.submit h := by
  cases h with
  | slot i =>
    unfold submitUntil submit drainAndRelease
    dsimp only
    split
    · rfl
    · rw [← drainUntil_bind_finish hold, bind_assoc, bind_assoc]
      congr 1
      funext out
      obtain ⟨d, y⟩ := out
      cases d with
      | ended capped => simp only [bind_assoc, pure_bind, resume?, finish, bind_pure]
      | stopped left => rfl
  | overflow a =>
    unfold submitUntil submit drainAll
    dsimp only
    split
    · rfl
    · rw [← drainUntil_bind_finish hold, bind_assoc, bind_assoc, bind_assoc]
      congr 1
      funext out
      obtain ⟨d, y⟩ := out
      cases d with
      | ended capped =>
        dsimp only
        split
        · rfl
        · simp only [bind_assoc, pure_bind, resume?, finish, bind_pure]
      | stopped left => simp only [pure_bind, resume?, resume, finish]

/-- Whether the drain of somebody who takes the lock runs an action that `hold` is true of. -/
def meetsOnEntry (x : Actor S A) (hold : S → A → Bool) : Bool :=
  (drainUntil hold { x with locked := true } maxWord 0).value.1.isStopped

end Actor

end WindowedMetrics
