import Mathlib.Logic.Function.Basic
import Mathlib.Tactic.SplitIfs
import WindowedMetrics.Actor.Pause

/-!
# Actors with a ledger

Actions are numbered in the order in which they are taken, and a ledger says what was done with each of
them: queued with a content, run with a content, given back (`Deed`).  `Ledger` is an actor with its
ledger; its operations are those of the actor and write down what they do.

* `Client.run` is what somebody does with an actor and the actions taken from it (`Request`).
* Keeping a ledger changes nothing: the actor and the handles are those of `Desk.run`, which makes the same
  requests to the actor alone (`Client.desk_run`).
-/

namespace WindowedMetrics

/-! ### Deeds -/

/-- What was done with a numbered action. -/
inductive Deed (A : Type) where
  /-- Its slot was queued. -/
  | queued (number : Nat) (content : A)
  /-- It was run from its slot. -/
  | ran (number : Nat) (content : A)
  /-- It was run as an overflow action. -/
  | ranOverflow (number : Nat) (content : A)
  /-- It was given back unsubmitted. -/
  | dropped (number : Nat)
  deriving DecidableEq

namespace Deed

variable {A : Type}

def queued? : Deed A → Option (Nat × A)
  | .queued n a => some (n, a)
  | _ => none

def ran? : Deed A → Option (Nat × A)
  | .ran n a => some (n, a)
  | _ => none

def ranOverflow? : Deed A → Option (Nat × A)
  | .ranOverflow n a => some (n, a)
  | _ => none

def dropped? : Deed A → Option Nat
  | .dropped n => some n
  | _ => none

/-- The number of an action that got out of its owner's hands. -/
def parted? : Deed A → Option Nat
  | .queued n _ | .ranOverflow n _ | .dropped n => some n
  | _ => none

end Deed

/-- A taken action with its number. -/
structure Numbered (A : Type) where
  number : Nat
  handle : Handle A
  deriving DecidableEq

/-- An actor and what was done with its actions, the latest at the end. -/
structure Ledger (S A : Type) where
  actor : Actor S A
  /-- The number of the action that each slot was taken for last. -/
  owner : Nat → Nat := fun _ => 0
  /-- How many actions have been taken. -/
  issued : Nat := 0
  deeds : List (Deed A) := []

namespace Ledger

variable {S A : Type} [Action S A]

/-! ### The operations of the actor, written down -/

omit [Action S A] in
/-- With another deed written down. -/
def note (w : Ledger S A) (d : Deed A) : Ledger S A := { w with deeds := w.deeds ++ [d] }

/-- Take an action. -/
def acquire (w : Ledger S A) : Numbered A × Ledger S A :=
  let out := w.actor.acquire.value
  (⟨w.issued, out.1⟩,
    { actor := out.2
      owner := match out.1 with
        | .slot i => Function.update w.owner i w.issued
        | .overflow _ => w.owner
      issued := w.issued + 1
      deeds := w.deeds })

omit [Action S A] in
/-- Give a taken action back. -/
def discard (w : Ledger S A) (h : Numbered A) : Ledger S A :=
  { w with actor := w.actor.discard h.handle }.note (.dropped h.number)

omit [Action S A] in
def setContent (w : Ledger S A) (slot : Nat) (a : A) : Ledger S A :=
  { w with actor := w.actor.setContent slot a }

/-- Queue the slot that was taken for an action. -/
def schedule (w : Ledger S A) (number slot : Nat) : Ledger S A :=
  { w with actor := w.actor.schedule slot }.note (.queued number (w.actor.content slot))

/-- Run a script that holds the given actions. -/
def runScript : Script S A → List (Numbered A) → Ledger S A → Ledger S A
  | .done, held, w => held.foldl discard w
  | .edit change next, held, w =>
    runScript next held { w with actor := { w.actor with state := change w.actor.state } }
  | .inspect next, held, w => runScript (next w.actor.state) held w
  | .acquire next, held, w =>
    runScript (next w.acquire.1.handle.isOverflow) (w.acquire.1 :: held) w.acquire.2
  | .submit place a next, held, w =>
    match held[place]? with
    | some ⟨n, .slot i⟩ => runScript next (held.eraseIdx place) ((w.setContent i a).schedule n i)
    | some ⟨n, .overflow _⟩ => runScript next (held.eraseIdx place) (w.note (.dropped n))
    | none => runScript next (held.eraseIdx place) w
  | .discard place next, held, w =>
    match held[place]? with
    | some h => runScript next (held.eraseIdx place) (w.discard h)
    | none => runScript next held w

omit [Action S A] in
/-- The slot of an action that has run is free again. -/
def recycle (w : Ledger S A) (slot : Nat) (spent : A) : Ledger S A :=
  { w with actor := (w.actor.setContent slot spent).discard (.slot slot) }

def runSlot (w : Ledger S A) (slot : Nat) : Ledger S A :=
  let a := w.actor.content slot
  (runScript (Action.script a) [] (w.note (.ran (w.owner slot) a))).recycle slot (Action.spent a)

def runSlots (w : Ledger S A) (slots : List Nat) : Ledger S A := slots.foldl runSlot w

omit [Action S A] in
def endDrain (w : Ledger S A) (limit ran : Nat) : Bool × Ledger S A :=
  ((w.actor.endDrain limit ran).1, { w with actor := (w.actor.endDrain limit ran).2 })

def drain (w : Ledger S A) (limit ran : Nat) : Bool × Ledger S A :=
  match _h : w.actor.pool.takeQueue with
  | none => w.endDrain limit ran
  | some (slots, pool) =>
    let w := runSlots { w with actor := { w.actor with pool } } slots
    if limit ≤ ran + slots.length then w.endDrain limit (ran + slots.length)
    else drain w limit (ran + slots.length)
termination_by limit - ran
decreasing_by
  have := List.length_pos_iff.2 (SlotPool.takeQueue_ne_nil _h)
  omega

def drainAll (w : Ledger S A) : Ledger S A := (w.drain maxWord 0).2

omit [Action S A] in
def release (w : Ledger S A) (capped : Bool) : Ledger S A :=
  { w with actor := (w.actor.release capped).value }

def drainAndRelease (w : Ledger S A) : Ledger S A :=
  let out := w.drain w.actor.batchSize 0
  out.2.release out.1

/-- Run an overflow action and count it. -/
def runOverflow (w : Ledger S A) (number : Nat) (a : A) : Ledger S A :=
  let w := runScript (Action.script a) [] (w.note (.ranOverflow number a))
  drainAndRelease { w with actor := { w.actor with executed := w.actor.executed + 1 } }

/-- Submit a taken action; an overflow action must not be submitted while the lock is held. -/
def submit (w : Ledger S A) (h : Numbered A) : Ledger S A :=
  match h.handle with
  | .slot i =>
    let w := w.schedule h.number i
    if w.actor.locked then w
    else drainAndRelease { w with actor := { w.actor with locked := true } }
  | .overflow a =>
    let x := { w.actor with locked := true, submitted := w.actor.submitted + 1 }
    runOverflow (drainAll { w with actor := x }) h.number a

def enter (w : Ledger S A) : Ledger S A := drainAll { w with actor := { w.actor with locked := true } }

/-! ### The actor in a ledger -/

omit [Action S A] in
theorem handles_eraseIdx (held : List (Numbered A)) (place : Nat) :
    (held.eraseIdx place).map (·.handle) = (held.map (·.handle)).eraseIdx place := by
  simp only [List.eraseIdx_eq_take_drop_succ, List.map_append, List.map_take, List.map_drop]

omit [Action S A] in
theorem actor_foldl_discard (held : List (Numbered A)) (w : Ledger S A) :
    (held.foldl discard w).actor = (held.map (·.handle)).foldl Actor.discard w.actor := by
  induction held generalizing w with
  | nil => rfl
  | cons h held ih => exact ih (w.discard h)

theorem actor_runScript (s : Script S A) (held : List (Numbered A)) (w : Ledger S A) :
    (runScript s held w).actor = (Actor.runScript s (held.map (·.handle)) w.actor).value := by
  induction s generalizing held w with
  | done => exact actor_foldl_discard held w
  | edit change next ih => exact ih held _
  | inspect next ih => exact ih w.actor.state held w
  | acquire next ih => exact ih _ (w.acquire.1 :: held) w.acquire.2
  | submit place a next ih =>
    unfold runScript Actor.runScript
    rw [List.getElem?_map]
    cases held[place]? with
    | none =>
      rw [Option.map_none, ← handles_eraseIdx]
      exact ih (held.eraseIdx place) w
    | some h =>
      obtain ⟨n, i | content⟩ := h
      · rw [Option.map_some, ← handles_eraseIdx]
        exact ih (held.eraseIdx place) ((w.setContent i a).schedule n i)
      · rw [Option.map_some, ← handles_eraseIdx]
        exact ih (held.eraseIdx place) (w.note (.dropped n))
  | discard place next ih =>
    unfold runScript Actor.runScript
    rw [List.getElem?_map]
    cases held[place]? with
    | none => exact ih held w
    | some h =>
      rw [Option.map_some, ← handles_eraseIdx]
      exact ih (held.eraseIdx place) (w.discard h)

theorem actor_runSlot (w : Ledger S A) (slot : Nat) :
    (w.runSlot slot).actor = (w.actor.runSlot slot).value := by
  have h := actor_runScript (Action.script (w.actor.content slot)) []
    (w.note (.ran (w.owner slot) (w.actor.content slot)))
  simp only [runSlot, recycle, Actor.runSlot, Logged.value_bind, Logged.value_pure, h]
  rfl

theorem actor_runSlots (w : Ledger S A) (slots : List Nat) :
    (w.runSlots slots).actor = (w.actor.runSlots slots).value := by
  induction slots generalizing w with
  | nil => rfl
  | cons slot slots ih =>
    show ((w.runSlot slot).runSlots slots).actor = _
    rw [ih, actor_runSlot]
    rfl

theorem drain_of_takeQueue_none {w : Ledger S A} (h : w.actor.pool.takeQueue = none) (limit ran : Nat) :
    w.drain limit ran = w.endDrain limit ran := by
  rw [drain]
  split
  · rfl
  · simp_all

theorem drain_of_takeQueue_some {w : Ledger S A} {slots : List Nat} {pool : SlotPool}
    (h : w.actor.pool.takeQueue = some (slots, pool)) (limit ran : Nat) :
    w.drain limit ran =
      let out := runSlots { w with actor := { w.actor with pool } } slots
      if limit ≤ ran + slots.length then out.endDrain limit (ran + slots.length)
      else out.drain limit (ran + slots.length) := by
  rw [drain]
  split
  · simp_all
  · rename_i slots' pool' h'
    rw [h] at h'
    cases h'
    rfl

theorem drain_eq (w : Ledger S A) (limit ran : Nat) :
    ((w.drain limit ran).1, (w.drain limit ran).2.actor) = (w.actor.drain limit ran).value := by
  induction hm : limit - ran using Nat.strongRecOn generalizing w ran with
  | _ m ih =>
    subst hm
    cases hq : w.actor.pool.takeQueue with
    | none =>
      rw [drain_of_takeQueue_none hq, Actor.drain_of_takeQueue_none hq]
      rfl
    | some taken =>
      obtain ⟨slots, pool⟩ := taken
      have hpos := List.length_pos_iff.2 (SlotPool.takeQueue_ne_nil hq)
      have hslots := actor_runSlots { w with actor := { w.actor with pool } } slots
      rw [drain_of_takeQueue_some hq, Actor.drain_of_takeQueue_some hq]
      simp only [Logged.value_bind, ← hslots, Actor.drainRest, Actor.runSlots, Logged.value_pure]
      by_cases hle : limit ≤ ran + slots.length
      · rw [if_pos hle, if_pos hle]
        rfl
      · rw [if_neg hle, if_neg hle]
        exact ih _ (by omega) _ _ rfl

theorem actor_drainAll (w : Ledger S A) : w.drainAll.actor = w.actor.drainAll.value := by
  have h := congrArg Prod.snd (w.drain_eq maxWord 0)
  exact h

theorem actor_enter (w : Ledger S A) : w.enter.actor = w.actor.enter.value := actor_drainAll _

end Ledger

/-! ### Requests -/

/-- What can be asked of an actor by the owner of handles, who names them by their place.  From `enter` to
`leave` the lock is held by somebody with exclusive access, who can change the state. -/
inductive Request (S A : Type) where
  | take
  | fill (place : Nat) (a : A)
  | submit (place : Nat)
  | drop (place : Nat)
  | enter
  | edit (change : S → S)
  | leave

/-- An actor and the handles taken from it, the one taken last in front. -/
structure Desk (S A : Type) where
  actor : Actor S A
  handles : List (Handle A) := []

/-- An actor with its ledger, and the actions taken from it. -/
structure Client (S A : Type) where
  ledger : Ledger S A
  held : List (Numbered A) := []

variable {S A : Type} [Action S A]

namespace Desk

/-- A request made to the actor.  What would wait for ever, or names no handle, does nothing. -/
def act (d : Desk S A) : Request S A → Desk S A
  | .take => ⟨d.actor.acquire.value.2, d.actor.acquire.value.1 :: d.handles⟩
  | .fill place a =>
    match d.handles[place]? with
    | some h => ⟨(d.actor.fill a h).2, d.handles.set place (d.actor.fill a h).1⟩
    | none => d
  | .submit place =>
    match d.handles[place]? with
    | some h =>
      if h.isOverflow && d.actor.locked then d
      else ⟨(d.actor.submit h).value, d.handles.eraseIdx place⟩
    | none => d
  | .drop place =>
    match d.handles[place]? with
    | some h => ⟨d.actor.discard h, d.handles.eraseIdx place⟩
    | none => d
  | .enter => if d.actor.locked then d else { d with actor := d.actor.enter.value }
  | .edit change =>
    if d.actor.locked then { d with actor := { d.actor with state := change d.actor.state } } else d
  | .leave => { d with actor := d.actor.leave }

def run (x : Actor S A) (requests : List (Request S A)) : Desk S A := requests.foldl act { actor := x }

end Desk

namespace Client

/-- The same request, written down. -/
def act (c : Client S A) : Request S A → Client S A
  | .take => ⟨c.ledger.acquire.2, c.ledger.acquire.1 :: c.held⟩
  | .fill place a =>
    match c.held[place]? with
    | some h =>
      ⟨{ c.ledger with actor := (c.ledger.actor.fill a h.handle).2 },
        c.held.set place { h with handle := (c.ledger.actor.fill a h.handle).1 }⟩
    | none => c
  | .submit place =>
    match c.held[place]? with
    | some h =>
      if h.handle.isOverflow && c.ledger.actor.locked then c
      else ⟨c.ledger.submit h, c.held.eraseIdx place⟩
    | none => c
  | .drop place =>
    match c.held[place]? with
    | some h => ⟨c.ledger.discard h, c.held.eraseIdx place⟩
    | none => c
  | .enter => if c.ledger.actor.locked then c else { c with ledger := c.ledger.enter }
  | .edit change =>
    if c.ledger.actor.locked then
      { c with ledger.actor.state := change c.ledger.actor.state }
    else c
  | .leave => { c with ledger.actor := c.ledger.actor.leave }

def run (x : Actor S A) (requests : List (Request S A)) : Client S A :=
  requests.foldl act { ledger := { actor := x } }

end Client

end WindowedMetrics
