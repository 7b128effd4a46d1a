import Mathlib.Algebra.BigOperators.Group.List.Basic
import WindowedMetrics.Counter
import WindowedMetrics.Proofs.Window.Runs

/-!
# Racing additions

Threads add to a rolling window at instants of one interval, a load, a store or an exchange at a time and
in any order (`AddRace.act`).  If the slot of the interval is late, each of them first adds to the phase
that is not current and then tries to make it current; the one that succeeds schedules it and empties the
old phase, while others may still be looking at either.

* Taken in a row the steps of a call are an addition (`AddRace.run_alone`).
* `Turn` says how far the slot has come with changing its phases, and who is at it; `Turn.Admits` which
  calls can be where meanwhile.  No call adds to the old phase once the new one can be current, and none
  takes the old phase for a running one after it has been put to rest.
* `AddRace.Sound` is what every step keeps.
* So the calls have the effect of as many additions made one after the other, in some order
  (`AddRace.exists_order`), and a counter loses nothing (`AddRace.racing_adds`).
-/

namespace WindowedMetrics

variable {A D : Type} [Accumulator A D]

/-! ### Steps -/

/-- How far a call has come with an addition, and which phase it has seen to be current. -/
inductive AddStage where
  | start
  | loaded (side : Side)
  /-- That phase is dormant; look again which one is current. -/
  | doubting (side : Side)
  /-- Add to that phase. -/
  | live (side : Side)
  /-- That phase has expired; add to the other one. -/
  | expired (side : Side)
  /-- Make the other one current, if that phase still is. -/
  | added (side : Side)
  /-- Schedule the other one. -/
  | published (side : Side)
  /-- Empty that phase. -/
  | scheduled (side : Side)
  /-- Put that phase to rest. -/
  | emptied (side : Side)
  | done
  deriving DecidableEq

namespace AddStage

/-- Whether the delta has been added. -/
def hasLanded : AddStage → Bool
  | .start | .loaded _ | .doubting _ | .live _ | .expired _ => false
  | .added _ | .published _ | .scheduled _ | .emptied _ | .done => true

/-- Whether the next step adds the delta. -/
def lands : AddStage → Bool
  | .live _ | .expired _ => true
  | _ => false

end AddStage

/-- A call with its instant and its delta. -/
structure AddCall (D : Type) where
  now : Nat
  delta : D
  stage : AddStage := .start
  deriving DecidableEq

namespace AddCall

variable {D : Type}

/-- What a call adds, and when. -/
def entry (c : AddCall D) : Nat × D := (c.now, c.delta)

/-- What a call has added. -/
def landed? (c : AddCall D) : Option (Nat × D) := if c.stage.hasLanded then some c.entry else none

end AddCall

namespace Chunk

omit [Accumulator A D] in
def setPhase (c : Chunk A) (side : Side) (phase : ChunkPhase A) : Chunk A :=
  { c with phases := c.phases.set side phase }

/-- Add to a phase, whether it is current or not. -/
def collect (c : Chunk A) (side : Side) (delta : D) : Chunk A :=
  let phase := c.phases.get side
  c.setPhase side { phase with value := Accumulator.add phase.value delta }

/-- The next step of a call on its slot; a phase that it starts expires at `next`. -/
def advance (c : Chunk A) (delta : D) (now next : Nat) : AddStage → AddStage × Chunk A
  | .start => (.loaded c.current, c)
  | .loaded side =>
    let invalidation := (c.phases.get side).invalidation
    if now < invalidation then
      if invalidation = dormant then (.doubting side, c) else (.live side, c)
    else (.expired side, c)
  | .doubting side => if c.current = side then (.live side, c) else (.start, c)
  | .live side => (.done, c.collect side delta)
  | .expired side => (.added side, c.collect side.other delta)
  | .added side =>
    if c.current = side then (.published side, { c with current := side.other }) else (.done, c)
  | .published side =>
    (.scheduled side, c.setPhase side.other { c.phases.get side.other with invalidation := next })
  | .scheduled side =>
    (.emptied side, c.setPhase side { c.phases.get side with value := Accumulator.zero })
  | .emptied side => (.done, c.setPhase side { c.phases.get side with invalidation := dormant })
  | .done => (.done, c)

end Chunk

/-- A window and the calls that add to it. -/
structure AddRace (A D : Type) where
  window : RollingWindow A
  calls : List (AddCall D)

namespace RollingWindow

omit [Accumulator A D] in
/-- The window with another chunk in a slot. -/
def setChunk (w : RollingWindow A) (slot : Nat) (c : Chunk A) : RollingWindow A :=
  { w with chunks := w.chunks.setIfInBounds slot c }

section SetChunk

omit [Accumulator A D]

variable (w : RollingWindow A) (slot now : Nat) (c d : Chunk A)

@[simp] theorem slots_setChunk : (w.setChunk slot c).slots = w.slots := Array.size_setIfInBounds

@[simp] theorem slotOf_setChunk : (w.setChunk slot c).slotOf now = w.slotOf now := by
  show w.intervalOf now % (w.setChunk slot c).slots = _
  rw [slots_setChunk]
  rfl

@[simp] theorem expiryOf_setChunk : (w.setChunk slot c).expiryOf now = w.expiryOf now := by
  show boundary w.creation (w.intervalOf now + (w.setChunk slot c).slots) w.interval = _
  rw [slots_setChunk]
  rfl

@[simp] theorem setChunk_setChunk : (w.setChunk slot c).setChunk slot d = w.setChunk slot d :=
  congrArg (fun chunks => ({ w with chunks } : RollingWindow A)) (Array.setIfInBounds_setIfInBounds c)

variable {w slot c}

theorem getElem?_setChunk_self (h : slot < w.slots) : (w.setChunk slot c).chunks[slot]? = some c :=
  Array.getElem?_setIfInBounds_self_of_lt h

theorem getElem?_setChunk_of_ne {other : Nat} (h : other ≠ slot) :
    (w.setChunk slot c).chunks[other]? = w.chunks[other]? := Array.getElem?_setIfInBounds_ne h.symm

theorem setChunk_self (h : w.chunks[slot]? = some c) : w.setChunk slot c = w := by
  obtain ⟨hlt, rfl⟩ := Array.getElem?_eq_some_iff.mp h
  have hset : w.chunks.setIfInBounds slot w.chunks[slot] = w.chunks := by
    unfold Array.setIfInBounds
    rw [dif_pos hlt, Array.set_getElem_self]
  exact congrArg (fun chunks => ({ w with chunks } : RollingWindow A)) hset

end SetChunk

end RollingWindow

namespace AddRace

/-- The next step of a call. -/
def act (r : AddRace A D) (i : Nat) : AddRace A D :=
  match r.calls[i]? with
  | none => r
  | some call =>
    match r.window.chunks[r.window.slotOf call.now]? with
    | none => r
    | some chunk =>
      let out := chunk.advance call.delta call.now (r.window.expiryOf call.now) call.stage
      { window := r.window.setChunk (r.window.slotOf call.now) out.2
        calls := r.calls.set i { call with stage := out.1 } }

/-- Calls that add to a window; the schedule says whose step is next.  A thread that adds again is one
more call. -/
def run (w : RollingWindow A) (adds : List (Nat × D)) (schedule : List Nat) : AddRace A D :=
  schedule.foldl act { window := w, calls := adds.map fun x => { now := x.1, delta := x.2 } }

/-- All calls have returned. -/
def Returned (r : AddRace A D) : Prop := ∀ call ∈ r.calls, call.stage = .done

theorem run_concat (w : RollingWindow A) (adds : List (Nat × D)) (schedule : List Nat) (i : Nat) :
    run w adds (schedule ++ [i]) = (run w adds schedule).act i := by
  simp [run]

end AddRace

/-- A call alone with its slot is through after seven steps, and has done what an addition does. -/
theorem Chunk.advance_alone (c : Chunk A) (delta : D) (now next : Nat) :
    (fun out : AddStage × Chunk A => out.2.advance delta now next out.1)^[7] (.start, c) =
      (.done, (c.add delta now next).value) := by
  by_cases hrunning : now < c.phase.invalidation
  · rw [Chunk.add_of_lt hrunning]
    obtain ⟨⟨p, q⟩, current⟩ := c
    -- a running phase that is dormant is looked at twice
    cases current with
    | first =>
      by_cases hdormant : p.invalidation = dormant <;>
        simp_all [Chunk.phase, Twin.get, advance, collect, setPhase, Twin.set]
    | second =>
      by_cases hdormant : q.invalidation = dormant <;>
        simp_all [Chunk.phase, Twin.get, advance, collect, setPhase, Twin.set]
  · rw [Chunk.add_of_le (Nat.le_of_not_lt hrunning)]
    obtain ⟨⟨p, q⟩, current⟩ := c
    cases current with
    | first =>
      have hexpired : ¬ now < p.invalidation := hrunning
      simp [Function.iterate_succ, advance, collect, setPhase, Twin.get, Twin.set, Side.other, hexpired]
    | second =>
      have hexpired : ¬ now < q.invalidation := hrunning
      simp [Function.iterate_succ, advance, collect, setPhase, Twin.get, Twin.set, Side.other, hexpired]

namespace AddRace

/-- **One call after the other.**  The steps of a call taken in a row are an addition. -/
theorem run_alone (w : RollingWindow A) (delta : D) (now : Nat) :
    (run w [(now, delta)] (List.replicate 7 0)).window = (w.add delta now).value := by
  cases hchunk : w.chunks[w.slotOf now]? with
  | none => simp [run, act, RollingWindow.add, hchunk, List.replicate]
  | some chunk =>
    have hslot : w.slotOf now < w.slots := (Array.getElem?_eq_some_iff.mp hchunk).1
    have hstep : ∀ out : AddStage × Chunk A,
        act ⟨w.setChunk (w.slotOf now) out.2, [⟨now, delta, out.1⟩]⟩ 0 =
          ⟨w.setChunk (w.slotOf now) (out.2.advance delta now (w.expiryOf now) out.1).2,
            [⟨now, delta, (out.2.advance delta now (w.expiryOf now) out.1).1⟩]⟩ := by
      intro out
      simp [act, RollingWindow.getElem?_setChunk_self hslot]
    have hrun : ∀ (steps : Nat) (out : AddStage × Chunk A),
        ((List.replicate steps 0).foldl act
          ⟨w.setChunk (w.slotOf now) out.2, [⟨now, delta, out.1⟩]⟩).window =
          w.setChunk (w.slotOf now) ((fun out : AddStage × Chunk A =>
            out.2.advance delta now (w.expiryOf now) out.1)^[steps] out).2 := by
      intro steps
      induction steps with
      | zero => intro out; rfl
      | succ steps ih =>
        intro out
        rw [List.replicate_succ, List.foldl_cons, hstep, ih, Function.iterate_succ_apply]
    have hwindow := hrun 7 (.start, chunk)
    rw [Chunk.advance_alone, RollingWindow.setChunk_self hchunk] at hwindow
    unfold RollingWindow.add
    rw [hchunk]
    exact hwindow

end AddRace

/-! ### The change of phases -/

/-- Two values, the first for a side. -/
def Twin.pair {α : Type} (side : Side) (mine other : α) : Twin α :=
  match side with
  | .first => ⟨mine, other⟩
  | .second => ⟨other, mine⟩

theorem Twin.pair_get {α : Type} (t : Twin α) (side : Side) :
    Twin.pair side (t.get side) (t.get side.other) = t := by
  cases side <;> rfl

theorem Twin.pair_other {α : Type} (side : Side) (mine other : α) :
    Twin.pair side.other mine other = Twin.pair side other mine := by
  cases side <;> rfl

/-- How far a slot has come with changing its phases, and which call is at it. -/
inductive Turn where
  /-- The old phase is current. -/
  | pending
  /-- The new one is. -/
  | published (owner : Nat)
  /-- It is scheduled. -/
  | scheduled (owner : Nat)
  /-- The old one is empty. -/
  | emptied (owner : Nat)
  /-- It is dormant. -/
  | finished
  deriving DecidableEq

namespace Turn

def owner? : Turn → Option Nat
  | .pending | .finished => none
  | .published i | .scheduled i | .emptied i => some i

/-- What a step of call `i` makes of the change. -/
inductive Step (i : Nat) : Turn → Turn → Prop
  | stay (turn : Turn) : Step i turn turn
  | publish : Step i .pending (.published i)
  | schedule : Step i (.published i) (.scheduled i)
  | empty : Step i (.scheduled i) (.emptied i)
  | finish : Step i (.emptied i) .finished

/-- Where call `i` can be. -/
def Admits (turn : Turn) (fresh : Side) (i : Nat) : AddStage → Prop
  | .start => turn.owner? ≠ some i
  | .loaded side => turn.owner? ≠ some i ∧ (side = fresh → turn ≠ .pending)
  | .doubting side =>
    turn.owner? ≠ some i ∧ (side = fresh → turn ≠ .pending) ∧ (side = fresh.other → turn = .finished)
  | .live side => turn.owner? ≠ some i ∧ side = fresh ∧ turn ≠ .pending
  | .expired side | .added side => turn.owner? ≠ some i ∧ side = fresh.other
  | .published side => side = fresh.other ∧ turn = .published i
  | .scheduled side => side = fresh.other ∧ turn = .scheduled i
  | .emptied side => side = fresh.other ∧ turn = .emptied i
  | .done => turn.owner? ≠ some i ∧ turn ≠ .pending

/-- How many steps of its own a call has still to take, at most. -/
def left (turn : Turn) (fresh : Side) : AddStage → Nat
  | .start => if turn = .finished then 4 else 7
  | .loaded side => if side = fresh then 3 else 6
  | .doubting side => if side = fresh then 2 else 5
  | .live _ => 1
  | .expired _ => 5
  | .added _ => 4
  | .published _ => 3
  | .scheduled _ => 2
  | .emptied _ => 1
  | .done => 0

/-- Steps of one call leave the others where they can be. -/
theorem Admits.step {turn turn' : Turn} {fresh : Side} {i j : Nat} {stage : AddStage}
    (h : turn.Admits fresh j stage) (hstep : Step i turn turn') (hne : j ≠ i) :
    turn'.Admits fresh j stage := by
  cases hstep with
  | stay => exact h
  | publish | schedule | empty | finish =>
    cases stage <;> simp_all [Admits, owner?, Ne.symm hne]

theorem Step.owner_lt {turn turn' : Turn} {i n : Nat} (hstep : turn.Step i turn')
    (h : ∀ j, turn.owner? = some j → j < n) (hi : i < n) : ∀ j, turn'.owner? = some j → j < n := by
  intro j hj
  cases hstep with
  | stay => exact h j hj
  | finish => simp [owner?] at hj
  | publish | schedule | empty =>
    obtain rfl : i = j := by simpa [owner?] using hj
    exact hi

theorem left_step {turn turn' : Turn} (hstep : turn.Step i turn') (fresh : Side) (stage : AddStage) :
    turn'.left fresh stage ≤ turn.left fresh stage := by
  cases hstep with
  | stay => exact Nat.le_refl _
  | publish | schedule | empty | finish => cases stage <;> simp [left]

theorem eq_done_of_left_eq_zero {turn : Turn} {fresh : Side} {stage : AddStage}
    (h : turn.left fresh stage = 0) : stage = .done := by
  cases stage with
  | done => rfl
  | start | loaded | doubting =>
    simp only [left] at h
    split_ifs at h
  | live | expired | added | published | scheduled | emptied => simp [left] at h

end Turn

/-- The phases of a slot that calls of one interval add to: the new one collects for that interval. -/
structure Turnover (A : Type) where
  fresh : Side
  /-- The old phase as it was. -/
  stale : ChunkPhase A
  /-- When the new phase expires. -/
  next : Nat

namespace Turnover

/-- The slot with a value in the new phase. -/
def chunk (t : Turnover A) (value : A) : Turn → Chunk A
  | .pending => ⟨.pair t.fresh ⟨value, dormant⟩ t.stale, t.fresh.other⟩
  | .published _ => ⟨.pair t.fresh ⟨value, dormant⟩ t.stale, t.fresh⟩
  | .scheduled _ => ⟨.pair t.fresh ⟨value, t.next⟩ t.stale, t.fresh⟩
  | .emptied _ =>
    ⟨.pair t.fresh ⟨value, t.next⟩ { t.stale with value := Accumulator.zero }, t.fresh⟩
  | .finished => ⟨.pair t.fresh ⟨value, t.next⟩ ⟨Accumulator.zero, dormant⟩, t.fresh⟩

/-- An instant of the interval that the new phase collects for. -/
structure Covers (t : Turnover A) (now : Nat) : Prop where
  expired : t.stale.invalidation ≤ now
  running : now < t.next
  scheduled : t.next < dormant

variable {t : Turnover A} {turn : Turn} {value : A} {now i : Nat} {delta : D} {stage : AddStage}

theorem collect_fresh (t : Turnover A) (turn : Turn) (value : A) (delta : D) :
    (t.chunk value turn).collect t.fresh delta = t.chunk (Accumulator.add value delta) turn := by
  obtain ⟨fresh, stale, next⟩ := t
  cases fresh <;> cases turn <;> rfl

theorem current_chunk (t : Turnover A) (turn : Turn) (value : A) :
    (t.chunk value turn).current = if turn = .pending then t.fresh.other else t.fresh := by
  cases turn <;> rfl

theorem phase_finished (t : Turnover A) (value : A) : (t.chunk value .finished).phase = ⟨value, t.next⟩ := by
  obtain ⟨fresh, stale, next⟩ := t
  cases fresh <;> rfl

theorem spare_finished (t : Turnover A) (value : A) :
    (t.chunk value .finished).phases.get (t.chunk value .finished).current.other =
      ⟨Accumulator.zero, dormant⟩ := by
  obtain ⟨fresh, stale, next⟩ := t
  cases fresh <;> rfl

/-- Whoever looks at the new phase once it is current finds it dormant or running. -/
theorem invalidation_fresh (t : Turnover A) {turn : Turn} (value : A) (h : turn ≠ .pending) :
    ((t.chunk value turn).phases.get t.fresh).invalidation = dormant ∨
      ((t.chunk value turn).phases.get t.fresh).invalidation = t.next := by
  obtain ⟨fresh, stale, next⟩ := t
  cases fresh <;> cases turn <;> simp_all [chunk, Twin.pair, Twin.get]

/-- Whoever looks at the old phase finds it expired, or dormant at the end. -/
theorem invalidation_stale (t : Turnover A) (turn : Turn) (value : A) :
    ((t.chunk value turn).phases.get t.fresh.other).invalidation =
      if turn = .finished then dormant else t.stale.invalidation := by
  obtain ⟨fresh, stale, next⟩ := t
  cases fresh <;> cases turn <;> rfl

/-- What a step of call `i` comes to that leads to a turn: it adds to the new phase or to none, and the call
gets closer to its end. -/
structure Advanced (t : Turnover A) (i : Nat) (delta : D) (value : A) (turn : Turn) (stage : AddStage)
    (turn' : Turn) (out : AddStage × Chunk A) : Prop where
  step : turn.Step i turn'
  chunk_eq : out.2 = t.chunk (if stage.lands then Accumulator.add value delta else value) turn'
  admitted : turn'.Admits t.fresh i out.1
  left_le : turn'.left t.fresh out.1 ≤ turn.left t.fresh stage - 1
  landed : out.1.hasLanded = (stage.hasLanded || stage.lands)

theorem advanced_start (h : turn.Admits t.fresh i .start) (delta : D) (now : Nat) :
    t.Advanced i delta value turn .start turn ((t.chunk value turn).advance delta now t.next .start) := by
  have hne := t.fresh.other_ne
  have hout : (t.chunk value turn).advance delta now t.next .start =
      (.loaded (if turn = .pending then t.fresh.other else t.fresh), t.chunk value turn) := by
    rw [← current_chunk]
    rfl
  rw [hout]
  refine ⟨.stay turn, rfl, ⟨h, ?_⟩, ?_, rfl⟩
  · intro hfresh hpending
    rw [if_pos hpending] at hfresh
    exact hne hfresh
  · by_cases hpending : turn = .pending
    · simp [Turn.left, hpending, hne]
    · rw [if_neg hpending]
      by_cases hfinished : turn = .finished <;> simp [Turn.left, hfinished]

/-- Who looks at a phase finds the new one dormant or running, and the old one expired or at rest. -/
theorem advanced_loaded {side : Side} (hcovers : t.Covers now) (h : turn.Admits t.fresh i (.loaded side))
    (delta : D) :
    t.Advanced i delta value turn (.loaded side) turn
      ((t.chunk value turn).advance delta now t.next (.loaded side)) := by
  obtain ⟨howner, hfresh⟩ := h
  have hne := t.fresh.other_ne
  have hdormant : now < dormant := hcovers.running.trans hcovers.scheduled
  rcases t.fresh.eq_or_eq_other side with rfl | rfl
  · have hturn := hfresh rfl
    rcases t.invalidation_fresh value hturn with hinv | hinv
    · have hout : (t.chunk value turn).advance delta now t.next (.loaded t.fresh) =
          (.doubting t.fresh, t.chunk value turn) := by
        simp [Chunk.advance, hinv, hdormant]
      rw [hout]
      exact ⟨.stay turn, rfl, ⟨howner, hfresh, fun heq => absurd heq.symm hne⟩, by simp [Turn.left], rfl⟩
    · have hnext : t.next ≠ dormant := Nat.ne_of_lt hcovers.scheduled
      have hout : (t.chunk value turn).advance delta now t.next (.loaded t.fresh) =
          (.live t.fresh, t.chunk value turn) := by
        simp [Chunk.advance, hinv, hcovers.running, hnext]
      rw [hout]
      exact ⟨.stay turn, rfl, ⟨howner, rfl, hturn⟩, by simp [Turn.left], rfl⟩
  · have hinv := t.invalidation_stale turn value
    by_cases hfinished : turn = .finished
    · rw [if_pos hfinished] at hinv
      have hout : (t.chunk value turn).advance delta now t.next (.loaded t.fresh.other) =
          (.doubting t.fresh.other, t.chunk value turn) := by
        simp [Chunk.advance, hinv, hdormant]
      rw [hout]
      exact ⟨.stay turn, rfl, ⟨howner, hfresh, fun _ => hfinished⟩, by simp [Turn.left, hne], rfl⟩
    · rw [if_neg hfinished] at hinv
      have hexpired := Nat.not_lt.mpr hcovers.expired
      have hout : (t.chunk value turn).advance delta now t.next (.loaded t.fresh.other) =
          (.expired t.fresh.other, t.chunk value turn) := by
        simp [Chunk.advance, hinv, hexpired]
      rw [hout]
      exact ⟨.stay turn, rfl, ⟨howner, rfl⟩, by simp [Turn.left, hne], rfl⟩

/-- Who has found a phase dormant adds to it if it is current, and starts again if it has been put to
rest. -/
theorem advanced_doubting {side : Side} (h : turn.Admits t.fresh i (.doubting side)) (delta : D)
    (now : Nat) :
    t.Advanced i delta value turn (.doubting side) turn
      ((t.chunk value turn).advance delta now t.next (.doubting side)) := by
  obtain ⟨howner, hfresh, hstale⟩ := h
  have hne := t.fresh.other_ne
  have hcurrent := t.current_chunk turn value
  rcases t.fresh.eq_or_eq_other side with rfl | rfl
  · have hturn := hfresh rfl
    rw [if_neg hturn] at hcurrent
    have hout : (t.chunk value turn).advance delta now t.next (.doubting t.fresh) =
        (.live t.fresh, t.chunk value turn) := by
      simp [Chunk.advance, hcurrent]
    rw [hout]
    exact ⟨.stay turn, rfl, ⟨howner, rfl, hturn⟩, by simp [Turn.left], rfl⟩
  · obtain rfl := hstale rfl
    have hout : (t.chunk value .finished).advance delta now t.next (.doubting t.fresh.other) =
        (.start, t.chunk value .finished) := by
      simp [Chunk.advance, chunk, hne.symm]
    rw [hout]
    exact ⟨.stay _, rfl, howner, by simp [Turn.left, hne], rfl⟩

/-- Who has added to the new phase makes it current, unless somebody else has. -/
theorem advanced_added {side : Side} (h : turn.Admits t.fresh i (.added side)) (delta : D) (now : Nat) :
    ∃ turn', t.Advanced i delta value turn (.added side) turn'
      ((t.chunk value turn).advance delta now t.next (.added side)) := by
  obtain ⟨howner, rfl⟩ := h
  have hne := t.fresh.other_ne
  by_cases hpending : turn = .pending
  · subst hpending
    refine ⟨.published i, ?_⟩
    have hout : (t.chunk value .pending).advance delta now t.next (.added t.fresh.other) =
        (.published t.fresh.other, t.chunk value (.published i)) := by
      simp [Chunk.advance, chunk]
    rw [hout]
    exact ⟨.publish, rfl, ⟨rfl, rfl⟩, Nat.le_refl 3, rfl⟩
  · refine ⟨turn, ?_⟩
    have hcurrent := t.current_chunk turn value
    rw [if_neg hpending] at hcurrent
    have hout : (t.chunk value turn).advance delta now t.next (.added t.fresh.other) =
        (.done, t.chunk value turn) := by
      simp [Chunk.advance, hcurrent, hne.symm]
    rw [hout]
    exact ⟨.stay turn, rfl, ⟨howner, hpending⟩, Nat.zero_le 3, rfl⟩

/-- **A step of a call** leads from a turn to a turn. -/
theorem exists_advanced (hcovers : t.Covers now) (h : turn.Admits t.fresh i stage) (delta : D)
    (value : A) :
    ∃ turn', t.Advanced i delta value turn stage turn'
      ((t.chunk value turn).advance delta now t.next stage) := by
  cases stage with
  | start => exact ⟨turn, advanced_start h delta now⟩
  | loaded side => exact ⟨turn, advanced_loaded hcovers h delta⟩
  | doubting side => exact ⟨turn, advanced_doubting h delta now⟩
  | added side => exact advanced_added h delta now
  | live side =>
    obtain ⟨howner, rfl, hturn⟩ := h
    exact ⟨turn, .stay turn, t.collect_fresh turn value delta, ⟨howner, hturn⟩, Nat.zero_le 0, rfl⟩
  | expired side =>
    obtain ⟨howner, rfl⟩ := h
    refine ⟨turn, .stay turn, ?_, ⟨howner, rfl⟩, Nat.le_refl 4, rfl⟩
    show (t.chunk value turn).collect t.fresh.other.other delta = _
    rw [Side.other_other]
    exact t.collect_fresh turn value delta
  | published side =>
    obtain ⟨rfl, rfl⟩ := h
    refine ⟨.scheduled i, .schedule, ?_, ⟨rfl, rfl⟩, Nat.le_refl 2, rfl⟩
    obtain ⟨fresh, stale, next⟩ := t
    cases fresh <;> rfl
  | scheduled side =>
    obtain ⟨rfl, rfl⟩ := h
    refine ⟨.emptied i, .empty, ?_, ⟨rfl, rfl⟩, Nat.le_refl 1, rfl⟩
    obtain ⟨fresh, stale, next⟩ := t
    cases fresh <;> rfl
  | emptied side =>
    obtain ⟨rfl, rfl⟩ := h
    refine ⟨.finished, .finish, ?_, ⟨by simp [Turn.owner?], by simp⟩, Nat.zero_le 0, rfl⟩
    obtain ⟨fresh, stale, next⟩ := t
    cases fresh <;> rfl
  | done => exact ⟨turn, .stay turn, rfl, h, Nat.zero_le 0, rfl⟩

end Turnover

/-! ### Races in one slot -/

/-- An instant at which calls add to a slot. -/
structure Turnover.Meets (t : Turnover A) (w : RollingWindow A) (slot now : Nat) : Prop where
  covers : t.Covers now
  slot_eq : w.slotOf now = slot
  expiry_eq : w.expiryOf now = t.next

/-- What has been added so far, one after the other. -/
def landAll (start : A) (landed : List (Nat × D)) : A :=
  landed.foldl (fun a x => Accumulator.add a x.2) start

theorem landAll_concat (start : A) (landed : List (Nat × D)) (x : Nat × D) :
    landAll start (landed ++ [x]) = Accumulator.add (landAll start landed) x.2 := by
  simp [landAll]

namespace AddRace

/-- What holds between any two steps, by the schedule so far: where the calls are, what has been added, and
how far the slot is. -/
structure Sound (t : Turnover A) (w : RollingWindow A) (slot : Nat) (start : A) (adds : List (Nat × D))
    (schedule : List Nat) (r : AddRace A D) (turn : Turn) (landed : List (Nat × D)) : Prop where
  window : r.window = w.setChunk slot (t.chunk (landAll start landed) turn)
  entries : r.calls.map AddCall.entry = adds
  landed : landed.Perm (r.calls.filterMap AddCall.landed?)
  admitted : ∀ i call, r.calls[i]? = some call → turn.Admits t.fresh i call.stage
  owner : ∀ i, turn.owner? = some i → i < r.calls.length
  left : ∀ i call, r.calls[i]? = some call → turn.left t.fresh call.stage ≤ 7 - schedule.count i

variable {t : Turnover A} {w : RollingWindow A} {slot : Nat} {start : A} {adds : List (Nat × D)}
  {schedule : List Nat} {r : AddRace A D} {turn : Turn} {landed : List (Nat × D)}

/-- A step of a call in the list of what has been added. -/
theorem landed_set {calls : List (AddCall D)} {i : Nat} {call : AddCall D} {stage : AddStage}
    (hcall : calls[i]? = some call) (hstage : stage.hasLanded = (call.stage.hasLanded || call.stage.lands))
    (h : landed.Perm (calls.filterMap AddCall.landed?)) :
    (if call.stage.lands then landed ++ [call.entry] else landed).Perm
      ((calls.set i { call with stage }).filterMap AddCall.landed?) := by
  obtain ⟨hlt, hget⟩ := List.getElem?_eq_some_iff.mp hcall
  have hbefore : calls.Perm (call :: calls.eraseIdx i) := by
    rw [← hget]
    exact (List.getElem_cons_eraseIdx_perm hlt).symm
  have hafter := List.set_perm_cons_eraseIdx hlt { call with stage }
  refine List.Perm.trans ?_ (hafter.filterMap AddCall.landed?).symm
  replace h := h.trans (hbefore.filterMap AddCall.landed?)
  by_cases hlands : call.stage.lands
  · have hnone : call.landed? = none := by
      cases hcase : call.stage <;> simp_all [AddStage.lands, AddStage.hasLanded, AddCall.landed?]
    have hsome : ({ call with stage } : AddCall D).landed? = some call.entry := by
      simp [AddCall.landed?, hstage, hlands, AddCall.entry]
    rw [List.filterMap_cons_none hnone] at h
    rw [if_pos hlands, List.filterMap_cons_some hsome]
    exact (List.perm_append_singleton ..).trans (h.cons call.entry)
  · have hsame : ({ call with stage } : AddCall D).landed? = call.landed? := by
      simp [AddCall.landed?, hstage, hlands, AddCall.entry]
    rw [if_neg hlands, List.filterMap_cons, hsame, ← List.filterMap_cons]
    exact h

/-- **Every step of a call keeps the race sound.** -/
theorem Sound.act (h : Sound t w slot start adds schedule r turn landed) (hslot : slot < w.slots)
    (hmeets : ∀ x ∈ adds, t.Meets w slot x.1) (i : Nat) :
    ∃ turn' landed', Sound t w slot start adds (schedule ++ [i]) (r.act i) turn' landed' := by
  cases hcall : r.calls[i]? with
  | none =>
    have hact : r.act i = r := by simp [AddRace.act, hcall]
    refine ⟨turn, landed, hact.symm ▸ ⟨h.window, h.entries, h.landed, h.admitted, h.owner, ?_⟩⟩
    intro j call hj
    have hne : i ≠ j := by
      rintro rfl
      simp [hcall] at hj
    simpa [List.count_append, List.count_singleton, hne] using h.left j call hj
  | some call =>
    obtain ⟨hlt, hget⟩ := List.getElem?_eq_some_iff.mp hcall
    have hentry : call.entry ∈ adds := by
      rw [← h.entries]
      exact List.mem_map_of_mem (List.mem_of_getElem? hcall)
    have hmeet : t.Meets w slot call.now := hmeets _ hentry
    obtain ⟨turn', hadvanced⟩ := Turnover.exists_advanced hmeet.covers (h.admitted i call hcall) call.delta
      (landAll start landed)
    generalize hout : (t.chunk (landAll start landed) turn).advance call.delta call.now t.next
      call.stage = out at hadvanced
    have hact : r.act i = ⟨w.setChunk slot out.2, r.calls.set i { call with stage := out.1 }⟩ := by
      have hsame : r.window.slotOf call.now = slot ∧ r.window.expiryOf call.now = t.next := by
        rw [h.window]
        simp [hmeet.slot_eq, hmeet.expiry_eq]
      have hchunk : r.window.chunks[slot]? = some (t.chunk (landAll start landed) turn) := by
        rw [h.window]
        exact RollingWindow.getElem?_setChunk_self hslot
      simp only [AddRace.act, hcall, hsame.1, hsame.2, hchunk, hout]
      rw [h.window, RollingWindow.setChunk_setChunk]
    refine ⟨turn', if call.stage.lands then landed ++ [call.entry] else landed, ?_⟩
    rw [hact]
    refine ⟨?_, ?_, landed_set hcall hadvanced.landed h.landed, ?_, ?_, ?_⟩
    · rw [hadvanced.chunk_eq]
      by_cases hlands : call.stage.lands
      · rw [if_pos hlands, if_pos hlands, landAll_concat]
        rfl
      · rw [if_neg hlands, if_neg hlands]
    · show (r.calls.set i _).map AddCall.entry = adds
      have hsame : (r.calls.map AddCall.entry)[i]? = some call.entry := by simp [hcall]
      obtain ⟨_, hentry⟩ := List.getElem?_eq_some_iff.mp hsame
      rw [List.map_set, ← h.entries]
      exact hentry ▸ List.set_getElem_self _
    · intro j other hj
      by_cases hne : i = j
      · subst hne
        rw [List.getElem?_set_self hlt] at hj
        cases hj
        exact hadvanced.admitted
      · rw [List.getElem?_set_ne hne] at hj
        exact (h.admitted j other hj).step hadvanced.step (Ne.symm hne)
    · intro j hj
      show j < (r.calls.set i _).length
      rw [List.length_set]
      exact hadvanced.step.owner_lt h.owner hlt j hj
    · intro j other hj
      rw [List.count_append, List.count_singleton]
      by_cases hne : i = j
      · subst hne
        rw [List.getElem?_set_self hlt] at hj
        cases hj
        have hbefore := h.left i call hcall
        have hcloser := hadvanced.left_le
        simp only [beq_self_eq_true, if_true]
        omega
      · rw [List.getElem?_set_ne hne] at hj
        have hbefore := h.left j other hj
        have hother := Turn.left_step hadvanced.step t.fresh other.stage
        simp only [beq_iff_eq, hne, if_false]
        omega

theorem Sound.run (hslot : slot < w.slots) (hmeets : ∀ x ∈ adds, t.Meets w slot x.1)
    (hchunk : w.chunks[slot]? = some (t.chunk start turn)) (hturn : turn.owner? = none)
    (schedule : List Nat) :
    ∃ turn' landed, Sound t w slot start adds schedule (AddRace.run w adds schedule) turn' landed := by
  induction schedule using List.reverseRecOn with
  | nil =>
    refine ⟨turn, [], (RollingWindow.setChunk_self hchunk).symm, ?_, ?_, ?_, ?_, ?_⟩
    · simp [AddRace.run, Function.comp_def, AddCall.entry]
    · have hnone : ∀ x : Nat × D, AddCall.landed? ⟨x.1, x.2, .start⟩ = none := fun _ => rfl
      simp [AddRace.run, hnone]
    · intro i call hcall
      obtain ⟨x, -, rfl⟩ : ∃ x, adds[i]? = some x ∧ (⟨x.1, x.2, .start⟩ : AddCall D) = call := by
        simpa [AddRace.run] using hcall
      simp [Turn.Admits, hturn]
    · intro i hi
      simp [hturn] at hi
    · intro i call hcall
      obtain ⟨x, -, rfl⟩ : ∃ x, adds[i]? = some x ∧ (⟨x.1, x.2, .start⟩ : AddCall D) = call := by
        simpa [AddRace.run] using hcall
      by_cases hfinished : turn = .finished <;> simp [Turn.left, hfinished]
  | append_singleton schedule i ih =>
    obtain ⟨turn', landed, h⟩ := ih
    rw [run_concat]
    exact h.act hslot hmeets i

/-- **Every call returns**: no later than after seven steps of its own. -/
theorem Sound.returned (h : Sound t w slot start adds schedule r turn landed)
    (hschedule : ∀ i < adds.length, 7 ≤ schedule.count i) : r.Returned := by
  intro call hcall
  obtain ⟨i, hi⟩ := List.getElem?_of_mem hcall
  have hlt := (List.getElem?_eq_some_iff.mp hi).1
  have hlength : r.calls.length = adds.length := by
    rw [← h.entries, List.length_map]
  have hleft := h.left i call hi
  have hcount := hschedule i (hlength ▸ hlt)
  have hzero : turn.left t.fresh call.stage = 0 := by omega
  exact Turn.eq_done_of_left_eq_zero hzero

/-- When all calls have returned, the slot is through with its change, and everything has been added. -/
theorem Sound.finished (h : Sound t w slot start adds schedule r turn landed) (hreturned : r.Returned)
    (hne : adds ≠ []) : turn = .finished ∧ landed.Perm adds := by
  have hdone : ∀ (i : Nat) (call : AddCall D), r.calls[i]? = some call → call.stage = .done :=
    fun i call hcall => hreturned call (List.mem_of_getElem? hcall)
  constructor
  · have hcalls : r.calls ≠ [] := by
      intro hnil
      rw [← h.entries, hnil] at hne
      exact hne rfl
    obtain ⟨call, hcall⟩ := List.exists_mem_of_ne_nil _ hcalls
    obtain ⟨i, hi⟩ := List.getElem?_of_mem hcall
    have hadmitted := h.admitted i call hi
    rw [hdone i call hi] at hadmitted
    cases hturn : turn with
    | finished => rfl
    | pending => exact absurd hturn hadmitted.2
    | published j | scheduled j | emptied j =>
      -- whoever is at the change has not returned
      have howner : turn.owner? = some j := by rw [hturn]; rfl
      have hj := List.getElem?_eq_getElem (h.owner j howner)
      have hstage := h.admitted j _ hj
      rw [hdone j _ hj] at hstage
      exact absurd howner hstage.1
  · have hall : r.calls.filterMap AddCall.landed? = r.calls.map AddCall.entry := by
      rw [← List.filterMap_eq_map]
      refine List.filterMap_congr fun call hcall => ?_
      simp [AddCall.landed?, hreturned call hcall, AddStage.hasLanded]
    rw [← h.entries, ← hall]
    exact h.landed

end AddRace

/-! ### The same additions in a row -/

namespace Turnover

variable {t : Turnover A} {turn : Turn} {now : Nat}

/-- An addition that is not raced changes the phases at once. -/
theorem add_eq (hcovers : t.Covers now) (hturn : turn.owner? = none) (value : A) (delta : D) :
    ((t.chunk value turn).add delta now t.next).value = t.chunk (Accumulator.add value delta) .finished := by
  obtain ⟨fresh, stale, next⟩ := t
  cases turn with
  | pending =>
    have hexpired : ((⟨fresh, stale, next⟩ : Turnover A).chunk value .pending).phase.invalidation ≤ now := by
      cases fresh <;> exact hcovers.expired
    rw [Chunk.add_of_le hexpired]
    cases fresh <;> rfl
  | finished =>
    have hrunning : now < ((⟨fresh, stale, next⟩ : Turnover A).chunk value .finished).phase.invalidation := by
      cases fresh <;> exact hcovers.running
    rw [Chunk.add_of_lt hrunning]
    cases fresh <;> rfl
  | published | scheduled | emptied => simp [Turn.owner?] at hturn

end Turnover

namespace RollingWindow

variable {t : Turnover A} {w : RollingWindow A} {slot : Nat}

theorem add_setChunk {now : Nat} (chunk : Chunk A) (hslot : slot < w.slots) (hmeets : t.Meets w slot now)
    (delta : D) :
    ((w.setChunk slot chunk).add delta now).value =
      w.setChunk slot (chunk.add delta now t.next).value := by
  have hchunk : (w.setChunk slot chunk).chunks[slot]? = some chunk := getElem?_setChunk_self hslot
  unfold add
  rw [slotOf_setChunk, expiryOf_setChunk, hmeets.slot_eq, hmeets.expiry_eq, hchunk]
  exact setChunk_setChunk w slot chunk _

theorem addAll_setChunk {start : A} {adds : List (Nat × D)} (hslot : slot < w.slots)
    (hmeets : ∀ x ∈ adds, t.Meets w slot x.1) :
    (w.setChunk slot (t.chunk start .finished)).addAll adds =
      w.setChunk slot (t.chunk (landAll start adds) .finished) := by
  induction adds using List.reverseRecOn with
  | nil => rfl
  | append_singleton adds x ih =>
    have hx := hmeets x (by simp)
    rw [addAll_concat, ih fun y hy => hmeets y (by simp [hy]), add_setChunk _ hslot hx,
      Turnover.add_eq hx.covers rfl, landAll_concat]

/-- **Additions in a row** leave the slot through with its change. -/
theorem addAll_eq_setChunk {start : A} {turn : Turn} {adds : List (Nat × D)} (hslot : slot < w.slots)
    (hmeets : ∀ x ∈ adds, t.Meets w slot x.1) (hchunk : w.chunks[slot]? = some (t.chunk start turn))
    (hturn : turn.owner? = none) (hne : adds ≠ []) :
    w.addAll adds = w.setChunk slot (t.chunk (landAll start adds) .finished) := by
  cases adds with
  | nil => exact absurd rfl hne
  | cons x adds =>
    have hx := hmeets x List.mem_cons_self
    have hfirst : (w.add x.2 x.1).value =
        w.setChunk slot (t.chunk (Accumulator.add start x.2) .finished) := by
      have hadd := add_setChunk (t.chunk start turn) hslot hx x.2
      rw [setChunk_self hchunk, Turnover.add_eq hx.covers hturn] at hadd
      exact hadd
    show (w.add x.2 x.1).value.addAll adds = _
    rw [hfirst, addAll_setChunk hslot fun y hy => hmeets y (List.mem_cons_of_mem _ hy)]
    rfl

end RollingWindow

/-! ### Slots of reachable windows -/

/-- A slot that is not ahead of an interval is ready to change for it, or has. -/
theorem Chunk.Owned.exists_turnover {chunk : Chunk A} {creation interval n j k k' : Nat} {total : Nat → A}
    (h : chunk.Owned creation interval (n + 1) total k' (k % (n + 1)) j) (hk : k' ≤ k)
    (hbound : startOf creation interval (k + n + 1) ≤ dormant - 1) :
    ∃ (t : Turnover A) (turn : Turn), chunk = t.chunk (total k) turn ∧ turn.owner? = none ∧
      t.next = boundary creation (k + (n + 1)) interval ∧
      ∀ now, RunsAt creation interval k now → t.Covers now := by
  have hphases : Twin.pair chunk.current chunk.phase ⟨Accumulator.zero, dormant⟩ = chunk.phases := by
    rw [← h.spare]
    exact chunk.phases.pair_get chunk.current
  have hnext : startOf creation interval (k + 1) ≤ boundary creation (k + (n + 1)) interval := by
    rw [boundary_eq_startOf (by rwa [← Nat.add_assoc])]
    exact startOf_mono (by omega)
  have hrunning : ∀ now, RunsAt creation interval k now → now < boundary creation (k + (n + 1)) interval :=
    fun now hnow => Nat.lt_of_lt_of_le hnow.lt_end hnext
  have hscheduled := boundary_lt_dormant creation (k + (n + 1)) interval
  rcases Nat.lt_or_eq_of_le (h.owner_le hk rfl) with hlt | rfl
  · -- the slot is late
    refine ⟨⟨chunk.current.other, chunk.phase, boundary creation (k + (n + 1)) interval⟩, .pending, ?_, rfl,
      rfl, fun now hnow => ⟨?_, hrunning now hnow, hscheduled⟩⟩
    · show chunk = ⟨.pair chunk.current.other ⟨total k, dormant⟩ chunk.phase, chunk.current.other.other⟩
      rw [h.missed k hlt rfl, Twin.pair_other, Side.other_other, hphases]
    · exact (h.expires_of_lt hlt rfl).trans hnow.start_le
  · refine ⟨⟨chunk.current, ⟨Accumulator.zero, 0⟩, boundary creation (j + (n + 1)) interval⟩, .finished, ?_,
      rfl, rfl, fun now hnow => ⟨Nat.zero_le _, hrunning now hnow, hscheduled⟩⟩
    show chunk = ⟨.pair chunk.current ⟨total j, boundary creation (j + (n + 1)) interval⟩ _, chunk.current⟩
    rw [← h.current, hphases]

theorem RollingWindow.Holds.exists_meets {w : RollingWindow A} {creation interval n k k' : Nat}
    {total : Nat → A} (h : w.Holds creation interval n total k') (hk : k' ≤ k)
    (hbound : startOf creation interval (k + n + 1) ≤ dormant - 1) :
    ∃ (t : Turnover A) (turn : Turn), w.chunks[k % (n + 1)]? = some (t.chunk (total k) turn) ∧
      turn.owner? = none ∧ t.next = boundary creation (k + (n + 1)) interval ∧
      ∀ now, RunsAt creation interval k now → t.Meets w (k % (n + 1)) now := by
  obtain ⟨chunk, j, hchunk, howned⟩ := h.slot_mod k
  obtain ⟨t, turn, rfl, hturn, hnext, hcovers⟩ := howned.exists_turnover hk hbound
  refine ⟨t, turn, hchunk, hturn, hnext, fun now hnow => ⟨hcovers now hnow, ?_, ?_⟩⟩
  · unfold slotOf intervalOf
    rw [h.creation_eq, h.interval_eq, h.slots_eq, hnow.index_eq]
  · unfold expiryOf intervalOf
    rw [h.creation_eq, h.interval_eq, h.slots_eq, hnow.index_eq, hnext]

/-! ### Races -/

namespace AddRace

variable {w : RollingWindow A} {creation interval n k k' : Nat} {total : Nat → A} {adds : List (Nat × D)}

/-- Calls return, and then the slot has changed its phases if it had to, and holds everything that was
added; so it does after additions in a row. -/
theorem exists_turnover (hholds : w.Holds creation interval n total k') (hk : k' ≤ k)
    (hbound : startOf creation interval (k + n + 1) ≤ dormant - 1)
    (hadds : ∀ x ∈ adds, RunsAt creation interval k x.1) (schedule : List Nat) :
    ∃ t : Turnover A, t.next = boundary creation (k + (n + 1)) interval ∧
      ((∀ i < adds.length, 7 ≤ schedule.count i) → (run w adds schedule).Returned) ∧
      ((run w adds schedule).Returned → adds ≠ [] → ∃ order, order.Perm adds ∧
        (run w adds schedule).window =
          w.setChunk (k % (n + 1)) (t.chunk (landAll (total k) order) .finished)) ∧
      ∀ order, order.Perm adds → adds ≠ [] →
        w.addAll order = w.setChunk (k % (n + 1)) (t.chunk (landAll (total k) order) .finished) := by
  obtain ⟨t, turn, hchunk, hturn, hnext, hmeets⟩ := hholds.exists_meets hk hbound
  have hslot : k % (n + 1) < w.slots := by
    rw [hholds.slots_eq]
    exact Nat.mod_lt k (Nat.succ_pos n)
  have hall : ∀ x ∈ adds, t.Meets w (k % (n + 1)) x.1 := fun x hx => hmeets x.1 (hadds x hx)
  obtain ⟨turn', landed, hsound⟩ := Sound.run hslot hall hchunk hturn schedule
  refine ⟨t, hnext, hsound.returned, fun hreturned hne => ?_, fun order hperm hne => ?_⟩
  · obtain ⟨rfl, hperm⟩ := hsound.finished hreturned hne
    exact ⟨landed, hperm, hsound.window⟩
  · refine RollingWindow.addAll_eq_setChunk hslot (fun x hx => hall x (hperm.mem_iff.mp hx)) hchunk hturn ?_
    intro hnil
    exact hne (List.perm_nil.mp (hnil ▸ hperm.symm))

theorem run_nil (w : RollingWindow A) (schedule : List Nat) :
    run w ([] : List (Nat × D)) schedule = ⟨w, []⟩ := by
  induction schedule using List.reverseRecOn with
  | nil => rfl
  | append_singleton schedule i ih =>
    rw [run_concat, ih]
    rfl

/-- **A race is a series of additions.**  When all calls have returned that added to a window in one
interval, the window is as after the same additions made in some order, one after the other. -/
theorem exists_order (hholds : w.Holds creation interval n total k') (hk : k' ≤ k)
    (hbound : startOf creation interval (k + n + 1) ≤ dormant - 1)
    (hadds : ∀ x ∈ adds, RunsAt creation interval k x.1) {schedule : List Nat}
    (hreturned : (run w adds schedule).Returned) :
    ∃ order, order.Perm adds ∧ (run w adds schedule).window = w.addAll order := by
  by_cases hne : adds = []
  · subst hne
    exact ⟨[], .nil, by rw [run_nil]; rfl⟩
  · obtain ⟨t, -, -, hwindow, hinRow⟩ := exists_turnover hholds hk hbound hadds schedule
    obtain ⟨order, hperm, hrun⟩ := hwindow hreturned hne
    exact ⟨order, hperm, hrun.trans (hinRow order hperm hne).symm⟩

/-! ### Counters -/

theorem landAll_eq_sum (start : Int64) (adds : List (Nat × Int64)) :
    landAll start adds = start + (adds.map (·.2)).sum := by
  induction adds generalizing start with
  | nil => simp [landAll]
  | cons x adds ih =>
    show landAll (start + x.2) adds = _
    rw [ih, List.map_cons, List.sum_cons, Int64.add_assoc]

/-- Sums do not depend on the order. -/
theorem landAll_perm {order adds : List (Nat × Int64)} (h : order.Perm adds) (start : Int64) :
    landAll start order = landAll start adds := by
  refine h.foldl_eq' (fun x _ y _ sum => ?_) start
  show sum + x.2 + y.2 = sum + y.2 + x.2
  rw [Int64.add_assoc, Int64.add_comm x.2, ← Int64.add_assoc]

/-- **Racing additions lose nothing.**  Whatever was added to a counter's window before, let any threads add
to it at later instants of one interval, their steps taken in any order.  Each call returns, after seven
steps of its own at the latest.  When all have returned,
* the slot of the interval holds what it held for that interval and every delta once, and its other phase is
  dormant and empty;
* the other slots are as they were;
* the window is as after the same additions one after the other. -/
theorem racing_adds (n : Nat) {interval creation k : Nat} (hi : 0 < interval)
    (writes adds : List (Nat × Int64)) (schedule : List Nat)
    (hclock : (creation :: writes.map (·.1)).Pairwise (· ≤ ·))
    (hadds : ∀ x ∈ adds, intervalIndex creation interval x.1 = k ∧
      ∀ past ∈ creation :: writes.map (·.1), past ≤ x.1)
    (hbound : startOf creation interval (k + n + 1) ≤ dormant - 1) :
    let w := (RollingWindow.create n interval creation : RollingWindow Int64).addAll writes
    let r := run w adds schedule
    ((∀ i < adds.length, 7 ≤ schedule.count i) → r.Returned) ∧
      (r.Returned →
        (adds ≠ [] → ∃ chunk, r.window.chunks[k % (n + 1)]? = some chunk ∧
          chunk.phase = ⟨collected Int64 creation interval writes k + (adds.map (·.2)).sum,
            boundary creation (k + n + 1) interval⟩ ∧
          chunk.phases.get chunk.current.other = ⟨0, dormant⟩) ∧
        (∀ slot, slot ≠ k % (n + 1) → r.window.chunks[slot]? = w.chunks[slot]?) ∧
        r.window = w.addAll adds) := by
  intro w r
  cases adds with
  | nil =>
    have hr : r = ⟨w, []⟩ := run_nil w schedule
    refine ⟨fun _ call hcall => ?_, fun _ => ⟨fun hne => absurd rfl hne, fun _ _ => ?_, ?_⟩⟩
    · rw [hr] at hcall
      exact absurd hcall List.not_mem_nil
    · rw [hr]
    · rw [hr]
      rfl
  | cons x adds =>
    obtain ⟨hx, hlater⟩ := hadds x List.mem_cons_self
    have hholds : w.Holds creation interval n (collected Int64 creation interval writes) k := by
      refine hx ▸ RollingWindow.holds_addAll n hi writes ?_ (hx.symm ▸ hbound)
      exact List.pairwise_append.mpr ⟨hclock, List.pairwise_singleton _ _, fun past hpast now hnow =>
        List.mem_singleton.mp hnow ▸ hlater past hpast⟩
    have hruns : ∀ y ∈ x :: adds, RunsAt creation interval k y.1 := fun y hy =>
      (hadds y hy).1 ▸ runsAt_intervalIndex hi ((hadds y hy).2 creation List.mem_cons_self)
    obtain ⟨t, hnext, hreturns, hwindow, hinRow⟩ :=
      exists_turnover hholds (Nat.le_refl k) hbound hruns schedule
    have hslot : k % (n + 1) < w.slots := by
      rw [hholds.slots_eq]
      exact Nat.mod_lt k (Nat.succ_pos n)
    refine ⟨hreturns, fun hreturned => ?_⟩
    obtain ⟨order, hperm, hrun⟩ := hwindow hreturned (List.cons_ne_nil x adds)
    rw [landAll_perm hperm] at hrun
    refine ⟨fun _ => ⟨t.chunk (landAll (collected Int64 creation interval writes k) (x :: adds)) .finished,
      ?_, ?_, t.spare_finished _⟩, fun slot hne => ?_, ?_⟩
    · rw [hrun]
      exact RollingWindow.getElem?_setChunk_self hslot
    · rw [t.phase_finished, landAll_eq_sum, hnext]
      rfl
    · rw [hrun]
      exact RollingWindow.getElem?_setChunk_of_ne hne
    · rw [hrun, hinRow _ (List.Perm.refl _) (List.cons_ne_nil x adds)]

/-- Two calls find the slot late, of which one changes its phases; a third has looked at it before, and
finds the old phase dormant. -/
theorem racing_adds_late :
    let writes : List (Nat × Int64) := [(5, 100), (25, 8)]
    let adds : List (Nat × Int64) := [(31, 1), (35, 2), (32, 4)]
    let schedule := [2, 0, 0, 0, 1, 1, 1, 1, 0, 1, 1, 1, 2, 2, 2, 2, 2, 2, 0, 0, 0]
    let r := run ((RollingWindow.create 2 10 0 : RollingWindow Int64).addAll writes) adds schedule
    (0 < 10 ∧ (0 :: writes.map (·.1)).Pairwise (· ≤ ·) ∧
      (∀ x ∈ adds, intervalIndex 0 10 x.1 = 3 ∧ ∀ past ∈ 0 :: writes.map (·.1), past ≤ x.1) ∧
      startOf 0 10 (3 + 2 + 1) ≤ dormant - 1) ∧
      r.Returned ∧ ∃ chunk, r.window.chunks[0]? = some chunk ∧ chunk.phase = ⟨7, 60⟩ ∧
        chunk.phases.get chunk.current.other = ⟨0, dormant⟩ := by
  have hclock : (0 :: ([(5, 100), (25, 8)] : List (Nat × Int64)).map (·.1)).Pairwise (· ≤ ·) := by decide
  have hadds : ∀ x ∈ ([(31, 1), (35, 2), (32, 4)] : List (Nat × Int64)), intervalIndex 0 10 x.1 = 3 ∧
      ∀ past ∈ 0 :: ([(5, 100), (25, 8)] : List (Nat × Int64)).map (·.1), past ≤ x.1 := by
    decide
  have hbound : startOf 0 10 (3 + 2 + 1) ≤ dormant - 1 := by decide
  have hvalue : (⟨collected Int64 0 10 [(5, 100), (25, 8)] 3 +
      (([(31, 1), (35, 2), (32, 4)] : List (Nat × Int64)).map (·.2)).sum, boundary 0 (3 + 2 + 1) 10⟩ :
      ChunkPhase Int64) = ⟨7, 60⟩ := by decide +kernel
  have hrace := racing_adds 2 (by decide) [(5, 100), (25, 8)] [(31, 1), (35, 2), (32, 4)]
    [2, 0, 0, 0, 1, 1, 1, 1, 0, 1, 1, 1, 2, 2, 2, 2, 2, 2, 0, 0, 0] hclock hadds hbound
  have hreturned := hrace.1 (by decide)
  obtain ⟨chunk, hchunk, hphase, hspare⟩ := (hrace.2 hreturned).1 (List.cons_ne_nil _ _)
  rw [hvalue] at hphase
  dsimp only
  exact ⟨⟨by decide, hclock, hadds, hbound⟩, hreturned, chunk, hchunk, hphase, hspare⟩

end AddRace

end WindowedMetrics
