import Mathlib.Logic.Function.Iterate
import WindowedMetrics.Proofs.Actor.Holder

/-!
# Rounds

A drain takes the whole queue, runs it, and takes what was queued meanwhile.  `Ledger.round` is one such round,
`Ledger.rounds` any number of them, limits aside.

* `Ledger.Sound.round`: a round runs each slot of the queue once, and what the actions in them do adds none.
* A round runs at most as many actions as the pool has slots, so a drain exceeds its limit by less than that
  (`Ledger.Drained`).
* `Ledger.Drained.release_or`: the drain of a submission leaves an empty queue behind, or counts as capped.
-/

namespace WindowedMetrics

open Deed

variable {S A : Type} [Action S A]

namespace Ledger

/-! ### Scripts, step by step -/

theorem runScript_step (w : Ledger S A) (script : Script S A) (held : List (Numbered A)) :
    runScript (w.stepScript script held).1 (w.stepScript script held).2.1 (w.stepScript script held).2.2 =
      runScript script held w := by
  cases script with
  | done => cases held <;> rfl
  | edit | inspect | acquire => rfl
  | submit place a next =>
    rcases hx : held[place]? with _ | ⟨n, i | content⟩ <;> simp only [stepScript, runScript, hx]
  | discard place next => cases hx : held[place]? <;> simp only [stepScript, runScript, hx]

/-- The steps of a script come to an end, whatever happens to the ledger in between. -/
theorem induction_script {P : Script S A → List (Numbered A) → Prop} (hover : P .done [])
    (hstep : ∀ script held, script.isOver held = false →
      (∀ w : Ledger S A, P (w.stepScript script held).1 (w.stepScript script held).2.1) → P script held)
    (script : Script S A) (held : List (Numbered A)) : P script held := by
  induction script generalizing held with
  | done =>
    induction held with
    | nil => exact hover
    | cons x held ih => exact hstep .done (x :: held) rfl fun _ => ih
  | edit change next ih => exact hstep (.edit change next) held rfl fun _ => ih held
  | inspect next ih => exact hstep (.inspect next) held rfl fun _ => ih _ held
  | acquire next ih => exact hstep (.acquire next) held rfl fun _ => ih _ _
  | submit place a next ih =>
    refine hstep (.submit place a next) held rfl fun w => ?_
    rcases hx : held[place]? with _ | ⟨n, i | content⟩ <;> simp only [stepScript, hx] <;> exact ih _
  | discard place next ih =>
    refine hstep (.discard place next) held rfl fun w => ?_
    cases hx : held[place]? <;> simp only [stepScript, hx] <;> exact ih _

/-- The steps of a script, one after the other. -/
theorem induction_stepScript {P : Script S A → List (Numbered A) → Ledger S A → Prop}
    (hover : ∀ w, P .done [] w)
    (hstep : ∀ script held w, script.isOver held = false →
      P (w.stepScript script held).1 (w.stepScript script held).2.1 (w.stepScript script held).2.2 →
      P script held w)
    (script : Script S A) (held : List (Numbered A)) (w : Ledger S A) : P script held w := by
  refine induction_script (P := fun script held => ∀ w, P script held w) hover ?_ script held w
  exact fun script held hnot ih w => hstep script held w hnot (ih w _)

/-- What no step of an action changes is the same after the action. -/
theorem eq_runScript {α : Type} {f : Ledger S A → α}
    (hstep : ∀ w script held, f (w.stepScript script held).2.2 = f w) (script : Script S A)
    (held : List (Numbered A)) (w : Ledger S A) : f (w.runScript script held) = f w := by
  refine induction_stepScript (P := fun script held w => f (w.runScript script held) = f w) ?_ ?_ script held w
  · exact fun w => rfl
  · intro script held w _ ih
    rw [runScript_step] at ih
    exact ih.trans (hstep w script held)

/-! ### Actions that are run -/

/-- An action that goes on does not run another one. -/
theorem ranIn_stepScript (w : Ledger S A) (script : Script S A) (held : List (Numbered A)) :
    ranIn (w.stepScript script held).2.2.deeds = ranIn w.deeds := by
  have hnote : ∀ (v : Ledger S A) (d : Deed A), d.ran? = none → ranIn (v.note d).deeds = ranIn v.deeds := by
    intro v d hd
    simp [note, hd]
  have hdiscard : ∀ x : Numbered A, ranIn (w.discard x).deeds = ranIn w.deeds := fun x =>
    hnote { w with actor := w.actor.discard x.handle } (.dropped x.number) rfl
  cases script with
  | done =>
    cases held with
    | nil => rfl
    | cons x held => exact hdiscard x
  | edit | inspect | acquire => rfl
  | submit place a next =>
    rcases hx : held[place]? with _ | ⟨n, i | content⟩ <;> simp only [stepScript, hx]
    · exact hnote { w with actor := (w.actor.setContent i a).schedule i } _ rfl
    · exact hnote w _ rfl
  | discard place next =>
    cases hx : held[place]? with
    | none => simp only [stepScript, hx]
    | some x =>
      simp only [stepScript, hx]
      exact hdiscard x

theorem ranIn_runSlot (w : Ledger S A) (slot : Nat) :
    ranIn (w.runSlot slot).deeds = ranIn w.deeds ++ [w.entry slot] := by
  refine (eq_runScript (f := fun w => ranIn w.deeds) ranIn_stepScript (Action.script (w.actor.content slot)) []
    (w.note (.ran (w.owner slot) (w.actor.content slot)))).trans ?_
  simp [note, ran?, entry]

/-- Running slots runs one action for each of them. -/
theorem length_ranIn_runSlots_eq (w : Ledger S A) (slots : List Nat) :
    (ranIn (w.runSlots slots).deeds).length = (ranIn w.deeds).length + slots.length := by
  induction slots generalizing w with
  | nil => rfl
  | cons slot slots ih =>
    show (ranIn ((w.runSlot slot).runSlots slots).deeds).length = _
    rw [ih, ranIn_runSlot, List.length_append, List.length_singleton, List.length_cons]
    omega

theorem frame_runSlots (w : Ledger S A) (slots : List Nat) : (w.runSlots slots).frame = w.frame := by
  induction slots generalizing w with
  | nil => rfl
  | cons slot slots ih =>
    have hscript := eq_runScript (f := frame) frame_stepScript (Action.script (w.actor.content slot)) []
      (w.note (.ran (w.owner slot) (w.actor.content slot)))
    have hrecycle : (w.runSlot slot).frame = w.frame :=
      (congrArg (·, _) (SlotPool.size_setLink ..)).trans hscript
    exact (ih _).trans hrecycle

/-! ### Rounds -/

/-- Take the whole queue and run it. -/
def round (w : Ledger S A) : Ledger S A :=
  match w.actor.pool.takeQueue with
  | none => w
  | some (slots, pool) => runSlots { w with actor := { w.actor with pool } } slots

/-- So many rounds. -/
def rounds (w : Ledger S A) (n : Nat) : Ledger S A := round^[n] w

theorem rounds_succ (w : Ledger S A) (n : Nat) : w.rounds (n + 1) = w.round.rounds n := rfl

theorem rounds_add (w : Ledger S A) (m n : Nat) : w.rounds (m + n) = (w.rounds m).rounds n := by
  unfold rounds
  rw [Nat.add_comm, Function.iterate_add_apply]

theorem round_of_takeQueue_none {w : Ledger S A} (h : w.actor.pool.takeQueue = none) : w.round = w := by
  unfold round
  rw [h]

theorem round_of_takeQueue_some {w : Ledger S A} {slots : List Nat} {pool : SlotPool}
    (h : w.actor.pool.takeQueue = some (slots, pool)) :
    w.round = runSlots { w with actor := { w.actor with pool } } slots := by
  unfold round
  rw [h]

theorem frame_round (w : Ledger S A) : w.round.frame = w.frame := by
  cases hq : w.actor.pool.takeQueue with
  | none => rw [round_of_takeQueue_none hq]
  | some taken =>
    obtain ⟨slots, pool⟩ := taken
    rw [round_of_takeQueue_some hq, frame_runSlots]
    obtain ⟨top, -, he⟩ := Option.map_eq_some_iff.mp hq
    cases he
    exact congrArg (·, _) (SlotPool.size_turn ..)

theorem frame_rounds (w : Ledger S A) (n : Nat) : (w.rounds n).frame = w.frame := by
  induction n generalizing w with
  | zero => rfl
  | succ n ih => exact (ih w.round).trans w.frame_round

/-- How a drain with a limit ends that had run `ran` actions before: after so many rounds, with so many actions
run in all. -/
structure Drained (w : Ledger S A) (limit ran rounds total : Nat) : Prop where
  ended : (w.rounds rounds).endDrain limit total = w.drain limit ran
  counted : (ranIn (w.rounds rounds).deeds).length + ran = (ranIn w.deeds).length + total
  bounded : ran ≤ limit - 1 → total ≤ limit - 1 + w.actor.pool.size
  stopped : (w.rounds rounds).actor.pool.queueEmpty = true ∨ limit ≤ total

/-! ### Drains -/

section Drains

variable {w : Ledger S A} {limit ran n total : Nat} {slots : List Nat} {pool : SlotPool}

theorem length_ranIn_round (hq : w.actor.pool.takeQueue = some (slots, pool)) :
    (ranIn w.round.deeds).length = (ranIn w.deeds).length + slots.length := by
  rw [round_of_takeQueue_some hq]
  exact length_ranIn_runSlots_eq _ slots

theorem Sound.round {held : List (Numbered A)} {waiting : Nat} (h : w.Sound { held, waiting, unbooked := ran }) :
    ∃ ran', w.round.Sound { held, waiting, unbooked := ran' } := by
  cases hq : w.actor.pool.takeQueue with
  | none => exact ⟨ran, (round_of_takeQueue_none hq).symm ▸ h⟩
  | some taken =>
    obtain ⟨slots, pool⟩ := taken
    rw [round_of_takeQueue_some hq]
    exact ⟨_, (h.takeQueue rfl hq).runSlots⟩

/-- The queue is never longer than the pool. -/
theorem Sound.length_takeQueue_le {m : Moment A} (h : w.Sound m)
    (hq : w.actor.pool.takeQueue = some (slots, pool)) : slots.length ≤ w.actor.pool.size := by
  obtain ⟨rfl, -, -, -⟩ := h.owned.takeQueue hq
  have hle := h.owned.length_le
  omega

theorem Drained.empty (hq : w.actor.pool.takeQueue = none) : w.Drained limit ran 0 ran where
  ended := (drain_of_takeQueue_none hq limit ran).symm
  counted := rfl
  bounded := fun hran => hran.trans (Nat.le_add_right ..)
  stopped := .inl ((SlotPool.takeQueue_eq_none_iff _).mp hq)

theorem Drained.last {m : Moment A} (h : w.Sound m) (hq : w.actor.pool.takeQueue = some (slots, pool))
    (hle : limit ≤ ran + slots.length) : w.Drained limit ran 1 (ran + slots.length) where
  ended := by
    rw [drain_of_takeQueue_some hq, ← round_of_takeQueue_some hq]
    exact (if_pos hle).symm
  counted := by
    rw [rounds_succ, rounds, Function.iterate_zero_apply, length_ranIn_round hq]
    omega
  bounded := fun hran => Nat.add_le_add hran (h.length_takeQueue_le hq)
  stopped := .inr hle

theorem Drained.more (hq : w.actor.pool.takeQueue = some (slots, pool)) (hlt : ¬ limit ≤ ran + slots.length)
    (h : w.round.Drained limit (ran + slots.length) n total) : w.Drained limit ran (n + 1) total where
  ended := by
    rw [rounds_succ, h.ended, drain_of_takeQueue_some hq, ← round_of_takeQueue_some hq]
    exact (if_neg hlt).symm
  counted := by
    have hcounted := h.counted
    rw [length_ranIn_round hq] at hcounted
    rw [rounds_succ]
    omega
  bounded := fun _ => (of_frame_eq w.frame_round).1 ▸ h.bounded (by omega)
  stopped := h.stopped

/-- Whether the drain was capped. -/
theorem Drained.capped_iff (h : w.Drained limit ran n total) :
    (w.drain limit ran).1 = true ↔ limit ≤ total ∧ (w.drain limit ran).2.actor.pool.queueEmpty = false := by
  rw [← h.ended]
  simp [endDrain, Actor.endDrain]

/-- A drain with its release of the lock leaves an empty queue behind, or counts as capped. -/
theorem Drained.release_or (h : w.Drained limit ran n total) :
    let v := (w.drain limit ran).2.release (w.drain limit ran).1
    (v.actor.pool.queueEmpty = true ∧ v.actor.capHits = w.actor.capHits) ∨
      (v.actor.pool.queueEmpty = false ∧ v.actor.capHits = w.actor.capHits + 1) := by
  have hhits : (w.drain limit ran).2.actor.capHits = w.actor.capHits := by
    rw [← h.ended]
    exact (of_frame_eq (w.frame_rounds n)).2.2
  have hempty := w.actor.queueEmpty_of_drain limit ran
  have hcapped := h.capped_iff
  rw [← Ledger.drain_eq] at hempty
  cases hout : (w.drain limit ran).1 with
  | false => exact .inl ⟨hempty hout, hhits⟩
  | true => exact .inr ⟨(hcapped.mp hout).2, congrArg (· + 1) hhits⟩

end Drains

end Ledger

end WindowedMetrics
