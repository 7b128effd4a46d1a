import WindowedMetrics.Proofs.Actor.Custody

/-!
# What the slots hold

Every slot of the pool holds a content, whatever threads and the actions they run do (`Ledger.Filled`,
`Crew.filled_run`).  So what an action fills into a slot it has taken is what it queues
(`Ledger.Sound.deeds_submit`).
-/

namespace WindowedMetrics

variable {S A : Type} [Action S A]

namespace Ledger

omit [Action S A] in
/-- Each slot of the pool holds a content. -/
def Filled (w : Ledger S A) : Prop := w.actor.contents.size = w.actor.pool.size

/-! ### Steps of an action -/

omit [Action S A] in
theorem size_contents_discard (w : Ledger S A) (x : Numbered A) :
    (w.discard x).actor.contents.size = w.actor.contents.size := by
  obtain ⟨n, i | a⟩ := x <;> rfl

theorem size_contents_acquire (w : Ledger S A) :
    w.acquire.2.actor.contents.size = w.actor.contents.size := by
  cases hpop : w.actor.pool.popFree with
  | none => rw [acquire_of_popFree_none hpop]
  | some taken => rw [acquire_of_popFree hpop]

theorem size_contents_stepScript (w : Ledger S A) (script : Script S A) (held : List (Numbered A)) :
    (w.stepScript script held).2.2.actor.contents.size = w.actor.contents.size := by
  cases script with
  | done =>
    cases held with
    | nil => rfl
    | cons x held => exact w.size_contents_discard x
  | edit | inspect => rfl
  | acquire => exact w.size_contents_acquire
  | submit place a next =>
    rcases hx : held[place]? with _ | ⟨n, i | content⟩ <;> simp only [stepScript, hx]
    · exact Array.size_setIfInBounds
    · rfl
  | discard place next =>
    cases hx : held[place]? with
    | none => simp only [stepScript, hx]
    | some x =>
      simp only [stepScript, hx]
      exact w.size_contents_discard x

theorem Filled.stepScript {w : Ledger S A} (h : w.Filled) (script : Script S A) (held : List (Numbered A)) :
    (w.stepScript script held).2.2.Filled :=
  (w.size_contents_stepScript script held).trans
    (h.trans (of_frame_eq (w.frame_stepScript script held)).1.symm)

namespace Sound

variable {w : Ledger S A} {m : Moment A}

/-- What an action has taken it queues with the content that it fills in. -/
theorem deeds_submit {held outer : List (Numbered A)} {place n i : Nat} (h : w.Sound m)
    (hm : m.held = held ++ outer) (hfilled : w.Filled) (hx : held[place]? = some ⟨n, .slot i⟩) (a : A) :
    ((w.setContent i a).schedule n i).deeds = w.deeds ++ [.queued n a] := by
  have hi : i < w.actor.contents.size := by
    rw [hfilled]
    exact (h.of_getElem? hm hx).owned.lt_size (List.mem_append_right _ List.mem_cons_self)
  show w.deeds ++ [.queued n ((w.actor.setContent i a).content i)] = _
  rw [Actor.content_setContent_self a hi]

end Sound

end Ledger

/-! ### Steps of threads -/

theorem Client.size_contents_act (c : Client S A) {request : Request S A} (hrequest : request.isServed = true) :
    (c.act request).ledger.actor.contents.size = c.ledger.actor.contents.size := by
  cases request with
  | take => exact c.ledger.size_contents_acquire
  | fill place a =>
    unfold act
    dsimp only
    rcases c.held[place]? with _ | ⟨n, i | b⟩
    · rfl
    · exact Array.size_setIfInBounds
    · rfl
  | drop place =>
    unfold act
    dsimp only
    cases c.held[place]? with
    | none => rfl
    | some x => exact c.ledger.size_contents_discard x
  | edit change =>
    unfold act
    dsimp only
    split <;> rfl
  | submit | enter | leave => cases hrequest

theorem Task.size_contents_step (w : Ledger S A) (task : Task S A) :
    (task.step w).2.actor.contents.size = w.actor.contents.size := by
  cases task with
  | take aim n => cases hq : w.actor.pool.takeQueue <;> simp only [Task.step, hq]
  | run aim n cursor => cases cursor <;> rfl
  | slot aim n next i spent script held =>
    cases hover : script.isOver held with
    | true =>
      simp only [Task.step, hover]
      exact Array.size_setIfInBounds
    | false =>
      rw [Task.step_slot w aim n next i spent hover]
      exact w.size_contents_stepScript script held
  | test aim n => cases aim <;> rfl
  | begin | access | unlock => rfl
  | overflow script held =>
    cases hover : script.isOver held with
    | true =>
      simp only [Task.step, hover]
      rfl
    | false =>
      rw [Task.step_overflow w hover]
      exact w.size_contents_stepScript script held

namespace Crew

variable {c d : Crew S A} {i : Nat}

theorem filled_turn {move : Move S A} (h : c.ledger.Filled) (hturn : c.Turn i move d) : d.ledger.Filled := by
  cases hturn with
  | stay | giveWay | grab | grabWaiting | grabEntering | report | turnAway | lookAgain | unlock | count | enter
  | leave => exact h
  | work task _ _ hbusy =>
    rw [work_of_isBusy c i hbusy]
    exact (task.size_contents_step c.ledger).trans
      (h.trans (Ledger.of_frame_eq (c.ledger.frame_step task)).1.symm)
  | serve request hrequest =>
    have hframe := (Client.frame_act ⟨c.ledger, c.held⟩ hrequest).1
    exact (Client.size_contents_act ⟨c.ledger, c.held⟩ hrequest).trans
      (h.trans (Ledger.of_frame_eq hframe).1.symm)
  | submit | submitInside => exact h.trans (SlotPool.size_setLink ..).symm

/-- Each slot holds a content, after any moves of any threads. -/
theorem filled_run {state : S} {poolSize batchSize : Nat} {x : Actor S A}
    (h : Actor.create state poolSize batchSize = .ok x) (threads : Nat) (moves : List (Nat × Move S A)) :
    (run x threads moves).ledger.Filled := by
  induction moves using List.reverseRecOn with
  | nil =>
    obtain rfl := Actor.eq_of_create h
    exact Array.size_replicate.trans Array.size_ofFn.symm
  | append_singleton moves move ih =>
    rw [run_concat]
    exact filled_turn ih (turn_act _ _ _)

end Crew

end WindowedMetrics
