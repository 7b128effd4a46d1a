import WindowedMetrics.Actor.Pause

/-!
# What operations on an actor leave alone

* Filling a slot leaves the other slots alone.
* Only those who take the lock release it: neither the actions nor the drains that run them touch it,
  whether a drain runs to its end or is stopped.
-/

namespace WindowedMetrics

namespace Actor

variable {S A : Type} [Action S A]

/-! ### Contents -/

theorem content_setContent_of_ne (x : Actor S A) {i j : Nat} (a : A) (h : i ≠ j) :
    (x.setContent i a).content j = x.content j := by
  unfold content setContent
  rw [Array.getElem?_setIfInBounds_ne h]

theorem content_setContent_self {x : Actor S A} {i : Nat} (a : A) (h : i < x.contents.size) :
    (x.setContent i a).content i = a := by
  unfold content setContent
  rw [Array.getElem?_setIfInBounds_self_of_lt h]
  rfl

/-! ### The lock -/

omit [Action S A] in
theorem locked_discard (x : Actor S A) (h : Handle A) : (x.discard h).locked = x.locked := by
  cases h <;> rfl

/-- What an action does leaves the lock alone. -/
theorem locked_runScript (s : Script S A) (held : List (Handle A)) (x : Actor S A) :
    (runScript s held x).value.locked = x.locked := by
  induction s generalizing held x with
  | done =>
    show (held.foldl discard x).locked = x.locked
    induction held generalizing x with
    | nil => rfl
    | cons h held ih => exact (ih (x.discard h)).trans (locked_discard x h)
  | edit change next ih => exact ih held { x with state := change x.state }
  | inspect next ih => exact ih x.state held x
  | acquire next ih =>
    refine (ih _ (x.acquire.value.1 :: held) x.acquire.value.2).trans ?_
    unfold acquire
    cases x.pool.popFree <;> rfl
  | submit place a next ih =>
    unfold runScript
    rcases held[place]? with _ | i | content
    · exact ih _ x
    · exact ih _ ((x.setContent i a).schedule i)
    · exact ih _ x
  | discard place next ih =>
    unfold runScript
    cases held[place]? with
    | none => exact ih held x
    | some h => exact (ih _ (x.discard h)).trans (locked_discard x h)

theorem locked_runSlots (x : Actor S A) (slots : List Nat) :
    (x.runSlots slots).value.locked = x.locked := by
  induction slots generalizing x with
  | nil => rfl
  | cons slot slots ih =>
    refine (ih (x.runSlot slot).value).trans ?_
    exact locked_runScript (Action.script (x.content slot)) [] x

theorem locked_drain (x : Actor S A) (limit ran : Nat) : (x.drain limit ran).value.2.locked = x.locked := by
  induction hm : limit - ran using Nat.strongRecOn generalizing x ran with
  | _ m ih =>
    subst hm
    cases hq : x.pool.takeQueue with
    | none =>
      rw [drain_of_takeQueue_none hq]
      rfl
    | some taken =>
      obtain ⟨slots, pool⟩ := taken
      have hpos := List.length_pos_iff.2 (SlotPool.takeQueue_ne_nil hq)
      have hslots := locked_runSlots { x with pool } slots
      rw [drain_of_takeQueue_some hq]
      simp only [Logged.value_bind, drainRest, runSlots, Logged.value_pure]
      split
      · exact hslots
      · exact (ih _ (by omega) _ _ rfl).trans hslots

theorem locked_enter (x : Actor S A) : x.enter.value.locked = true :=
  locked_drain { x with locked := true } maxWord 0

theorem locked_runSlotsUntil (hold : S → A → Bool) (x : Actor S A) (slots : List Nat) :
    (x.runSlotsUntil hold slots).value.2.locked = x.locked := by
  induction slots generalizing x with
  | nil => rfl
  | cons slot slots ih =>
    unfold runSlotsUntil
    split
    · rfl
    · refine (ih (x.runSlot slot).value).trans ?_
      exact locked_runScript (Action.script (x.content slot)) [] x

theorem locked_drainUntil (hold : S → A → Bool) (x : Actor S A) (limit ran : Nat) :
    (x.drainUntil hold limit ran).value.2.locked = x.locked := by
  induction hm : limit - ran using Nat.strongRecOn generalizing x ran with
  | _ m ih =>
    subst hm
    rw [drainUntil]
    split
    · rfl
    · rename_i slots pool hq
      have hpos := List.length_pos_iff.2 (SlotPool.takeQueue_ne_nil hq)
      have hslots := locked_runSlotsUntil hold { x with pool } slots
      simp only [Logged.value_bind]
      split
      · exact hslots
      · split
        · exact hslots
        · exact (ih _ (by omega) _ _ rfl).trans hslots

end Actor

end WindowedMetrics
