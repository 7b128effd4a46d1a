import WindowedMetrics.Actor.Basic

/-!
# Idle actors

Between two calls of one thread nobody holds the lock of an actor, its queue is empty and a slot is free
(`Actor.Idle`).  What is sent to an idle actor has run when the call returns, and the actor is idle again
(`send_of_idle`); the same holds of exclusive access (`exclusively_of_idle`).
-/

namespace WindowedMetrics

/-! ### One slot in the queue -/

namespace SlotPool

/-- A slot put into an empty queue is all that is taken from it. -/
theorem takeQueue_enqueue {p : SlotPool} {slot : Nat} (hq : p.queueTop = none) (hs : slot < p.size) :
    (p.enqueue slot).takeQueue = some ([slot], p.setLink slot none) := by
  have hlink : (p.enqueue slot).link slot = none := (link_setLink_self p.queueTop hs).trans hq
  have hchain : ∀ fuel, (p.enqueue slot).chain fuel slot = [slot] := by
    intro fuel
    cases fuel with
    | zero => rfl
    | succ fuel => rw [chain, hlink]
  have hturn : ∀ fuel, (p.enqueue slot).turn fuel slot none = (p.enqueue slot).setLink slot none := by
    intro fuel
    cases fuel with
    | zero => rfl
    | succ fuel => rw [turn, hlink]
  have hpool : { (p.enqueue slot).setLink slot none with queueTop := none } = p.setLink slot none := by
    simp only [enqueue, setLink, Array.setIfInBounds_setIfInBounds, hq]
  show some (((p.enqueue slot).chain (p.enqueue slot).size slot).reverse,
    { (p.enqueue slot).turn (p.enqueue slot).size slot none with queueTop := none }) = _
  rw [hchain, hturn, hpool]
  rfl

@[simp] theorem size_pushFree (p : SlotPool) (slot : Nat) : (p.pushFree slot).size = p.size :=
  size_setLink p slot p.freeTop

end SlotPool

namespace Actor

variable {S A : Type} [Action S A]

/-! ### Drains -/

theorem drain_of_queueEmpty {x : Actor S A} (h : x.pool.queueTop = none) (limit ran : Nat) :
    (x.drain limit ran).value = (false, { x with executed := x.executed + ran }) := by
  have hnone : x.pool.takeQueue = none := by simp [SlotPool.takeQueue, h]
  rw [drain]
  split
  · simp [endDrain, SlotPool.queueEmpty, h]
  · rename_i hsome
    rw [hnone] at hsome
    exact absurd hsome (by simp)

/-- A drain ends after the first queue if running it queues nothing. -/
theorem drain_of_takeQueue {x : Actor S A} {slots : List Nat} {pool : SlotPool}
    (h : x.pool.takeQueue = some (slots, pool)) (limit ran : Nat)
    (hend : (runSlots { x with pool } slots).value.pool.queueTop = none) :
    ∃ executed, (x.drain limit ran).value =
      (false, { (runSlots { x with pool } slots).value with executed }) := by
  rw [drain]
  split
  · rename_i hnone
    rw [h] at hnone
    exact absurd hnone (by simp)
  · rename_i slots' pool' hsome
    obtain ⟨rfl, rfl⟩ : slots = slots' ∧ pool = pool' := by simpa using h.symm.trans hsome
    simp only [Logged.value_bind]
    split
    · refine ⟨(runSlots { x with pool } slots).value.executed + (ran + slots.length), ?_⟩
      simp [endDrain, SlotPool.queueEmpty, hend]
    · exact ⟨_, drain_of_queueEmpty hend _ _⟩

theorem runSlot_edit {x : Actor S A} {slot : Nat} {f : S → S}
    (h : Action.script (x.content slot) = .edit f .done) :
    (x.runSlot slot).value =
      (({ x with state := f x.state } : Actor S A).setContent slot
        (Action.spent (x.content slot))).discard (.slot slot) := by
  simp only [runSlot, h, Logged.value_bind, Logged.value_pure]
  rfl

/-! ### Idle actors -/

omit [Action S A] in
/-- Nobody holds the lock, nothing is queued, and the slot to be taken next is one of the actor's. -/
structure Idle (x : Actor S A) : Prop where
  unlocked : x.locked = false
  queue : x.pool.queueTop = none
  free : ∃ slot < x.pool.size, x.pool.freeTop = some slot
  slots : x.contents.size = x.pool.size

theorem idle_create {state : S} {poolSize batchSize : Nat} {x : Actor S A}
    (h : create state poolSize batchSize = .ok x) : x.Idle ∧ x.state = state := by
  unfold create at h
  split at h
  · exact absurd h (by simp)
  rename_i hpool
  split at h
  · exact absurd h (by simp)
  obtain rfl := Except.ok.inj h
  have hpos : poolSize ≠ 0 := fun h0 => hpool (Or.inl h0)
  have hsize : (SlotPool.fresh poolSize).size = poolSize := Array.size_ofFn
  refine ⟨⟨rfl, rfl, ⟨0, ?_, ?_⟩, ?_⟩, rfl⟩
  · rw [hsize]
    omega
  · simp [SlotPool.fresh, hpos]
  · rw [hsize]
    exact Array.size_replicate

theorem submit_slot {x : Actor S A} (hl : x.locked = false) (slot : Nat) :
    x.submit (.slot slot) = drainAndRelease { x.schedule slot with locked := true } := by
  have h : (x.schedule slot).locked = false := hl
  simp [submit, h]

/-- A slot submitted while nothing else is queued has run when the call returns. -/
theorem idle_submit_slot {x : Actor S A} (hl : x.locked = false) (hq : x.pool.queueTop = none)
    (hc : x.contents.size = x.pool.size) {slot : Nat} (hs : slot < x.pool.size) {f : S → S}
    (ha : Action.script (x.content slot) = .edit f .done) :
    (x.submit (.slot slot)).value.Idle ∧ (x.submit (.slot slot)).value.state = f x.state := by
  rw [submit_slot hl]
  obtain ⟨y, hy⟩ : ∃ y, y = { x.schedule slot with locked := true } := ⟨_, rfl⟩
  obtain ⟨p, hp⟩ : ∃ p, p = x.pool.setLink slot none := ⟨_, rfl⟩
  have htake : y.pool.takeQueue = some ([slot], p) := by
    rw [hy, hp]
    exact SlotPool.takeQueue_enqueue hq hs
  have hrun : (runSlots { y with pool := p } [slot]).value =
      (({ y with pool := p, state := f y.state } : Actor S A).setContent slot
        (Action.spent (x.content slot))).discard (.slot slot) := by
    have hcontent : ({ y with pool := p } : Actor S A).content slot = x.content slot := by
      rw [hy]
      rfl
    have hr := runSlot_edit (x := { y with pool := p }) (hcontent.symm ▸ ha)
    rw [hcontent] at hr
    simp only [runSlots, Logged.value_bind, Logged.value_pure, hr]
  obtain ⟨executed, hdrain⟩ := drain_of_takeQueue htake y.batchSize 0 (by
    rw [hrun, hp]
    exact hq)
  have hend : (drainAndRelease y).value =
      { (runSlots { y with pool := p } [slot]).value with executed, locked := false } := by
    simp only [drainAndRelease, Logged.value_bind, hdrain, release]
    rfl
  rw [← hy, hend, hrun]
  subst hy hp
  have hsize : ((x.pool.setLink slot none).pushFree slot).size = x.pool.size := by simp
  refine ⟨⟨rfl, hq, ⟨slot, ?_, rfl⟩, ?_⟩, rfl⟩
  · exact hsize.symm ▸ hs
  · exact Array.size_setIfInBounds.trans (hc.trans hsize.symm)

/-- **What is sent to an idle actor has run** when the call returns. -/
theorem send_of_idle {x : Actor S A} (h : x.Idle) {a : A} {f : S → S}
    (ha : Action.script a = .edit f .done) :
    (x.send a).value.Idle ∧ (x.send a).value.state = f x.state := by
  obtain ⟨slot, hslot, hfree⟩ := h.free
  have hpop : x.pool.popFree = some (slot, { x.pool with freeTop := x.pool.link slot }) := by
    simp [SlotPool.popFree, hfree]
  obtain ⟨y, hy⟩ : ∃ y : Actor S A,
      y = { x with pool := { x.pool with freeTop := x.pool.link slot } } := ⟨_, rfl⟩
  have hsend : (x.send a).value = ((y.setContent slot a).submit (.slot slot)).value := by
    simp only [send, acquire, hpop, Logged.value_bind, Logged.value_pure, fill, hy]
  have hsize : (y.setContent slot a).contents.size = y.pool.size := by
    rw [hy]
    exact Array.size_setIfInBounds.trans h.slots
  have hcontent : (y.setContent slot a).content slot = a := by
    have hlt : slot < y.contents.size := by rw [hy, h.slots]; exact hslot
    simp [content, setContent, hlt]
  rw [hsend]
  have hstate : f x.state = f (y.setContent slot a).state := by rw [hy]; rfl
  rw [hstate]
  refine idle_submit_slot ?_ ?_ hsize ?_ (hcontent.symm ▸ ha)
  · rw [hy]; exact h.unlocked
  · rw [hy]; exact h.queue
  · rw [hy]; exact hslot

/-- **Exclusive access** to an idle actor sees the state and leaves the actor idle. -/
theorem exclusively_of_idle {B : Type} {x : Actor S A} (h : x.Idle) (f : S → B × S) :
    (x.exclusively f).value.1 = (f x.state).1 ∧ (x.exclusively f).value.2.Idle ∧
      (x.exclusively f).value.2.state = (f x.state).2 := by
  have hdrain := drain_of_queueEmpty (x := { x with locked := true }) h.queue maxWord 0
  simp only [exclusively, enter, drainAll, Logged.value_bind, hdrain, Logged.value_pure]
  exact ⟨trivial, ⟨rfl, h.queue, h.free, h.slots⟩, trivial⟩

end Actor

end WindowedMetrics
