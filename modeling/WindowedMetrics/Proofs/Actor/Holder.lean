import WindowedMetrics.Proofs.Actor.Crew
import WindowedMetrics.Proofs.Actor.Service

/-!
# Steps under the lock

What a step of an action, and a step of the holder of the lock, does to an actor and its ledger.

* `Ledger.frame` is what they leave alone, `Ledger.link_stepScript` says that an action changes the links of
  slots it has taken and of no others.
* `Ledger.Sound.stepTask`: from the moment of a task they lead to the moment of the next one, and the slots
  still to be run stay linked in their order.
* `Ledger.entered_step` says what they submit.
-/

namespace WindowedMetrics

open Deed

variable {S A : Type}

/-! ### What threads have -/

/-- The overflow action that the holder of the lock has submitted and not begun on. -/
def Aim.pending : Aim A → List (Numbered A)
  | .overflow number content => [⟨number, .overflow content⟩]
  | .release _ | .access => []

namespace Task

/-- The overflow action that the holder of the lock has submitted and not begun on. -/
def pending : Task S A → List (Numbered A)
  | .take aim _ | .run aim _ _ | .slot aim _ _ _ _ _ _ | .test aim _ => aim.pending
  | .begin number content => [⟨number, .overflow content⟩]
  | .overflow _ _ | .access | .unlock _ => []

/-- The actions that the action being run has taken. -/
def held : Task S A → List (Numbered A)
  | .slot _ _ _ _ _ _ held | .overflow _ held => held
  | _ => []

/-- The next of the slots taken from the queue. -/
def cursor : Task S A → Option Nat
  | .run _ _ cursor => cursor
  | .slot _ _ next _ _ _ _ => next
  | _ => none

/-- The slot being run. -/
def running : Task S A → List Nat
  | .slot _ _ _ i _ _ _ => [i]
  | _ => []

/-- How many actions have run that do not count as executed. -/
def unbooked : Task S A → Nat
  | .take _ n | .run _ n _ | .slot _ n _ _ _ _ _ | .test _ n => n
  | .overflow _ _ => 1
  | .begin _ _ | .access | .unlock _ => 0

/-- Where the actions are, with the slots still to be run, the actions in the hands of threads, and how many of
them wait for the lock. -/
def moment (task : Task S A) (hand : List Nat) (hands : List (Numbered A)) (waiting : Nat) : Moment A where
  held := task.held ++ (task.pending ++ hands)
  hand := hand
  running := task.running
  waiting := waiting + task.pending.length
  unbooked := task.unbooked

end Task

/-- The numbers of the actions queued, and of those run as overflow actions. -/
def Ledger.entered (w : Ledger S A) : List Nat :=
  (queuedIn w.deeds ++ overflowsIn w.deeds).map Prod.fst

variable [Action S A]

/-! ### Steps of an action -/

namespace Ledger.Sound

variable {w : Ledger S A} {m : Moment A}

/-- A step of an action leaves what others hold alone. -/
theorem stepScript {script : Script S A} {held outer : List (Numbered A)} (h : w.Sound m)
    (hm : m.held = held ++ outer) :
    (w.stepScript script held).2.2.Sound { m with held := (w.stepScript script held).2.1 ++ outer } := by
  have hsame : w.Sound { m with held := held ++ outer } := hm ▸ h
  cases script with
  | done =>
    cases held with
    | nil => exact hsame
    | cons x held => exact h.discard hm
  | edit change next => exact hsame.of_actor rfl rfl rfl rfl
  | inspect next => exact hsame
  | acquire next => exact hsame.acquire
  | submit place a next =>
    cases hx : held[place]? with
    | none =>
      simp only [Ledger.stepScript, hx]
      rw [List.eraseIdx_of_length_le (List.getElem?_eq_none_iff.mp hx)]
      exact hsame
    | some x =>
      have hheld := h.of_getElem? hm hx
      obtain ⟨n, i | content⟩ := x <;> simp only [Ledger.stepScript, hx]
      · exact (hheld.setContent List.mem_cons_self a).schedule rfl
      · exact hheld.discard rfl
  | discard place next =>
    cases hx : held[place]? with
    | none =>
      simp only [Ledger.stepScript, hx]
      exact hsame
    | some x =>
      simp only [Ledger.stepScript, hx]
      exact (h.of_getElem? hm hx).discard rfl

/-- No action is submitted twice. -/
theorem nodup_entered (h : w.Sound m) : w.entered.Nodup := by
  have hparted := (List.nodup_append.mp h.accounted.nodup).2.1
  have hall := (partedIn_perm w.deeds).nodup_iff.mp hparted
  exact (List.nodup_append.mp hall).1

/-- What has been submitted has run, or its slot is still to be run. -/
theorem entered_perm (h : w.Sound m) :
    w.entered.Perm ((ranIn w.deeds ++ overflowsIn w.deeds).map Prod.fst ++
      (m.hand ++ w.actor.pool.queued).map w.owner) := by
  have howner : (m.hand ++ w.actor.pool.queued).map w.owner =
      ((m.hand ++ w.actor.pool.queued).map w.entry).map Prod.fst := by
    rw [List.map_map]
    rfl
  rw [howner, ← List.map_append, Ledger.entered, h.backlog]
  refine List.Perm.map _ ?_
  rw [List.append_assoc, List.append_assoc]
  exact List.perm_append_comm.append_left _

end Ledger.Sound

namespace Ledger

variable (w : Ledger S A)

/-! ### What a step leaves alone -/

omit [Action S A] in
/-- The size of the pool, the lock, and how often a drain was capped. -/
def frame (w : Ledger S A) : Nat × Bool × Nat := (w.actor.pool.size, w.actor.locked, w.actor.capHits)

omit [Action S A] in
theorem of_frame_eq {v w : Ledger S A} (h : v.frame = w.frame) :
    v.actor.pool.size = w.actor.pool.size ∧ v.actor.locked = w.actor.locked ∧
      v.actor.capHits = w.actor.capHits :=
  ⟨congrArg (·.1) h, congrArg (·.2.1) h, congrArg (·.2.2) h⟩

theorem frame_acquire : w.acquire.2.frame = w.frame := by
  cases hpop : w.actor.pool.popFree with
  | none =>
    rw [acquire_of_popFree_none hpop]
    rfl
  | some taken =>
    obtain ⟨slot, pool⟩ := taken
    obtain ⟨_, -, he⟩ := Option.map_eq_some_iff.mp hpop
    cases he
    rw [acquire_of_popFree hpop]
    rfl

omit [Action S A] in
theorem frame_discard (x : Numbered A) : (w.discard x).frame = w.frame := by
  obtain ⟨n, i | a⟩ := x
  · exact congrArg (·, _) (SlotPool.size_setLink ..)
  · rfl

theorem frame_schedule (n i : Nat) : (w.schedule n i).frame = w.frame :=
  congrArg (·, _) (SlotPool.size_setLink ..)

theorem frame_stepScript (script : Script S A) (held : List (Numbered A)) :
    (w.stepScript script held).2.2.frame = w.frame := by
  cases script with
  | done =>
    cases held with
    | nil => rfl
    | cons x held => exact w.frame_discard x
  | edit | inspect => rfl
  | acquire => exact w.frame_acquire
  | submit place a next =>
    rcases hx : held[place]? with _ | ⟨n, i | content⟩ <;> simp only [stepScript, hx]
    · exact (w.setContent i a).frame_schedule n i
    · rfl
  | discard place next =>
    cases hx : held[place]? with
    | none => simp only [stepScript, hx]
    | some x =>
      simp only [stepScript, hx]
      exact w.frame_discard x

/-- The holder of the lock leaves it alone until it releases it. -/
theorem frame_step (task : Task S A) : (task.step w).2.frame = w.frame := by
  cases task with
  | take aim n =>
    cases hq : w.actor.pool.takeQueue with
    | none => simp only [Task.step, hq]
    | some taken =>
      obtain ⟨top, -, he⟩ := Option.map_eq_some_iff.mp hq
      cases he
      simp only [Task.step, hq]
      exact congrArg (·, _) (SlotPool.size_turn ..)
  | run aim n cursor => cases cursor <;> rfl
  | slot aim n next i spent script held =>
    cases hover : script.isOver held with
    | true =>
      simp only [Task.step, hover]
      exact congrArg (·, _) (SlotPool.size_setLink ..)
    | false =>
      rw [Task.step_slot w aim n next i spent hover]
      exact w.frame_stepScript script held
  | test aim n => cases aim <;> rfl
  | begin | access | unlock => rfl
  | overflow script held =>
    cases hover : script.isOver held with
    | true =>
      simp only [Task.step, hover]
      rfl
    | false =>
      rw [Task.step_overflow w hover]
      exact w.frame_stepScript script held

/-! ### Links -/

theorem link_acquire (j : Nat) : w.acquire.2.actor.pool.link j = w.actor.pool.link j := by
  cases hpop : w.actor.pool.popFree with
  | none => rw [acquire_of_popFree_none hpop]
  | some taken =>
    obtain ⟨slot, pool⟩ := taken
    obtain ⟨_, -, he⟩ := Option.map_eq_some_iff.mp hpop
    cases he
    rw [acquire_of_popFree hpop]
    rfl

omit [Action S A] in
theorem link_discard {x : Numbered A} {j : Nat} (hj : x.slot? ≠ some j) :
    (w.discard x).actor.pool.link j = w.actor.pool.link j := by
  obtain ⟨n, i | a⟩ := x
  · exact SlotPool.link_setLink_of_ne _ _ fun hij => hj (congrArg some hij)
  · rfl

theorem link_schedule {n i j : Nat} (hj : i ≠ j) :
    (w.schedule n i).actor.pool.link j = w.actor.pool.link j := SlotPool.link_setLink_of_ne _ _ hj

omit [Action S A] in
theorem slot?_ne_of_getElem? {held : List (Numbered A)} {place j : Nat} {x : Numbered A}
    (hx : held[place]? = some x) (hj : j ∉ held.filterMap Numbered.slot?) : x.slot? ≠ some j :=
  fun hslot => hj (List.mem_filterMap.mpr ⟨x, List.mem_of_getElem? hx, hslot⟩)

/-- An action changes the links of slots that it has taken. -/
theorem link_stepScript (script : Script S A) {held : List (Numbered A)} {j : Nat}
    (hj : j ∉ held.filterMap Numbered.slot?) :
    (w.stepScript script held).2.2.actor.pool.link j = w.actor.pool.link j := by
  cases script with
  | done =>
    cases held with
    | nil => rfl
    | cons x held => exact w.link_discard (slot?_ne_of_getElem? List.getElem?_cons_zero hj)
  | edit | inspect => rfl
  | acquire => exact w.link_acquire j
  | submit place a next =>
    cases hx : held[place]? with
    | none => simp only [stepScript, hx]
    | some x =>
      have hne := slot?_ne_of_getElem? hx hj
      obtain ⟨n, i | content⟩ := x <;> simp only [stepScript, hx]
      · exact (w.setContent i a).link_schedule fun hij => hne (congrArg some hij)
      · rfl
  | discard place next =>
    cases hx : held[place]? with
    | none => simp only [stepScript, hx]
    | some x =>
      simp only [stepScript, hx]
      exact w.link_discard (slot?_ne_of_getElem? hx hj)

/-! ### What has been submitted -/

omit [Action S A] in
theorem entered_note_queued (n : Nat) (a : A) : (w.note (.queued n a)).entered.Perm (n :: w.entered) := by
  simp only [entered, note, queuedIn_append, overflowsIn_append, queuedIn_singleton, overflowsIn_singleton,
    queued?, ranOverflow?, Option.toList_some, Option.toList_none, List.append_nil, List.map_append,
    List.append_assoc, List.map_singleton]
  exact List.perm_middle

omit [Action S A] in
theorem entered_note_ranOverflow (n : Nat) (a : A) :
    (w.note (.ranOverflow n a)).entered.Perm (n :: w.entered) := by
  simp only [entered, note, queuedIn_append, overflowsIn_append, queuedIn_singleton, overflowsIn_singleton,
    queued?, ranOverflow?, Option.toList_some, Option.toList_none, List.append_nil, List.map_append,
    ← List.append_assoc, List.map_singleton]
  exact List.perm_append_singleton ..

omit [Action S A] in
theorem entered_note_of_none {d : Deed A} (hq : d.queued? = none) (ho : d.ranOverflow? = none) :
    (w.note d).entered = w.entered := by
  simp [entered, note, hq, ho]

theorem entered_stepScript (script : Script S A) (held : List (Numbered A)) :
    (w.stepScript script held).2.2.entered.Perm ((script.submits? held).toList ++ w.entered) := by
  cases script with
  | done =>
    cases held with
    | nil => exact .refl _
    | cons x held => exact .of_eq (entered_note_of_none { w with actor := w.actor.discard x.handle } rfl rfl)
  | edit | inspect | acquire => exact .refl _
  | submit place a next =>
    rcases hx : held[place]? with _ | ⟨n, i | content⟩ <;> simp only [stepScript, Script.submits?, hx]
    · exact .refl _
    · exact entered_note_queued { w with actor := (w.actor.setContent i a).schedule i } n _
    · exact .of_eq (w.entered_note_of_none rfl rfl)
  | discard place next =>
    cases hx : held[place]? with
    | none =>
      simp only [stepScript, hx]
      exact .refl _
    | some x =>
      simp only [stepScript, hx]
      exact .of_eq (entered_note_of_none { w with actor := w.actor.discard x.handle } rfl rfl)

/-- What is submitted by a step of the holder of the lock. -/
theorem entered_step (task : Task S A) :
    ((task.step w).2.entered ++ (task.step w).1.pending.map Numbered.number).Perm
      (task.submits?.toList ++ (w.entered ++ task.pending.map Numbered.number)) := by
  cases task with
  | take aim n =>
    cases hq : w.actor.pool.takeQueue with
    | none =>
      simp only [Task.step, hq]
      exact .refl _
    | some taken =>
      simp only [Task.step, hq]
      exact .refl _
  | run aim n cursor =>
    cases cursor with
    | none =>
      simp only [Task.step]
      split <;> exact .refl _
    | some i =>
      refine .of_eq (congrArg (· ++ _) ?_)
      exact w.entered_note_of_none rfl rfl
  | slot aim n next i spent script held =>
    cases hover : script.isOver held with
    | true =>
      obtain ⟨rfl, rfl⟩ := Script.eq_of_isOver hover
      exact .refl _
    | false =>
      rw [Task.step_slot w aim n next i spent hover, ← List.append_assoc]
      exact (w.entered_stepScript script held).append_right _
  | test aim n => cases aim <;> exact .refl _
  | begin n a =>
    show ((w.note (.ranOverflow n a)).entered ++ []).Perm (w.entered ++ [n])
    rw [List.append_nil]
    exact (w.entered_note_ranOverflow n a).trans (List.perm_append_singleton ..).symm
  | overflow script held =>
    cases hover : script.isOver held with
    | true =>
      obtain ⟨rfl, rfl⟩ := Script.eq_of_isOver hover
      exact .refl _
    | false =>
      rw [Task.step_overflow w hover, ← List.append_assoc]
      exact (w.entered_stepScript script held).append_right _
  | access | unlock => exact .refl _

/-! ### The holder of the lock -/

namespace Sound

variable {w} {m : Moment A}

/-- The slots still to be run stay linked in their order, as nobody else has them. -/
theorem stack_hand (h : w.Sound m) {cursor : Option Nat} (hstack : w.actor.pool.Stack cursor m.hand)
    {v : Ledger S A} (hframe : v.frame = w.frame)
    (hlink : ∀ j, j ∉ m.running ++ m.held.filterMap Numbered.slot? →
      v.actor.pool.link j = w.actor.pool.link j) :
    v.actor.pool.Stack cursor m.hand := by
  refine hstack.congr (of_frame_eq hframe).1 fun j hj => hlink j fun hmem => ?_
  exact h.not_mem_todo hmem (List.mem_append_left _ hj)

/-- The slots still to be run, when an action goes on. -/
theorem stack_stepScript {script : Script S A} {held outer : List (Numbered A)} (h : w.Sound m)
    (hm : m.held = held ++ outer) {cursor : Option Nat} (hstack : w.actor.pool.Stack cursor m.hand) :
    (w.stepScript script held).2.2.actor.pool.Stack cursor m.hand := by
  refine h.stack_hand hstack (w.frame_stepScript script held) fun j hj => w.link_stepScript script ?_
  intro hmem
  refine hj (List.mem_append_right _ ?_)
  rw [hm, List.filterMap_append]
  exact List.mem_append_left _ hmem

/-- The slots still to be run, when the one that has been run is freed. -/
theorem stack_recycle {i : Nat} {spent : A} (h : w.Sound m) (hrunning : m.running = [i])
    {cursor : Option Nat} (hstack : w.actor.pool.Stack cursor m.hand) :
    (w.recycle i spent).actor.pool.Stack cursor m.hand := by
  refine h.stack_hand hstack (congrArg (·, _) (SlotPool.size_setLink ..)) fun j hj => ?_
  refine SlotPool.link_setLink_of_ne _ _ fun hij => hj (List.mem_append_left _ ?_)
  rw [hrunning, hij]
  exact List.mem_cons_self

/-- **Every step of the holder of the lock** leads from the moment of its task to that of the next, and the slots
still to be run are linked in their order. -/
theorem stepTask {task : Task S A} {hand : List Nat} {hands : List (Numbered A)} {waiting : Nat}
    (h : w.Sound (task.moment hand hands waiting)) (hstack : w.actor.pool.Stack task.cursor hand) :
    ∃ hand', (task.step w).2.actor.pool.Stack (task.step w).1.cursor hand' ∧
      (task.step w).2.Sound ((task.step w).1.moment hand' hands waiting) := by
  have hnil : task.cursor = none → hand = [] := fun hcursor =>
    (hcursor ▸ hstack).top_eq_none_iff.mp rfl
  cases task with
  | take aim n =>
    obtain rfl := hnil rfl
    cases hq : w.actor.pool.takeQueue with
    | none =>
      simp only [Task.step, hq]
      exact ⟨[], .bottom, h⟩
    | some taken =>
      obtain ⟨slots, pool⟩ := taken
      simp only [Task.step, hq]
      exact ⟨slots, h.owned.stack_takeQueue hq, h.takeQueue rfl hq⟩
  | run aim n cursor =>
    cases cursor with
    | none =>
      obtain rfl := hnil rfl
      refine ⟨[], ?_, ?_⟩ <;> simp only [Task.step] <;> split
      · exact .bottom
      · exact .bottom
      · exact h
      · exact h
    | some i =>
      cases hstack with
      | slot _ hand hi hnext => exact ⟨hand, hnext, h.begin rfl rfl⟩
  | slot aim n next i spent script held =>
    cases hover : script.isOver held with
    | true =>
      obtain ⟨rfl, rfl⟩ := Script.eq_of_isOver hover
      exact ⟨hand, h.stack_recycle rfl hstack, h.recycle rfl spent⟩
    | false =>
      rw [Task.step_slot w aim n next i spent hover]
      exact ⟨hand, h.stack_stepScript rfl hstack, h.stepScript rfl⟩
  | test aim n =>
    obtain rfl := hnil rfl
    have hend := h.endDrain aim.limit
    cases aim <;> exact ⟨[], .bottom, hend⟩
  | begin number content =>
    obtain rfl := hnil rfl
    exact ⟨[], .bottom, h.beginOverflow⟩
  | overflow script held =>
    obtain rfl := hnil rfl
    cases hover : script.isOver held with
    | true =>
      obtain ⟨rfl, rfl⟩ := Script.eq_of_isOver hover
      exact ⟨[], .bottom, h.owned, h.backlog, h.owners, h.accounted, h.inOrder, h.submitted, h.executed⟩
    | false =>
      rw [Task.step_overflow w hover]
      exact ⟨[], .bottom, h.stepScript rfl⟩
  | access | unlock =>
    obtain rfl := hnil rfl
    exact ⟨[], .bottom, h⟩

end Sound

end Ledger

end WindowedMetrics
