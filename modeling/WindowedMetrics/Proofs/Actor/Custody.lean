import WindowedMetrics.Proofs.Actor.Holder
import WindowedMetrics.Proofs.Actor.Turns

/-!
# Who has a slot

Whatever threads and the actions they run do with an actor, a step at a time and in any order, each slot is
free, queued, in somebody's hands, or in the part of the queue that the holder of the lock has taken and not
finished (`Crew.slots_partition`).

`Crew.Sound` holds between any two steps: it is `Ledger.Sound` at the moment that the stages of the threads and
the task of the holder come to, and says besides who has the lock, how the slots still to be run are linked and
what has been submitted.  `Crew.Sound.turn` is its step lemma, `Crew.sound_run` the run lemma.
-/

namespace WindowedMetrics

open Deed

variable {S A : Type}

/-! ### What threads have -/

/-- The overflow action that a thread waits with. -/
def Stage.waiting? : Stage A → Option (Numbered A)
  | .waiting number content => some ⟨number, .overflow content⟩
  | _ => none

namespace Crew

/-- The overflow actions that wait for the lock. -/
def waiting (c : Crew S A) : List (Numbered A) := c.stages.filterMap Stage.waiting?

/-- The actions in the hands of threads. -/
def hands (c : Crew S A) : List (Numbered A) := c.waiting ++ c.held

/-- What the holder of the lock is at; without one there is nothing to be done under the lock. -/
def task (c : Crew S A) : Task S A := (c.holder.map Prod.snd).getD .access

theorem task_of_some {c : Crew S A} {i : Nat} {task : Task S A} (h : c.holder = some (i, task)) :
    c.task = task := by
  simp [Crew.task, h]

theorem task_of_none {c : Crew S A} (h : c.holder = none) : c.task = .access := by simp [task, h]

/-- Where the actions are between two steps, with the slots still to be run. -/
def moment (c : Crew S A) (hand : List Nat) : Moment A := c.task.moment hand c.hands c.waiting.length

/-- The actions that somebody has taken and not queued, an action that is being run included. -/
def handles (c : Crew S A) : List (Numbered A) := c.task.held ++ (c.task.pending ++ c.hands)

/-- The numbers of the actions that have run. -/
def finished (c : Crew S A) : List Nat :=
  (ranIn c.ledger.deeds ++ overflowsIn c.ledger.deeds).map Prod.fst

end Crew

variable [Action S A]

/-! ### Steps of threads -/

namespace Client

theorem frame_act (c : Client S A) {request : Request S A} (hrequest : request.isServed = true) :
    (c.act request).ledger.frame = c.ledger.frame ∧ (c.act request).ledger.entered = c.ledger.entered := by
  cases request with
  | take => exact ⟨c.ledger.frame_acquire, rfl⟩
  | fill place a =>
    unfold act
    dsimp only
    rcases c.held[place]? with _ | ⟨n, i | b⟩ <;> exact ⟨rfl, rfl⟩
  | drop place =>
    unfold act
    dsimp only
    cases c.held[place]? with
    | none => exact ⟨rfl, rfl⟩
    | some x =>
      exact ⟨c.ledger.frame_discard x,
        Ledger.entered_note_of_none { c.ledger with actor := c.ledger.actor.discard x.handle } rfl rfl⟩
  | edit change =>
    unfold act
    dsimp only
    split <;> exact ⟨rfl, rfl⟩
  | submit | enter | leave => cases hrequest

theorem link_act (c : Client S A) {request : Request S A} (hrequest : request.isServed = true) {j : Nat}
    (hj : j ∉ c.held.filterMap Numbered.slot?) :
    (c.act request).ledger.actor.pool.link j = c.ledger.actor.pool.link j := by
  cases request with
  | take => exact c.ledger.link_acquire j
  | fill place a =>
    unfold act
    dsimp only
    rcases c.held[place]? with _ | ⟨n, i | b⟩ <;> rfl
  | drop place =>
    unfold act
    dsimp only
    cases hx : c.held[place]? with
    | none => rfl
    | some x => exact c.ledger.link_discard (Ledger.slot?_ne_of_getElem? hx hj)
  | edit change =>
    unfold act
    dsimp only
    split <;> rfl
  | submit | enter | leave => cases hrequest

end Client

namespace Crew

variable {c d : Crew S A} {i : Nat} {stage stage' : Stage A}

/-- A list in which one item has changed, seen through what the items stand for. -/
theorem filterMap_set_perm {α β : Type} {l : List α} {i : Nat} {a : α} (h : l[i]? = some a) (b : α)
    (f : α → Option β) : ((f a).toList ++ (l.set i b).filterMap f).Perm ((f b).toList ++ l.filterMap f) := by
  obtain ⟨hlt, rfl⟩ := List.getElem?_eq_some_iff.mp h
  have hcons : ∀ x, (x :: l.eraseIdx i).filterMap f = (f x).toList ++ (l.eraseIdx i).filterMap f := by
    intro x
    cases hx : f x <;> simp [hx]
  have hbefore := hcons l[i] ▸ (List.getElem_cons_eraseIdx_perm hlt).filterMap f
  have hafter := hcons b ▸ (List.set_perm_cons_eraseIdx hlt b).filterMap f
  refine (hafter.append_left _).trans (.trans ?_ (hbefore.append_left _))
  rw [← List.append_assoc, ← List.append_assoc]
  exact List.perm_append_comm.append_right _

omit [Action S A] in
theorem waiting_setStage (h : c.stages[i]? = some stage) (hstage : stage.waiting? = none)
    (hstage' : stage'.waiting? = none) : (c.setStage i stage').waiting = c.waiting := by
  obtain ⟨hlt, rfl⟩ := List.getElem?_eq_some_iff.mp h
  unfold waiting setStage
  rw [List.set_eq_take_append_cons_drop, if_pos hlt, List.filterMap_append,
    List.filterMap_cons_none hstage', ← List.filterMap_append]
  conv_rhs => rw [← List.take_append_drop i c.stages, List.drop_eq_getElem_cons hlt]
  rw [List.filterMap_append, List.filterMap_append, List.filterMap_cons_none hstage]

/-- What holds between any two steps of threads at an actor with so many slots. -/
structure Sound (c : Crew S A) (size : Nat) : Prop where
  ledger : ∃ hand, c.ledger.actor.pool.Stack c.task.cursor hand ∧ c.ledger.Sound (c.moment hand)
  size : c.ledger.actor.pool.size = size
  locked : c.ledger.actor.locked = c.holder.isSome
  calls : c.calls.Perm (c.ledger.entered ++ (c.task.pending ++ c.waiting).map Numbered.number)

variable {size : Nat}

omit [Action S A] in
theorem moment_congr (htask : d.task = c.task) (hheld : d.held = c.held) (hwaiting : d.waiting = c.waiting)
    (hand : List Nat) : d.moment hand = c.moment hand := by
  unfold moment hands
  rw [htask, hheld, hwaiting]

theorem Sound.holder_eq_none (h : c.Sound size) (hfree : c.ledger.actor.locked = false) : c.holder = none := by
  simpa [hfree] using h.locked

theorem Sound.setStage (h : c.Sound size) (hget : c.stages[i]? = some stage) (hstage : stage.waiting? = none)
    (hstage' : stage'.waiting? = none) : (c.setStage i stage').Sound size := by
  have hwaiting := waiting_setStage hget hstage hstage'
  refine ⟨?_, h.size, h.locked, ?_⟩
  · obtain ⟨hand, hstack, hledger⟩ := h.ledger
    refine ⟨hand, hstack, ?_⟩
    rw [moment_congr (c := c) (d := c.setStage i stage') rfl rfl hwaiting]
    exact hledger
  · rw [hwaiting]
    exact h.calls

/-- Taking the lock. -/
theorem Sound.grab (h : c.Sound size) (hget : c.stages[i]? = some stage) (hstage : stage.waiting? = none)
    (hholder : c.holder = none) {aim : Aim A} (haim : aim.pending = []) :
    (c.grab i (.take aim 0)).Sound size := by
  have hwaiting : (c.grab i (.take aim 0)).waiting = c.waiting := waiting_setStage hget hstage rfl
  have htask : c.task = .access := task_of_none hholder
  have hmoment : ∀ hand, (c.grab i (.take aim 0)).moment hand = c.moment hand := by
    intro hand
    have hheld : (c.grab i (.take aim 0)).held = c.held := rfl
    have htaking : (c.grab i (.take aim 0)).task = .take aim 0 := rfl
    simp [moment, hands, hwaiting, htask, hheld, htaking, Task.moment, Task.held, Task.pending, Task.running,
      Task.unbooked, haim]
  refine ⟨?_, h.size, rfl, ?_⟩
  · obtain ⟨hand, hstack, hledger⟩ := h.ledger
    rw [htask] at hstack
    refine ⟨hand, hstack, ?_⟩
    rw [hmoment]
    exact hledger.of_actor rfl rfl rfl rfl
  · have hcalls := h.calls
    rw [hwaiting]
    rw [htask] at hcalls
    show c.calls.Perm (c.ledger.entered ++ (aim.pending ++ c.waiting).map Numbered.number)
    rw [haim]
    exact hcalls

/-- Taking the lock to run an overflow action. -/
theorem Sound.grab_waiting {n : Nat} {a : A} (h : c.Sound size) (hget : c.stages[i]? = some (.waiting n a))
    (hholder : c.holder = none) : (c.grab i (.take (.overflow n a) 0)).Sound size := by
  obtain ⟨d, hd⟩ : ∃ d, d = c.grab i (.take (.overflow n a) 0) := ⟨_, rfl⟩
  have hperm : (⟨n, .overflow a⟩ :: d.waiting).Perm c.waiting := by
    rw [hd]
    exact filterMap_set_perm hget .holding Stage.waiting?
  have htask : c.task = .access := task_of_none hholder
  have htaking : d.task = .take (.overflow n a) 0 := by rw [hd]; rfl
  have hheld : d.held = c.held := by rw [hd]; rfl
  obtain ⟨hand, hstack, hledger⟩ := h.ledger
  have hmoment : d.moment hand =
      { c.moment hand with held := ⟨n, .overflow a⟩ :: (d.waiting ++ c.held) } := by
    simp [moment, hands, htask, hheld, htaking, ← hperm.length_eq, Task.moment, Task.held, Task.pending,
      Task.running, Task.unbooked, Aim.pending]
  have hhands : (⟨n, .overflow a⟩ :: (d.waiting ++ c.held)).Perm (c.moment hand).held := by
    simp only [moment, htask, Task.moment]
    exact hperm.append_right c.held
  have hgrabbed : d.ledger = { c.ledger with actor := { c.ledger.actor with locked := true } } := by
    rw [hd]
    rfl
  refine hd ▸ ⟨⟨hand, ?_, ?_⟩, ?_, ?_, ?_⟩
  · rw [htaking, hgrabbed]
    rw [htask] at hstack
    exact hstack
  · rw [hmoment, hgrabbed]
    exact (hledger.perm_held hhands).of_actor rfl rfl rfl rfl
  · rw [hd]
    exact h.size
  · rw [hd]
    rfl
  · have hcalls := h.calls
    rw [htask] at hcalls
    rw [htaking]
    have hd' : d.calls = c.calls ∧ d.ledger.entered = c.ledger.entered := by rw [hd]; exact ⟨rfl, rfl⟩
    rw [hd'.1, hd'.2]
    exact hcalls.trans ((hperm.symm.map Numbered.number).append_left _)

/-- Releasing the lock. -/
theorem Sound.unlock (h : c.Sound size) (hget : c.stages[i]? = some .holding)
    (htask : c.task = .access ∨ ∃ capped, c.task = .unlock capped) (hstage' : stage'.waiting? = none) :
    (c.unlock i stage').Sound size := by
  have hwaiting : (c.unlock i stage').waiting = c.waiting := waiting_setStage hget rfl hstage'
  have hheld : (c.unlock i stage').held = c.held := rfl
  have hnone : (c.unlock i stage').task = .access := rfl
  have hcursor : c.task.cursor = none := by
    rcases htask with htask | ⟨capped, htask⟩ <;> rw [htask] <;> rfl
  have hmoment : ∀ hand, (c.unlock i stage').moment hand = c.moment hand := by
    intro hand
    unfold moment hands
    rw [hwaiting, hheld, hnone]
    rcases htask with htask | ⟨capped, htask⟩
    · rw [htask]
    · rw [htask]
      rfl
  refine ⟨?_, h.size, rfl, ?_⟩
  · obtain ⟨hand, hstack, hledger⟩ := h.ledger
    rw [hcursor] at hstack
    refine ⟨hand, hstack, ?_⟩
    rw [hmoment]
    exact hledger.of_actor rfl rfl rfl rfl
  · have hcalls := h.calls
    rw [hwaiting, hnone]
    rcases htask with htask | ⟨capped, htask⟩
    · rw [htask] at hcalls
      exact hcalls
    · rw [htask] at hcalls
      exact hcalls

/-- The holder of the lock goes on. -/
theorem Sound.work_of_isBusy {task : Task S A} (h : c.Sound size) (hholder : c.holder = some (i, task))
    (hbusy : task.isBusy = true) : (c.work i task).Sound size := by
  rw [Crew.work_of_isBusy c i hbusy]
  have htask : c.task = task := task_of_some hholder
  obtain ⟨hsize, hlocked, -⟩ := Ledger.of_frame_eq (c.ledger.frame_step task)
  refine ⟨?_, hsize.trans h.size, ?_, ?_⟩
  · obtain ⟨hand, hstack, hledger⟩ := h.ledger
    rw [moment, htask] at hledger
    rw [htask] at hstack
    exact hledger.stepTask hstack
  · show (task.step c.ledger).2.actor.locked = true
    rw [hlocked, h.locked, hholder]
    rfl
  · have hcalls := h.calls
    have hstep := c.ledger.entered_step task
    rw [htask, List.map_append, ← List.append_assoc] at hcalls
    show (c.calls ++ task.submits?.toList).Perm
      ((task.step c.ledger).2.entered ++ ((task.step c.ledger).1.pending ++ c.waiting).map Numbered.number)
    rw [List.map_append, ← List.append_assoc]
    refine .trans ?_ (hstep.symm.append_right _)
    rw [List.append_assoc]
    exact List.perm_append_comm.trans (hcalls.append_left _)

omit [Action S A] in
/-- The actions that are not in `held`. -/
def elsewhere (c : Crew S A) : List (Numbered A) := c.task.held ++ (c.task.pending ++ c.waiting)

omit [Action S A] in
theorem held_perm (c : Crew S A) (held : List (Numbered A)) :
    (held ++ c.elsewhere).Perm (c.task.held ++ (c.task.pending ++ (c.waiting ++ held))) := by
  refine List.perm_append_comm.trans (.of_eq ?_)
  simp [elsewhere]

/-- The moment with the handed out actions in front. -/
theorem held_first {hand : List Nat} (h : c.ledger.Sound (c.moment hand)) :
    c.ledger.Sound { c.moment hand with held := c.held ++ c.elsewhere } := h.perm_held (c.held_perm c.held)

omit [Action S A] in
/-- With other actions handed out. -/
theorem moment_of_held (htask : d.task = c.task) (hwaiting : d.waiting = c.waiting) (hand : List Nat) :
    d.moment hand =
      { c.moment hand with held := c.task.held ++ (c.task.pending ++ (c.waiting ++ d.held)) } := by
  unfold moment hands
  rw [htask, hwaiting]
  rfl

omit [Action S A] in
theorem slot_mem_held {hand : List Nat} {x : Numbered A} {slot : Nat} (hx : x ∈ c.held)
    (hslot : x.slot? = some slot) :
    slot ∈ (c.moment hand).running ++ (c.moment hand).held.filterMap Numbered.slot? := by
  refine List.mem_append_right _ (List.mem_filterMap.mpr ⟨x, ?_, hslot⟩)
  simp [moment, Task.moment, hands, hx]

/-- The slots still to be run stay linked in their order while a thread makes a request. -/
theorem stack_serve {hand : List Nat} (h : c.ledger.Sound (c.moment hand)) {cursor : Option Nat}
    (hstack : c.ledger.actor.pool.Stack cursor hand) {request : Request S A} (hrequest : request.isServed = true) :
    (c.serve request).ledger.actor.pool.Stack cursor hand := by
  refine h.stack_hand hstack (Client.frame_act ⟨c.ledger, c.held⟩ hrequest).1 fun j hj => ?_
  refine Client.link_act ⟨c.ledger, c.held⟩ hrequest fun hmem => hj ?_
  obtain ⟨x, hx, hslot⟩ := List.mem_filterMap.mp hmem
  exact slot_mem_held hx hslot

theorem stack_queue {hand : List Nat} (h : c.ledger.Sound (c.moment hand)) {cursor : Option Nat}
    (hstack : c.ledger.actor.pool.Stack cursor hand) {place n slot : Nat}
    (hx : c.held[place]? = some ⟨n, .slot slot⟩) :
    (c.queue place n slot).ledger.actor.pool.Stack cursor hand :=
  h.stack_hand hstack (c.ledger.frame_schedule n slot) fun _ hj => c.ledger.link_schedule fun hslot =>
    hj (slot_mem_held (List.mem_of_getElem? hx) (congrArg some hslot))

/-- A request that is through at once. -/
theorem Sound.serve (h : c.Sound size) {request : Request S A} (hrequest : request.isServed = true) :
    (c.serve request).Sound size := by
  obtain ⟨hframe, hentered⟩ := Client.frame_act ⟨c.ledger, c.held⟩ hrequest
  obtain ⟨hsize, hlocked, -⟩ := Ledger.of_frame_eq hframe
  refine ⟨?_, hsize.trans h.size, hlocked.trans h.locked, ?_⟩
  · obtain ⟨hand, hstack, hledger⟩ := h.ledger
    refine ⟨hand, stack_serve hledger hstack hrequest, ?_⟩
    rw [moment_of_held (c := c) (d := c.serve request) rfl rfl]
    exact (Ledger.Sound.serve (held_first hledger) rfl hrequest).perm_held
      (c.held_perm (c.serve request).held).symm
  · show c.calls.Perm ((c.serve request).ledger.entered ++ _)
    rw [show (c.serve request).ledger.entered = c.ledger.entered from hentered]
    exact h.calls

/-- Queueing the slot of a handed out action. -/
theorem Sound.queue {place n slot : Nat} (h : c.Sound size) (hx : c.held[place]? = some ⟨n, .slot slot⟩) :
    (c.queue place n slot).Sound size := by
  obtain ⟨hsize, hlocked, -⟩ := Ledger.of_frame_eq (c.ledger.frame_schedule n slot)
  refine ⟨?_, hsize.trans h.size, hlocked.trans h.locked, ?_⟩
  · obtain ⟨hand, hstack, hledger⟩ := h.ledger
    refine ⟨hand, stack_queue hledger hstack hx, ?_⟩
    have hheld := (held_first hledger).of_getElem? rfl hx
    rw [moment_of_held (c := c) (d := c.queue place n slot) rfl rfl]
    exact (hheld.schedule rfl).perm_held (c.held_perm (c.held.eraseIdx place)).symm
  · have hentered := Ledger.entered_note_queued { c.ledger with actor := c.ledger.actor.schedule slot } n
      (c.ledger.actor.content slot)
    refine .trans ?_ (hentered.symm.append_right _)
    exact (List.perm_append_singleton ..).trans (h.calls.cons n)

/-- Waiting with an overflow action that counts as submitted. -/
theorem Sound.count {place n : Nat} {a : A} (h : c.Sound size) (hget : c.stages[i]? = some .idle)
    (hx : c.held[place]? = some ⟨n, .overflow a⟩) :
    ((c.count place n).setStage i (.waiting n a)).Sound size := by
  obtain ⟨d, hd⟩ : ∃ d, d = (c.count place n).setStage i (.waiting n a) := ⟨_, rfl⟩
  have hperm : d.waiting.Perm (⟨n, .overflow a⟩ :: c.waiting) := by
    rw [hd]
    exact filterMap_set_perm hget (.waiting n a) Stage.waiting?
  have htask : d.task = c.task := by rw [hd]; rfl
  have hheld : d.held = c.held.eraseIdx place := by rw [hd]; rfl
  obtain ⟨hand, hstack, hsound⟩ := h.ledger
  have hmoment : d.moment hand = { c.moment hand with
      held := c.task.held ++ (c.task.pending ++ (d.waiting ++ c.held.eraseIdx place))
      waiting := (c.moment hand).waiting + 1 } := by
    have hlength : d.waiting.length + c.task.pending.length =
        c.waiting.length + c.task.pending.length + 1 := by
      rw [hperm.length_eq, List.length_cons]
      omega
    unfold moment hands Task.moment
    rw [htask, hheld, hlength]
  have hhands : (c.task.held ++ (c.task.pending ++ (d.waiting ++ c.held.eraseIdx place))).Perm
      (⟨n, .overflow a⟩ :: (c.held.eraseIdx place ++ c.elsewhere)) := by
    have hfront := ((hperm.append_right (c.held.eraseIdx place)).append_left c.task.pending).append_left
      c.task.held
    refine hfront.trans (.trans ?_ ((c.held_perm (c.held.eraseIdx place)).symm.cons _))
    have hmiddle : (c.task.held ++ c.task.pending ++ ⟨n, .overflow a⟩ :: (c.waiting ++ c.held.eraseIdx place)).Perm
        (⟨n, .overflow a⟩ :: (c.task.held ++ c.task.pending ++ (c.waiting ++ c.held.eraseIdx place))) :=
      List.perm_middle
    simpa using hmiddle
  have hledger : d.ledger = { c.ledger with
      actor := { c.ledger.actor with submitted := c.ledger.actor.submitted + 1 } } := by
    rw [hd]
    rfl
  refine hd ▸ ⟨⟨hand, ?_, ?_⟩, ?_, ?_, ?_⟩
  · rw [htask, hledger]
    exact hstack
  · rw [hmoment, hledger]
    exact (((held_first hsound).of_getElem? rfl hx).perm_held hhands).count
  · rw [hledger]
    exact h.size
  · rw [hledger, show d.holder = c.holder by rw [hd]; rfl]
    exact h.locked
  · have hpending := ((hperm.append_left c.task.pending).trans List.perm_middle).map Numbered.number
    rw [hledger, htask, show d.calls = c.calls ++ [n] by rw [hd]; rfl]
    refine (List.perm_append_singleton n c.calls).trans ((h.calls.cons n).trans ?_)
    exact List.perm_middle.symm.trans (hpending.symm.append_left _)

/-- A drain that was capped is counted. -/
theorem Sound.report (h : c.Sound size) (hget : c.stages[i]? = some .reporting) :
    ({ c.setStage i .idle with ledger.actor.capHits := c.ledger.actor.capHits + 1 } : Crew S A).Sound size := by
  have hidle : (c.setStage i .idle).Sound size := h.setStage hget rfl rfl
  obtain ⟨⟨hand, hstack, hledger⟩, hsize, hlocked, hcalls⟩ := hidle
  exact ⟨⟨hand, hstack, hledger.of_actor rfl rfl rfl rfl⟩, hsize, hlocked, hcalls⟩

/-- **Every step of every thread** keeps the crew sound. -/
theorem Sound.turn {move : Move S A} (h : c.Sound size) (hturn : c.Turn i move d) : d.Sound size := by
  cases hturn with
  | stay => exact h
  | giveWay stage hget hstage =>
    refine h.setStage hget ?_ rfl
    rcases hstage with rfl | rfl <;> rfl
  | grab stage hget hstage hlocked =>
    refine h.grab hget ?_ (h.holder_eq_none hlocked) rfl
    rcases hstage with rfl | rfl <;> rfl
  | grabWaiting number content hget hlocked => exact h.grab_waiting hget (h.holder_eq_none hlocked)
  | grabEntering hget hlocked => exact h.grab hget rfl (h.holder_eq_none hlocked) rfl
  | report hget => exact h.report hget
  | turnAway hget | lookAgain hget => exact h.setStage hget rfl rfl
  | work task hget hholder hbusy => exact h.work_of_isBusy hholder hbusy
  | unlock capped hget hholder =>
    refine h.unlock hget (.inr ⟨capped, task_of_some hholder⟩) ?_
    cases capped <;> rfl
  | serve request hrequest => exact h.serve hrequest
  | submit hget hx => exact (h.queue hx).setStage hget rfl rfl
  | submitInside hget hholder hx => exact h.queue hx
  | count hget hx => exact h.count hget hx
  | enter hget => exact h.setStage hget rfl rfl
  | leave hget hholder => exact h.unlock hget (.inl (task_of_some hholder)) rfl

theorem Sound.go (h : c.Sound size) (i : Nat) : (c.go i).Sound size := h.turn (c.turn_go i)

theorem Sound.act (h : c.Sound size) (i : Nat) (move : Move S A) : (c.act i move).Sound size :=
  h.turn (c.turn_act i move)

theorem sound_create {state : S} {poolSize batchSize : Nat} {x : Actor S A}
    (h : Actor.create state poolSize batchSize = .ok x) (threads : Nat) :
    (start x threads).Sound poolSize := by
  have hwaiting : (List.replicate threads (Stage.idle : Stage A)).filterMap Stage.waiting? = [] := by
    simp [Stage.waiting?]
  have hledger : ({ actor := x } : Ledger S A).Sound { held := [] } := Client.sound_create h
  have hmoment : (start x threads).moment [] = { held := [] } := by
    simp [start, moment, hands, waiting, hwaiting, task, Task.moment, Task.held, Task.pending, Task.running,
      Task.unbooked]
  obtain rfl := Actor.eq_of_create h
  refine ⟨⟨[], .bottom, ?_⟩, Array.size_ofFn, rfl, ?_⟩
  · rw [hmoment]
    exact hledger
  · simp [start, Ledger.entered, queuedIn, overflowsIn, task, Task.pending, waiting, hwaiting]

theorem sound_run {state : S} {poolSize batchSize : Nat} {x : Actor S A}
    (h : Actor.create state poolSize batchSize = .ok x) (threads : Nat) (moves : List (Nat × Move S A)) :
    (run x threads moves).Sound poolSize := by
  induction moves using List.reverseRecOn with
  | nil => exact sound_create h threads
  | append_singleton moves move ih =>
    rw [run_concat]
    exact ih.act move.1 move.2

/-! ### Slots -/

/-- The pool is empty for whoever takes an action from it now. -/
theorem isOverflow_acquire_iff (x : Actor S A) :
    x.acquire.value.1.isOverflow = true ↔ x.pool.freeTop = none := by
  unfold Actor.acquire SlotPool.popFree
  cases x.pool.freeTop <;> simp [Handle.isOverflow]

/-- **Each slot is in one place**, after any steps of any threads: on the free stack, in the queue, in
somebody's hands, being run, or among those that the holder of the lock has taken from the queue and is to run
after it; and the links lead through the slots of each stack to its end.  So whoever takes an action gets an
overflow action just if every slot is in one of the other places; and if everything submitted has run and
nobody has an action, all slots are free. -/
theorem slots_partition {state : S} {poolSize batchSize : Nat} {x : Actor S A}
    (h : Actor.create state poolSize batchSize = .ok x) (threads : Nat) (moves : List (Nat × Move S A)) :
    let c := run x threads moves
    let pool := c.ledger.actor.pool
    let handed := c.handles.filterMap Numbered.slot?
    ∃ free queue hand, pool.Stack pool.freeTop free ∧ pool.Stack pool.queueTop queue ∧
      pool.Stack c.task.cursor hand ∧
      (free ++ queue ++ handed ++ (c.task.running ++ hand)).Perm (List.range poolSize) ∧
      (c.ledger.actor.acquire.value.1.isOverflow ↔
        ∀ slot < poolSize, slot ∈ queue ++ handed ++ (c.task.running ++ hand)) ∧
      ((∀ n ∈ c.calls, n ∈ c.finished) → c.task.running = [] → handed = [] →
        free.Perm (List.range poolSize)) := by
  intro c pool handed
  have hsound : c.Sound poolSize := sound_run h threads moves
  obtain ⟨hand, hstack, hledger⟩ := hsound.ledger
  obtain ⟨free, hsplits⟩ := hledger.owned
  have hsize : pool.size = poolSize := hsound.size
  have hall : (free ++ pool.queued.reverse ++ handed ++ (c.task.running ++ hand)).Perm
      (List.range poolSize) := by
    refine .trans ?_ (hsize ▸ hsplits.all)
    simp only [List.append_assoc]
    refine List.Perm.append_left free ((List.reverse_perm _).append ?_)
    exact List.perm_append_comm.trans (List.perm_append_comm.append_right handed)
  have hnodup := hall.nodup_iff.mpr List.nodup_range
  refine ⟨free, pool.queued.reverse, hand, hsplits.freeStack, hsplits.queueStack, hstack, hall, ?_, ?_⟩
  · rw [isOverflow_acquire_iff, hsplits.freeStack.top_eq_none_iff]
    constructor
    · rintro rfl slot hslot
      simpa using hall.mem_iff.mpr (List.mem_range.mpr hslot)
    · intro hout
      refine List.eq_nil_iff_forall_not_mem.mpr fun slot hslot => ?_
      have hlt : slot < poolSize := List.mem_range.mp (hall.mem_iff.mp (by simp [hslot]))
      simp only [List.append_assoc] at hnodup hout
      exact (List.nodup_append.mp hnodup).2.2 slot hslot slot (hout slot hlt) rfl
  · intro hfinished hrunning hhanded
    have hnone : hand ++ pool.queued = [] := by
      refine List.eq_nil_iff_forall_not_mem.mpr fun slot hslot => ?_
      have hentered := hledger.entered_perm
      have howner : c.ledger.owner slot ∈ (hand ++ pool.queued).map c.ledger.owner :=
        List.mem_map_of_mem hslot
      have hcall : c.ledger.owner slot ∈ c.calls := by
        refine hsound.calls.mem_iff.mpr (List.mem_append_left _ ?_)
        exact hentered.mem_iff.mpr (List.mem_append_right _ howner)
      have hdisjoint := (List.nodup_append.mp (hentered.nodup_iff.mp hledger.nodup_entered)).2.2
      exact hdisjoint _ (hfinished _ hcall) _ howner rfl
    obtain ⟨rfl, hqueued⟩ := List.append_eq_nil_iff.mp hnone
    simpa [hqueued, hrunning, hhanded] using hall

/-- An action that is being run has taken the other of two slots: whoever takes an action now gets an overflow
action. -/
theorem slots_partition_running : ∃ x : Actor Journal.Lines Journal.Entry,
    Actor.create [] 2 1 = .ok x ∧ ∃ c : Crew Journal.Lines Journal.Entry,
      c = run x 1 [(0, .ask .take), (0, .ask (.fill 0 (.mk 1 [.mk 2 []]))), (0, .ask (.submit 0)), (0, .go),
        (0, .go), (0, .go), (0, .go), (0, .go)] ∧
      c.task.running = [0] ∧ c.handles.filterMap Numbered.slot? = [1] ∧
      c.ledger.actor.acquire.value.1.isOverflow = true := by
  have hx : Actor.create (A := Journal.Entry) [] 2 1 = .ok _ := rfl
  obtain ⟨free, queue, hand, -, -, -, -, hoverflow, -⟩ := slots_partition hx 1 [(0, .ask .take),
    (0, .ask (.fill 0 (.mk 1 [.mk 2 []]))), (0, .ask (.submit 0)), (0, .go), (0, .go), (0, .go), (0, .go), (0, .go)]
  refine ⟨_, hx, _, rfl, rfl, rfl, hoverflow.mpr ?_⟩
  intro slot hslot
  change slot ∈ queue ++ [1] ++ ([0] ++ hand)
  have hcases : slot = 0 ∨ slot = 1 := by omega
  rcases hcases with rfl | rfl <;> simp

end Crew

end WindowedMetrics
