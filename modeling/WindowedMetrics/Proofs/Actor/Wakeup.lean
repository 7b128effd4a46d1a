import Mathlib.Data.List.Nodup
import WindowedMetrics.Proofs.Actor.Alone
import WindowedMetrics.Proofs.Actor.Executed

/-!
# Nothing is left behind

A thread that does not get the lock goes away and trusts that whoever has it looks at the queue again after
releasing it.  `Crew.Guarded` says that somebody will: the lock is held by a thread that has not given up, or it
is free and the queue is empty or some thread is on its way to it.

A thread gives up if its drain was capped, or if it ends its exclusive access.  `Crew.Stale` says that this has
happened since the queue was last empty with the lock free.  Every move keeps a crew guarded or lets it go stale
(`Crew.guarded_or_stale`), so in the end the queue is empty or was left to itself (`Crew.none_stranded`).  What
ran in between has been executed (`Crew.Returned.executes`).
-/

namespace WindowedMetrics

open Deed

variable {S A : Type} [Action S A]

omit [Action S A] in
/-- Whether a thread is going to look at the queue or to try for the lock. -/
def Stage.isWatching : Stage A → Bool
  | .trying | .looking | .retrying => true
  | _ => false

omit [Action S A] in
def Stage.isReporting : Stage A → Bool
  | .reporting => true
  | _ => false

omit [Action S A] in
/-- Whether a move belongs to exclusive access. -/
def Move.isExclusive : Move S A → Bool
  | .ask .enter | .ask (.edit _) | .ask .leave => true
  | _ => false

omit [Action S A] in
/-- Whether the holder of the lock has ended a capped drain. -/
def Task.isCapped : Task S A → Bool
  | .unlock capped => capped
  | _ => false

/-- Only the end of a capped drain makes the holder of the lock leave the queue alone. -/
theorem Task.isCapped_step (w : Ledger S A) {task : Task S A} (hbusy : task.isBusy = true) :
    (task.step w).1.isCapped = task.reportsCap w := by
  cases task with
  | take aim ran => cases hq : w.actor.pool.takeQueue <;> simp only [step, hq] <;> rfl
  | run aim ran cursor =>
    cases cursor with
    | none =>
      simp only [step]
      split <;> rfl
    | some i => rfl
  | slot aim ran next i spent script held => cases hover : script.isOver held <;> simp [step, hover] <;> rfl
  | test aim ran => cases aim <;> rfl
  | begin => rfl
  | overflow script held => cases hover : script.isOver held <;> simp [step, hover] <;> rfl
  | access | unlock => cases hbusy

theorem Client.queueTop_act (c : Client S A) {request : Request S A} (hrequest : request.isServed = true) :
    (c.act request).ledger.actor.pool.queueTop = c.ledger.actor.pool.queueTop := by
  cases request with
  | take =>
    show c.ledger.acquire.2.actor.pool.queueTop = _
    cases hpop : c.ledger.actor.pool.popFree with
    | none => rw [Ledger.acquire_of_popFree_none hpop]
    | some taken =>
      obtain ⟨slot, pool⟩ := taken
      obtain ⟨_, -, he⟩ := Option.map_eq_some_iff.mp hpop
      cases he
      rw [Ledger.acquire_of_popFree hpop]
  | fill place a =>
    unfold act
    dsimp only
    rcases c.held[place]? with _ | ⟨n, i | b⟩ <;> rfl
  | drop place =>
    unfold act
    dsimp only
    rcases c.held[place]? with _ | ⟨n, i | b⟩ <;> rfl
  | edit change =>
    unfold act
    dsimp only
    split <;> rfl
  | submit | enter | leave => cases hrequest

namespace Crew

variable {c d : Crew S A} {i size : Nat} {stage stage' : Stage A} {move : Move S A}

/-! ### Somebody looks at the queue -/

omit [Action S A] in
/-- The queue is empty, or some thread is on its way to it. -/
def Watched (c : Crew S A) : Prop :=
  c.ledger.actor.pool.queueEmpty = true ∨ ∃ stage ∈ c.stages, stage.isWatching = true

omit [Action S A] in
/-- Whoever has the lock will look at the queue, and when nobody has it the queue is watched. -/
structure Guarded (c : Crew S A) : Prop where
  held : c.task.isCapped = false
  free : c.holder = none → c.Watched

/-- Whether a thread with this move leaves the queue to others. -/
def givesUp (c : Crew S A) (i : Nat) (move : Move S A) : Bool :=
  c.reportsCap i move ||
    match move with
    | .ask .leave => true
    | _ => false

omit [Action S A] in
/-- The queue is empty and nobody has the lock. -/
def Quiet (c : Crew S A) : Prop := c.ledger.actor.pool.queueEmpty = true ∧ c.ledger.actor.locked = false

omit [Action S A] in
theorem watched_setStage_self (hget : c.stages[i]? = some stage) (hstage' : stage'.isWatching = true) :
    (c.setStage i stage').Watched := by
  have hlt := (List.getElem?_eq_some_iff.mp hget).1
  exact .inr ⟨stage', List.mem_set hlt stage', hstage'⟩

omit [Action S A] in
/-- A thread that was not on its way to the queue is not missed there. -/
theorem Watched.setStage (h : c.Watched) (hget : c.stages[i]? = some stage) (hstage : stage.isWatching = false) :
    (c.setStage i stage').Watched := by
  rcases h with hempty | ⟨watcher, hmem, hwatcher⟩
  · exact .inl hempty
  · obtain ⟨j, hj⟩ := List.mem_iff_getElem?.mp hmem
    refine .inr ⟨watcher, List.mem_iff_getElem?.mpr ⟨j, ?_⟩, hwatcher⟩
    show (c.stages.set i stage')[j]? = some watcher
    rw [List.getElem?_set_ne ?_, hj]
    rintro rfl
    rw [hget] at hj
    cases hj
    rw [hstage] at hwatcher
    cases hwatcher

/-- **Unless a thread gives up, the queue stays guarded.** -/
theorem Guarded.turn (h : c.Guarded) (hsound : c.Sound size) (hgives : c.givesUp i move = false)
    (hturn : c.Turn i move d) : d.Guarded := by
  have hlocked := hsound.locked
  have hcap : c.reportsCap i move = false := by
    simp only [givesUp, Bool.or_eq_false_iff] at hgives
    exact hgives.1
  cases hturn with
  | stay => exact h
  | giveWay stage hget hstage hbusy =>
    refine ⟨h.held, fun hholder => ?_⟩
    rw [hbusy, show c.holder = none from hholder] at hlocked
    cases hlocked
  | grab | grabWaiting | grabEntering => exact ⟨rfl, nofun⟩
  | report hget => exact ⟨h.held, fun hholder => (h.free hholder).setStage hget rfl⟩
  | turnAway hget hempty => exact ⟨h.held, fun _ => .inl hempty⟩
  | lookAgain hget => exact ⟨h.held, fun _ => watched_setStage_self hget rfl⟩
  | work task hget hholder hbusy =>
    rw [work_of_isBusy c i hbusy]
    refine ⟨?_, nofun⟩
    show (task.step c.ledger).1.isCapped = false
    rw [Task.isCapped_step c.ledger hbusy]
    simpa [reportsCap, hget, hholder] using hcap
  | unlock capped hget hholder =>
    have hcapped : capped = false := by simpa [task_of_some hholder, Task.isCapped] using h.held
    rw [hcapped]
    exact ⟨rfl, fun _ => watched_setStage_self hget rfl⟩
  | serve request hrequest =>
    refine ⟨h.held, fun hholder => ?_⟩
    have htop := Client.queueTop_act ⟨c.ledger, c.held⟩ hrequest
    rcases h.free hholder with hempty | hwatched
    · refine .inl ?_
      unfold SlotPool.queueEmpty at hempty ⊢
      exact (congrArg Option.isNone htop).trans hempty
    · exact .inr hwatched
  | submit hget => exact ⟨h.held, fun _ => watched_setStage_self hget rfl⟩
  | submitInside hget hholder =>
    refine ⟨h.held, fun hnone => ?_⟩
    rw [show c.holder = none from hnone] at hholder
    cases hholder
  | count hget => exact ⟨h.held, fun hholder => (h.free hholder).setStage hget rfl⟩
  | enter hget => exact ⟨h.held, fun hholder => (h.free hholder).setStage hget rfl⟩
  | leave => simp [givesUp] at hgives

theorem Quiet.guarded (h : c.Quiet) (hsound : c.Sound size) : c.Guarded := by
  have hholder : c.holder = none := hsound.holder_eq_none h.2
  exact ⟨by simp [task_of_none hholder, Task.isCapped], fun _ => .inl h.1⟩

theorem quiet_start {state : S} {poolSize batchSize : Nat} {x : Actor S A}
    (h : Actor.create state poolSize batchSize = .ok x) (threads : Nat) : (start x threads).Quiet := by
  obtain rfl := Actor.eq_of_create h
  exact ⟨rfl, rfl⟩

/-! ### The queue is left to itself -/

/-- Some thread has given up since the queue was last empty with the lock free. -/
def Stale (x : Actor S A) (threads : Nat) (moves : List (Nat × Move S A)) : Prop :=
  ∃ past move rest, moves = past ++ move :: rest ∧ (run x threads past).givesUp move.1 move.2 = true ∧
    ∀ later, later <+: rest → ¬ (run x threads (past ++ move :: later)).Quiet

/-- **The queue is guarded, or has been left to itself**, after any moves of any threads. -/
theorem guarded_or_stale {state : S} {poolSize batchSize : Nat} {x : Actor S A}
    (h : Actor.create state poolSize batchSize = .ok x) (threads : Nat) (moves : List (Nat × Move S A)) :
    (run x threads moves).Guarded ∨ Stale x threads moves := by
  -- the induction is on the last move: a quiet crew is guarded, whatever it was before
  induction moves using List.reverseRecOn with
  | nil => exact .inl ((quiet_start h threads).guarded (sound_create h threads))
  | append_singleton moves move ih =>
    by_cases hnow : (run x threads (moves ++ [move])).Quiet
    · exact .inl (hnow.guarded (sound_run h threads (moves ++ [move])))
    cases hgives : (run x threads moves).givesUp move.1 move.2 with
    | true =>
      refine .inr ⟨moves, move, [], rfl, hgives, fun later hlater => ?_⟩
      rw [List.prefix_nil.mp hlater]
      exact hnow
    | false =>
      rcases ih with hguarded | ⟨past, first, rest, rfl, hfirst, hsince⟩
      · rw [run_concat]
        exact .inl (hguarded.turn (sound_run h threads moves) hgives (turn_act _ _ _))
      · refine .inr ⟨past, first, rest ++ [move], by simp, hfirst, fun later hlater => ?_⟩
        rcases List.prefix_concat_iff.mp hlater with rfl | hlater
        · simpa using hnow
        · exact hsince later hlater

/-! ### Capped drains are counted -/

/-- How many drains end capped. -/
def capReports (c : Crew S A) : List (Nat × Move S A) → Nat
  | [] => 0
  | move :: moves => (c.reportsCap move.1 move.2).toNat + (c.act move.1 move.2).capReports moves

omit [Action S A] in
/-- The capped drains that have been counted, and those that a thread is about to count. -/
def capped (c : Crew S A) : Nat :=
  c.ledger.actor.capHits + c.stages.countP Stage.isReporting + c.task.isCapped.toNat

omit [Action S A] in
theorem countP_setStage (hget : c.stages[i]? = some stage) (stage' : Stage A) :
    (c.setStage i stage').stages.countP Stage.isReporting + stage.isReporting.toNat =
      c.stages.countP Stage.isReporting + stage'.isReporting.toNat := by
  obtain ⟨hlt, rfl⟩ := List.getElem?_eq_some_iff.mp hget
  have hbefore := (List.getElem_cons_eraseIdx_perm hlt).countP_eq Stage.isReporting
  have hafter := (List.set_perm_cons_eraseIdx hlt stage').countP_eq Stage.isReporting
  show (c.stages.set i stage').countP Stage.isReporting + _ = _
  rw [hafter, ← hbefore, List.countP_cons, List.countP_cons]
  cases stage'.isReporting <;> cases c.stages[i].isReporting <;> simp

omit [Action S A] in
theorem capped_setStage (hget : c.stages[i]? = some stage) (stage' : Stage A)
    (hstage : stage.isReporting = false) (hstage' : stage'.isReporting = false) :
    (c.setStage i stage').capped = c.capped := by
  have hcount := countP_setStage hget stage'
  simp only [hstage, hstage', Bool.toNat_false, Nat.add_zero] at hcount
  show c.ledger.actor.capHits + (c.setStage i stage').stages.countP Stage.isReporting + c.task.isCapped.toNat = _
  rw [hcount]
  rfl

omit [Action S A] in
/-- The stages of the threads aside, only the holder of the lock and the count matter. -/
theorem capped_congr (hhits : d.ledger.actor.capHits = c.ledger.actor.capHits) (hstages : d.stages = c.stages)
    (hcapped : d.task.isCapped = c.task.isCapped) : d.capped = c.capped := by
  unfold capped
  rw [hhits, hstages, hcapped]

omit [Action S A] in
theorem reportsCap_eq_false (hget : c.stages[i]? = some stage) (hstage : stage ≠ .holding) :
    c.reportsCap i move = false := by
  cases move with
  | ask => rfl
  | go => cases stage <;> first | exact absurd rfl hstage | simp [reportsCap, hget]

/-- Nothing is counted when a thread gets the lock. -/
theorem capped_grab (hsound : c.Sound size) (hget : c.stages[i]? = some stage) (hstage : stage.isReporting = false)
    (hfree : c.ledger.actor.locked = false) (aim : Aim A) : (c.grab i (.take aim 0)).capped = c.capped := by
  have hholder : c.holder = none := hsound.holder_eq_none hfree
  refine .trans ?_ (capped_setStage hget .holding hstage rfl)
  refine capped_congr rfl rfl ?_
  simp [grab, setStage, task, hholder, Task.isCapped]

/-- What the holder of the lock does before it releases it counts if it ends a capped drain. -/
theorem capped_work {task : Task S A} (hget : c.stages[i]? = some .holding) (hholder : c.holder = some (i, task))
    (hbusy : task.isBusy = true) : (c.work i task).capped = c.capped + (c.reportsCap i .go).toNat := by
  have hhits := (Ledger.of_frame_eq (c.ledger.frame_step task)).2.2
  have hnow : c.task.isCapped = false := by
    cases task with
    | unlock => cases hbusy
    | take | run | slot | test | begin | overflow | access => simp [task_of_some hholder, Task.isCapped]
  have hnext : (c.work i task).task.isCapped = c.reportsCap i .go := by
    rw [work_of_isBusy c i hbusy]
    show (task.step c.ledger).1.isCapped = _
    rw [Task.isCapped_step c.ledger hbusy]
    simp [reportsCap, hget, hholder]
  unfold capped
  rw [hnext, hnow, work_of_isBusy c i hbusy, hhits]
  rfl

omit [Action S A] in
/-- Whoever releases the lock after a capped drain is about to count that. -/
theorem capped_unlock {capped : Bool} (hget : c.stages[i]? = some .holding)
    (hholder : c.holder = some (i, .unlock capped)) :
    (c.unlock i (if capped then .reporting else .looking)).capped = c.capped + (c.reportsCap i .go).toNat := by
  have hcap : c.reportsCap i .go = false := by simp [reportsCap, hget, hholder, Task.reportsCap]
  have hcapped : c.task.isCapped = capped := by simp [task_of_some hholder, Task.isCapped]
  have hcount := countP_setStage hget (if capped then .reporting else .looking)
  rw [hcap]
  show c.ledger.actor.capHits +
    (c.setStage i (if capped then .reporting else .looking)).stages.countP Stage.isReporting + 0 =
      c.ledger.actor.capHits + c.stages.countP Stage.isReporting + c.task.isCapped.toNat
  rw [hcapped]
  cases capped <;> simp [Stage.isReporting] at hcount ⊢ <;> omega

/-- **A drain that ends capped**, and no other, is about to be counted. -/
theorem capped_turn (hsound : c.Sound size) (hturn : c.Turn i move d) :
    d.capped = c.capped + (c.reportsCap i move).toNat := by
  cases hturn with
  | stay hcap => simp [hcap]
  | giveWay stage hget hstage =>
    rw [reportsCap_eq_false hget (by rcases hstage with rfl | rfl <;> simp)]
    exact capped_setStage hget _ (by rcases hstage with rfl | rfl <;> rfl) rfl
  | grab stage hget hstage hfree =>
    rw [reportsCap_eq_false hget (by rcases hstage with rfl | rfl <;> simp)]
    exact capped_grab hsound hget (by rcases hstage with rfl | rfl <;> rfl) hfree _
  | grabWaiting number content hget hfree =>
    rw [reportsCap_eq_false hget (by simp)]
    exact capped_grab hsound hget rfl hfree _
  | grabEntering hget hfree =>
    rw [reportsCap_eq_false hget (by simp)]
    exact capped_grab hsound hget rfl hfree _
  | report hget =>
    rw [reportsCap_eq_false hget (by simp)]
    have hcount := countP_setStage hget .idle
    simp only [Stage.isReporting, Bool.toNat_true, Bool.toNat_false] at hcount
    show c.ledger.actor.capHits + 1 + (c.setStage i .idle).stages.countP Stage.isReporting +
      c.task.isCapped.toNat = c.ledger.actor.capHits + c.stages.countP Stage.isReporting + c.task.isCapped.toNat
    omega
  | turnAway hget | lookAgain hget | enter hget =>
    rw [reportsCap_eq_false hget (by simp)]
    exact capped_setStage hget _ rfl rfl
  | work task hget hholder hbusy => exact capped_work hget hholder hbusy
  | unlock capped hget hholder => exact capped_unlock hget hholder
  | serve request hrequest =>
    have hframe := (Client.frame_act ⟨c.ledger, c.held⟩ hrequest).1
    exact capped_congr (Ledger.of_frame_eq hframe).2.2 rfl rfl
  | submit hget =>
    refine (capped_setStage (c := c.queue _ _ _) hget _ rfl rfl).trans ?_
    exact capped_congr rfl rfl rfl
  | submitInside hget => exact capped_congr rfl rfl rfl
  | count hget =>
    refine (capped_setStage (c := c.count _ _) hget _ rfl rfl).trans ?_
    exact capped_congr rfl rfl rfl
  | leave hget hholder =>
    have hcapped : c.task.isCapped = false := by simp [task_of_some hholder, Task.isCapped]
    refine .trans ?_ (capped_setStage hget .idle rfl rfl)
    exact capped_congr rfl rfl hcapped.symm

theorem capped_start {state : S} {poolSize batchSize : Nat} {x : Actor S A}
    (h : Actor.create state poolSize batchSize = .ok x) (threads : Nat) : (start x threads).capped = 0 := by
  obtain rfl := Actor.eq_of_create h
  simp [capped, start, task, Task.isCapped, Stage.isReporting]

/-- Every drain that ended capped has been counted or is about to be. -/
theorem capped_foldl (h : c.Sound size) (moves : List (Nat × Move S A)) :
    (moves.foldl (fun c move => c.act move.1 move.2) c).capped = c.capped + c.capReports moves := by
  induction moves generalizing c with
  | nil => rfl
  | cons move moves ih =>
    have hturn := capped_turn h (turn_act c move.1 move.2)
    rw [List.foldl_cons, ih (h.act move.1 move.2), hturn, capReports]
    omega

/-! ### When all calls have returned -/

omit [Action S A] in
theorem Returned.capped_eq (h : c.Returned) : c.capped = c.ledger.actor.capHits := by
  have hnone : c.stages.countP Stage.isReporting = 0 := by
    refine List.countP_eq_zero.mpr fun stage hstage => ?_
    rw [h.2 stage hstage]
    nofun
  simp [capped, hnone, task, h.1, Task.isCapped]

/-- What has been submitted has run or is queued. -/
theorem Sound.calls_perm (h : c.Sound size) (hreturned : c.Returned) :
    c.calls.Perm (c.finished ++ c.ledger.actor.pool.queued.map c.ledger.owner) ∧ c.calls.Nodup := by
  obtain ⟨hholder, hidle⟩ := hreturned
  obtain ⟨hand, hstack, hledger⟩ := h.ledger
  have htask : c.task = .access := task_of_none hholder
  have hwaiting : c.waiting = [] := by
    refine List.filterMap_eq_nil_iff.mpr fun stage hstage => ?_
    rw [hidle stage hstage]
    rfl
  have hhand : hand = [] := hstack.top_eq_none_iff.mp (by rw [htask]; rfl)
  have hcalls : c.calls.Perm c.ledger.entered := by simpa [htask, hwaiting, Task.pending] using h.calls
  refine ⟨hcalls.trans ?_, hcalls.nodup_iff.mpr hledger.nodup_entered⟩
  have hentered := hledger.entered_perm
  simp only [moment, Task.moment, hhand, List.nil_append] at hentered
  exact hentered

theorem Turn.length_stages {move : Move S A} (h : c.Turn i move d) : d.stages.length = c.stages.length := by
  cases h with
  | stay | serve | submitInside => rfl
  | work task hget hholder hbusy =>
    rw [work_of_isBusy c i hbusy]
  | giveWay | grab | grabWaiting | grabEntering | report | turnAway | lookAgain | unlock | submit | count | enter
  | leave => exact List.length_set

theorem length_stages_run (x : Actor S A) (threads : Nat) (moves : List (Nat × Move S A)) :
    (run x threads moves).stages.length = threads := by
  induction moves using List.reverseRecOn with
  | nil => exact List.length_replicate
  | append_singleton moves move ih =>
    rw [run_concat, (turn_act _ _ _).length_stages, ih]

/-- When all calls have returned, each thread can make a request, and alone it does what the request does. -/
theorem Returned.does (hreturned : c.Returned) (hsound : c.Sound size) (hi : i < c.stages.length)
    (request : Request S A) : c.Does i request := by
  obtain ⟨hholder, hidle⟩ := hreturned
  have hfree : c.ledger.actor.locked = false := by rw [hsound.locked, hholder]; rfl
  have hstage : c.stages[i]? = some .idle := by
    rw [List.getElem?_eq_getElem hi, hidle _ (List.getElem_mem hi)]
  exact (Between.outside hholder hfree hstage).does hsound request

/-- **No action is stranded**, whatever moves any number of threads make without exclusive access.  When all
calls have returned, an action that was submitted has run once and is not queued, or has not run and is queued
once; each drain that was capped has been counted; and the queue is empty unless a drain was capped after the
queue was last empty with the lock free.

What is noted as run has been done.  Slots ran with the contents they were queued with, and in that order; the
state is what the scripts of all actions that ran, each as a whole and one after the other, make of the first one;
and a thread that makes a request now, with no other thread in between, does what the request does to the actor. -/
theorem none_stranded {state : S} {poolSize batchSize : Nat} {x : Actor S A}
    (h : Actor.create state poolSize batchSize = .ok x) (threads : Nat) (moves : List (Nat × Move S A))
    (hshared : ∀ move ∈ moves, move.2.isExclusive = false) (hreturned : (run x threads moves).Returned) :
    let c := run x threads moves
    let pool := c.ledger.actor.pool
    (∃ queue, pool.Stack pool.queueTop queue ∧ ∀ n ∈ c.calls,
      c.finished.count n = 1 ∧ n ∉ queue.map c.ledger.owner ∨
        n ∉ c.finished ∧ (queue.map c.ledger.owner).count n = 1) ∧
      (ranIn c.ledger.deeds <+: queuedIn c.ledger.deeds ∧ c.ledger.Executes state ∧
        ∀ i < threads, ∀ request, c.Does i request) ∧
      c.ledger.actor.capHits = (start x threads).capReports moves ∧
      (pool.queueEmpty = true ∨ ∃ past i rest, moves = past ++ (i, .go) :: rest ∧
        (run x threads past).reportsCap i .go = true ∧
        ∀ later, later <+: rest → ¬ (run x threads (past ++ (i, .go) :: later)).Quiet) := by
  intro c pool
  have hsound : c.Sound poolSize := sound_run h threads moves
  refine ⟨?_, ⟨?_, ?_, ?_⟩, ?_, ?_⟩
  · obtain ⟨hperm, hnodup⟩ := hsound.calls_perm hreturned
    obtain ⟨hand, -, hledger⟩ := hsound.ledger
    obtain ⟨free, hsplits⟩ := hledger.owned
    refine ⟨pool.queued.reverse, hsplits.queueStack, fun n hn => ?_⟩
    obtain ⟨hfinished, hqueued, hdisjoint⟩ := List.nodup_append.mp (hperm.nodup_iff.mp hnodup)
    rw [List.map_reverse, List.mem_reverse, List.count_reverse]
    rcases List.mem_append.mp (hperm.mem_iff.mp hn) with hran | hwaits
    · exact .inl ⟨List.count_eq_one_of_mem hfinished hran, fun hwaits => hdisjoint n hran n hwaits rfl⟩
    · exact .inr ⟨fun hran => hdisjoint n hran n hwaits rfl, List.count_eq_one_of_mem hqueued hwaits⟩
  · obtain ⟨hand, -, hledger⟩ := hsound.ledger
    exact hledger.inOrder _ (List.prefix_refl _)
  · refine hreturned.executes h fun move hmove change hedit => ?_
    have hmine := hshared move hmove
    rw [hedit] at hmine
    cases hmine
  · intro i hi request
    exact hreturned.does hsound ((length_stages_run x threads moves).symm ▸ hi) request
  · have hcapped : c.capped = (start x threads).capped + _ := capped_foldl (sound_create h threads) moves
    rw [capped_start h, Nat.zero_add, hreturned.capped_eq] at hcapped
    exact hcapped
  · rcases guarded_or_stale h threads moves with hguarded | ⟨past, ⟨i, move⟩, rest, rfl, hgives, hsince⟩
    · rcases hguarded.free hreturned.1 with hempty | ⟨stage, hstage, hwatching⟩
      · exact .inl hempty
      · rw [hreturned.2 stage hstage] at hwatching
        cases hwatching
    · have hmove := hshared (i, move) (by simp)
      cases move with
      | go => exact .inr ⟨past, i, rest, rfl, by simpa [givesUp] using hgives, hsince⟩
      | ask request =>
        cases request with
        | leave => cases hmove
        | take | fill | drop | submit | edit | enter => cases hgives

/-- While the one action is run that a drain is to run, another is submitted: the drain is capped, and the other
action stays in the queue.  Only the line of the first one is in the journal. -/
theorem none_stranded_capped : ∃ x : Actor Journal.Lines Journal.Entry, Actor.create [] 2 1 = .ok x ∧
    ∃ moves : List (Nat × Move Journal.Lines Journal.Entry), (run x 2 moves).Returned ∧
      0 ∈ (run x 2 moves).finished ∧ 1 ∈ (run x 2 moves).calls ∧ 1 ∉ (run x 2 moves).finished ∧
      (run x 2 moves).ledger.actor.state = ["7"] ∧ (run x 2 moves).ledger.Executes [] ∧
      (run x 2 moves).ledger.actor.capHits = (start x 2).capReports moves ∧
      ∃ past i rest, moves = past ++ (i, .go) :: rest ∧ (run x 2 past).reportsCap i .go = true := by
  have hx : Actor.create (A := Journal.Entry) [] 2 1 = .ok _ := rfl
  obtain ⟨moves, hmoves⟩ : ∃ moves : List (Nat × Move Journal.Lines Journal.Entry), moves =
      [(0, .ask .take), (0, .ask (.fill 0 (.mk 7 []))), (1, .ask .take), (1, .ask (.fill 0 (.mk 8 []))),
        (0, .ask (.submit 1)), (0, .go), (0, .go), (0, .go), (1, .ask (.submit 0)), (1, .go), (0, .go), (0, .go),
        (0, .go), (0, .go), (0, .go), (0, .go)] := ⟨_, rfl⟩
  have hshared : ∀ move ∈ moves, move.2.isExclusive = false := by
    rw [hmoves]
    simp [Move.isExclusive]
  have hidle : ∀ stage ∈ ([.idle, .idle] : List (Stage Journal.Entry)), stage = .idle := by simp
  obtain ⟨-, ⟨-, hexecutes, -⟩, hhits, hend⟩ :=
    none_stranded hx 2 moves hshared (by rw [hmoves]; exact ⟨rfl, hidle⟩)
  refine ⟨_, hx, moves, by rw [hmoves]; exact ⟨rfl, hidle⟩, by rw [hmoves]; decide, by rw [hmoves]; decide,
    by rw [hmoves]; decide, by rw [hmoves]; with_unfolding_all rfl, hexecutes, hhits, ?_⟩
  rcases hend with hempty | ⟨past, i, rest, heq, hreports, -⟩
  · rw [hmoves] at hempty
    cases hempty
  · exact ⟨past, i, rest, heq, hreports⟩

end Crew

end WindowedMetrics
