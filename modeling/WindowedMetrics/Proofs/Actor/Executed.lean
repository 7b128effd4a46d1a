import WindowedMetrics.Proofs.Actor.Contents

/-!
# What the actions that ran have done

Actions run one at a time, each to its end, and only actions that run change the state.  So the state is what the
actions in the ledger make of the first one when each script is run as a whole, in the order in which they began;
and whatever these scripts queue and give back is in the ledger, between the beginnings of the actions
(`Ledger.Executes`).  What other threads write down comes in between.

`Script.Yields` says what a whole script comes to; which actions it gets when it asks for some depends on what
other threads leave in the pool.  Between two steps the holder of the lock may have an action half done, and what
is left of it completes the execution (`Ledger.Executing`).  Every move keeps that (`Crew.executing_turn`).
-/

namespace WindowedMetrics

open Deed

open scoped List

variable {S A : Type}

/-! ### Whole scripts -/

/-- What a script may come to that holds some actions: what it makes of the state, and what it writes down.  It
may get any action when it asks for one. -/
inductive Script.Yields : Script S A → List (Numbered A) → S → List (Deed A) → S → Prop where
  | over {s : S} : Yields .done [] s [] s
  | giveBack {x : Numbered A} {held : List (Numbered A)} {s t : S} {deeds : List (Deed A)} :
    Yields .done held s deeds t → Yields .done (x :: held) s (.dropped x.number :: deeds) t
  | edit {change : S → S} {next : Script S A} {held : List (Numbered A)} {s t : S} {deeds : List (Deed A)} :
    next.Yields held (change s) deeds t → Yields (.edit change next) held s deeds t
  | inspect {next : S → Script S A} {held : List (Numbered A)} {s t : S} {deeds : List (Deed A)} :
    (next s).Yields held s deeds t → Yields (.inspect next) held s deeds t
  | acquire {next : Bool → Script S A} {x : Numbered A} {held : List (Numbered A)} {s t : S}
    {deeds : List (Deed A)} : (next x.handle.isOverflow).Yields (x :: held) s deeds t →
    Yields (.acquire next) held s deeds t
  | submit {place n i : Nat} {a : A} {next : Script S A} {held : List (Numbered A)} {s t : S}
    {deeds : List (Deed A)} : held[place]? = some ⟨n, .slot i⟩ →
    next.Yields (held.eraseIdx place) s deeds t → Yields (.submit place a next) held s (.queued n a :: deeds) t
  | submitOverflow {place n : Nat} {a b : A} {next : Script S A} {held : List (Numbered A)} {s t : S}
    {deeds : List (Deed A)} : held[place]? = some ⟨n, .overflow b⟩ →
    next.Yields (held.eraseIdx place) s deeds t → Yields (.submit place a next) held s (.dropped n :: deeds) t
  | submitNone {place : Nat} {a : A} {next : Script S A} {held : List (Numbered A)} {s t : S}
    {deeds : List (Deed A)} : held[place]? = none →
    next.Yields (held.eraseIdx place) s deeds t → Yields (.submit place a next) held s deeds t
  | discard {place : Nat} {x : Numbered A} {next : Script S A} {held : List (Numbered A)} {s t : S}
    {deeds : List (Deed A)} : held[place]? = some x →
    next.Yields (held.eraseIdx place) s deeds t → Yields (.discard place next) held s (.dropped x.number :: deeds) t
  | discardNone {place : Nat} {next : Script S A} {held : List (Numbered A)} {s t : S} {deeds : List (Deed A)} :
    held[place]? = none → next.Yields held s deeds t → Yields (.discard place next) held s deeds t

theorem Script.Yields.of_eq {s t : S} {deeds : List (Deed A)} (h : deeds = [] ∧ t = s) :
    Yields .done [] s deeds t := by
  obtain ⟨rfl, rfl⟩ := h
  exact .over

variable [Action S A]

/-- What actions make of a state that are run as a whole, one after the other: what they write down, and the state
they leave. -/
inductive Executed (s : S) : List (Deed A) → S → Prop where
  | nothing : Executed s [] s
  | slot {own deeds : List (Deed A)} {t u : S} {n : Nat} {a : A} : Executed s own t →
    (Action.script a).Yields [] t deeds u → Executed s (own ++ .ran n a :: deeds) u
  | overflow {own deeds : List (Deed A)} {t u : S} {n : Nat} {a : A} : Executed s own t →
    (Action.script a).Yields [] t deeds u → Executed s (own ++ .ranOverflow n a :: deeds) u

/-- What is left of the action that the holder of the lock runs. -/
def Task.Rest : Task S A → S → List (Deed A) → S → Prop
  | .slot _ _ _ _ _ script held, s, deeds, t | .overflow script held, s, deeds, t => script.Yields held s deeds t
  | _, s, deeds, t => deeds = [] ∧ t = s

namespace Ledger

/-- The state is what the actions in the ledger make of the first one, and what they write down is in it. -/
def Executes (s : S) (w : Ledger S A) : Prop :=
  ∃ own, own <+ w.deeds ∧ ranIn own = ranIn w.deeds ∧ overflowsIn own = overflowsIn w.deeds ∧
    Executed s own w.actor.state

/-- With the rest of the action that is being run, whatever it comes to, the actions in the ledger are executed. -/
def Executing (s : S) (w : Ledger S A) (task : Task S A) : Prop :=
  ∃ own, own <+ w.deeds ∧ ranIn own = ranIn w.deeds ∧ overflowsIn own = overflowsIn w.deeds ∧
    ∀ more t, task.Rest w.actor.state more t → Executed s (own ++ more) t

variable {s : S} {v w : Ledger S A} {task task' : Task S A}

/-- When no action is being run, all have been executed. -/
theorem Executing.executes (h : w.Executing s task) (hrest : task.Rest w.actor.state [] w.actor.state) :
    w.Executes s := by
  obtain ⟨own, hsub, hran, hoverflows, hown⟩ := h
  have hall := hown [] w.actor.state hrest
  rw [List.append_nil] at hall
  exact ⟨own, hsub, hran, hoverflows, hall⟩

/-- The holder of the lock goes on, and writes something down. -/
theorem Executing.goOn (h : w.Executing s task) (written : List (Deed A)) (hdeeds : v.deeds = w.deeds ++ written)
    (hrest : ∀ own, (∀ more t, task.Rest w.actor.state more t → Executed s (own ++ more) t) →
      ∀ more t, task'.Rest v.actor.state more t → Executed s (own ++ (written ++ more)) t) :
    v.Executing s task' := by
  obtain ⟨own, hsub, hran, hoverflows, hown⟩ := h
  refine ⟨own ++ written, hdeeds ▸ hsub.append_right written, ?_, ?_, fun more t hmore => ?_⟩
  · rw [hdeeds, ranIn_append, ranIn_append, hran]
  · rw [hdeeds, overflowsIn_append, overflowsIn_append, hoverflows]
  · rw [List.append_assoc]
    exact hrest own hown more t hmore

/-- The holder of the lock does something else than to run an action. -/
theorem Executing.same (h : w.Executing s task) (hdeeds : v.deeds = w.deeds)
    (hrest : ∀ more t, task'.Rest v.actor.state more t → task.Rest w.actor.state more t) : v.Executing s task' :=
  h.goOn [] (hdeeds.trans (List.append_nil _).symm) fun _ hown more t hmore => hown more t (hrest more t hmore)

/-- Other threads write down what they queue and give back. -/
theorem Executing.aside (h : w.Executing s task) (written : List (Deed A)) (hdeeds : v.deeds = w.deeds ++ written)
    (hran : ranIn written = []) (hoverflows : overflowsIn written = [])
    (hstate : v.actor.state = w.actor.state) : v.Executing s task := by
  obtain ⟨own, hsub, hownran, hownoverflows, hown⟩ := h
  refine ⟨own, hdeeds ▸ hsub.trans (List.sublist_append_left _ _), ?_, ?_, hstate ▸ hown⟩
  · rw [hdeeds, ranIn_append, hran, List.append_nil, hownran]
  · rw [hdeeds, overflowsIn_append, hoverflows, List.append_nil, hownoverflows]

/-! ### Steps -/

theorem state_acquire (w : Ledger S A) : w.acquire.2.actor.state = w.actor.state := by
  cases hpop : w.actor.pool.popFree with
  | none => rw [acquire_of_popFree_none hpop]
  | some taken => rw [acquire_of_popFree hpop]

/-- A step of a script is the beginning of the whole. -/
theorem Sound.yields_stepScript {m : Moment A} {script : Script S A} {held outer : List (Numbered A)}
    (h : w.Sound m) (hm : m.held = held ++ outer) (hfilled : w.Filled) (hover : script.isOver held = false) :
    ∃ written, (w.stepScript script held).2.2.deeds = w.deeds ++ written ∧ ∀ more t,
      (w.stepScript script held).1.Yields (w.stepScript script held).2.1
        (w.stepScript script held).2.2.actor.state more t →
      script.Yields held w.actor.state (written ++ more) t := by
  cases script with
  | done =>
    cases held with
    | nil => cases hover
    | cons x held =>
      refine ⟨[.dropped x.number], rfl, fun more t hmore => .giveBack ?_⟩
      obtain ⟨n, i | a⟩ := x <;> exact hmore
  | edit change next => exact ⟨[], (List.append_nil _).symm, fun more t hmore => .edit hmore⟩
  | inspect next => exact ⟨[], (List.append_nil _).symm, fun more t hmore => .inspect hmore⟩
  | acquire next =>
    exact ⟨[], (List.append_nil _).symm, fun more t hmore => .acquire (x := w.acquire.1) (w.state_acquire ▸ hmore)⟩
  | submit place a next =>
    rcases hx : held[place]? with _ | ⟨n, i | b⟩ <;> simp only [Ledger.stepScript, hx]
    · exact ⟨[], (List.append_nil _).symm, fun more t hmore => .submitNone hx hmore⟩
    · exact ⟨[.queued n a], h.deeds_submit hm hfilled hx a, fun more t hmore => .submit hx hmore⟩
    · exact ⟨[.dropped n], rfl, fun more t hmore => .submitOverflow hx hmore⟩
  | discard place next =>
    cases hx : held[place]? with
    | none =>
      simp only [Ledger.stepScript, hx]
      exact ⟨[], (List.append_nil _).symm, fun more t hmore => .discardNone hx hmore⟩
    | some x =>
      simp only [Ledger.stepScript, hx]
      refine ⟨[.dropped x.number], rfl, fun more t hmore => .discard hx ?_⟩
      obtain ⟨n, i | b⟩ := x <;> exact hmore

/-- A step of a script goes on with the execution, if the task goes on with the script. -/
theorem Executing.stepScript {m : Moment A} {script : Script S A} {held outer : List (Numbered A)}
    (h : w.Executing s task) (hsound : w.Sound m) (hm : m.held = held ++ outer) (hfilled : w.Filled)
    (hover : script.isOver held = false)
    (hold : ∀ u more t, script.Yields held u more t → task.Rest u more t)
    (hnew : ∀ u more t, task'.Rest u more t →
      (w.stepScript script held).1.Yields (w.stepScript script held).2.1 u more t) :
    (w.stepScript script held).2.2.Executing s task' := by
  obtain ⟨written, hdeeds, hyields⟩ := hsound.yields_stepScript hm hfilled hover
  refine h.goOn written hdeeds fun own hown more t hmore => ?_
  exact hown _ t (hold _ _ t (hyields more t (hnew _ more t hmore)))

/-- **A step of the holder of the lock** goes on with the execution. -/
theorem Executing.step {m : Moment A} {outer : List (Numbered A)} (h : w.Executing s task) (hsound : w.Sound m)
    (hm : m.held = task.held ++ outer) (hfilled : w.Filled) : (task.step w).2.Executing s (task.step w).1 := by
  cases task with
  | take aim ran => cases hq : w.actor.pool.takeQueue <;> simp only [Task.step, hq] <;> exact h.same rfl fun _ _ => id
  | run aim ran cursor =>
    cases cursor with
    | none =>
      simp only [Task.step]
      split <;> exact h.same rfl fun _ _ => id
    | some i =>
      refine h.goOn [.ran (w.owner i) (w.actor.content i)] rfl fun own hown more t hmore => ?_
      have hbefore := hown [] w.actor.state ⟨rfl, rfl⟩
      rw [List.append_nil] at hbefore
      exact hbefore.slot hmore
  | slot aim ran next i spent script held =>
    cases hover : script.isOver held with
    | true =>
      obtain ⟨rfl, rfl⟩ := Script.eq_of_isOver hover
      exact h.same rfl fun more t hmore => .of_eq hmore
    | false =>
      rw [Task.step_slot w aim ran next i spent hover]
      exact h.stepScript hsound hm hfilled hover (fun _ _ _ => id) fun _ _ _ => id
  | test aim ran => cases aim <;> exact h.same rfl fun _ _ => id
  | begin number content =>
    refine h.goOn [.ranOverflow number content] rfl fun own hown more t hmore => ?_
    have hbefore := hown [] w.actor.state ⟨rfl, rfl⟩
    rw [List.append_nil] at hbefore
    exact hbefore.overflow hmore
  | overflow script held =>
    cases hover : script.isOver held with
    | true =>
      obtain ⟨rfl, rfl⟩ := Script.eq_of_isOver hover
      exact h.same rfl fun more t hmore => .of_eq hmore
    | false =>
      rw [Task.step_overflow w hover]
      exact h.stepScript hsound hm hfilled hover (fun _ _ _ => id) fun _ _ _ => id
  | access | unlock => exact h

end Ledger

/-! ### Moves of threads -/

/-- What a thread does without the lock runs nothing. -/
theorem Client.executing_act {s : S} {task : Task S A} (c : Client S A) {request : Request S A}
    (h : c.ledger.Executing s task) (hserved : request.isServed = true) (hedit : ∀ change, request ≠ .edit change) :
    (c.act request).ledger.Executing s task := by
  cases request with
  | take => exact h.same rfl fun more t hmore => c.ledger.state_acquire ▸ hmore
  | fill place a =>
    unfold act
    dsimp only
    rcases c.held[place]? with _ | ⟨n, i | b⟩
    · exact h
    · exact h.same rfl fun _ _ => id
    · exact h.same rfl fun _ _ => id
  | drop place =>
    unfold act
    dsimp only
    rcases c.held[place]? with _ | ⟨n, i | b⟩
    · exact h
    · exact h.aside [.dropped n] rfl rfl rfl rfl
    · exact h.aside [.dropped n] rfl rfl rfl rfl
  | edit change => exact absurd rfl (hedit change)
  | submit | enter | leave => cases hserved

namespace Crew

variable {c d : Crew S A} {i size : Nat} {move : Move S A} {s : S}

/-- **Every move goes on with the execution**, unless a thread with exclusive access edits the state. -/
theorem executing_turn (h : c.ledger.Executing s c.task) (hsound : c.Sound size) (hfilled : c.ledger.Filled)
    (hedit : ∀ change, move ≠ .ask (.edit change)) (hturn : c.Turn i move d) : d.ledger.Executing s d.task := by
  -- a thread that gets the lock finds no action half done
  have hgrab : ∀ aim : Aim A, c.ledger.actor.locked = false →
      (c.grab i (.take aim 0)).ledger.Executing s (c.grab i (.take aim 0)).task := by
    intro aim hfree
    rw [task_of_none (hsound.holder_eq_none hfree)] at h
    exact h.same rfl fun _ _ => id
  cases hturn with
  | stay | giveWay | turnAway | lookAgain | enter => exact h
  | report | count => exact h.same rfl fun _ _ => id
  | grab stage hget hstage hfree => exact hgrab _ hfree
  | grabWaiting number content hget hfree => exact hgrab _ hfree
  | grabEntering hget hfree => exact hgrab _ hfree
  | work task hget hholder hbusy =>
    have htask : c.task = task := task_of_some hholder
    obtain ⟨hand, -, hledger⟩ := hsound.ledger
    rw [htask] at h
    rw [moment, htask] at hledger
    rw [work_of_isBusy c i hbusy]
    exact h.step hledger rfl hfilled
  | unlock capped hget hholder =>
    rw [task_of_some hholder] at h
    exact h.same rfl fun _ _ => id
  | serve request hserved =>
    exact Client.executing_act ⟨c.ledger, c.held⟩ h hserved fun change hrequest => hedit change (congrArg _ hrequest)
  | submit | submitInside => exact h.aside [.queued _ _] rfl rfl rfl rfl
  | leave hget hholder =>
    rw [task_of_some hholder] at h
    exact h.same rfl fun _ _ => id

theorem executing_run {state : S} {poolSize batchSize : Nat} {x : Actor S A}
    (h : Actor.create state poolSize batchSize = .ok x) (threads : Nat) (moves : List (Nat × Move S A))
    (hedit : ∀ move ∈ moves, ∀ change, move.2 ≠ .ask (.edit change)) :
    (run x threads moves).ledger.Executing state (run x threads moves).task := by
  induction moves using List.reverseRecOn with
  | nil =>
    obtain rfl := Actor.eq_of_create h
    refine ⟨[], .slnil, rfl, rfl, fun more t hmore => ?_⟩
    obtain ⟨rfl, rfl⟩ := hmore
    exact .nothing
  | append_singleton moves move ih =>
    rw [run_concat]
    exact executing_turn (ih fun past hpast => hedit past (List.mem_append_left _ hpast))
      (sound_run h threads moves) (filled_run h threads moves) (hedit move (by simp)) (turn_act _ _ _)

/-- **The actions that ran have been executed**, when all calls have returned. -/
theorem Returned.executes {state : S} {poolSize batchSize : Nat} {x : Actor S A}
    (h : Actor.create state poolSize batchSize = .ok x) {threads : Nat} {moves : List (Nat × Move S A)}
    (hreturned : (run x threads moves).Returned) (hedit : ∀ move ∈ moves, ∀ change, move.2 ≠ .ask (.edit change)) :
    (run x threads moves).ledger.Executes state := by
  have hrun := executing_run h threads moves hedit
  rw [task_of_none hreturned.1] at hrun
  exact hrun.executes ⟨rfl, rfl⟩

end Crew

end WindowedMetrics
