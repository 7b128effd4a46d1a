import WindowedMetrics.Proofs.Actor.Alone

/-!
# The pace of a drain

Other threads fill the queue while the holder of the lock empties it, so a drain may be far from its end after
any number of steps of all threads.  `Crew.Comes` says that a thread which goes on again and again comes to
something, whatever moves of others come in between; `Crew.At` is what these others leave alone while the thread
is at its task.

A thread comes to the end of a script (`Crew.At.comes_slot`), of the slots taken from the queue
(`Crew.At.comes_run`) and of a drain, after less than its limit and the size of the pool in actions
(`Crew.At.comes_drain`).
-/

namespace WindowedMetrics

open Deed

variable {S A : Type} [Action S A]

/-- What is through at once runs nothing. -/
theorem Client.ranIn_act (c : Client S A) {request : Request S A} (hrequest : request.isServed = true) :
    ranIn (c.act request).ledger.deeds = ranIn c.ledger.deeds := by
  cases request with
  | take => rfl
  | fill place a =>
    unfold act
    dsimp only
    cases c.held[place]? <;> rfl
  | drop place =>
    unfold act
    dsimp only
    cases c.held[place]? with
    | none => rfl
    | some x => simp [Ledger.discard, Ledger.note, ran?]
  | edit change =>
    unfold act
    dsimp only
    split <;> rfl
  | submit | enter | leave => cases hrequest

namespace Crew

/-! ### Endless schedules -/

/-- The crew after so many moves of an endless schedule. -/
def follow (c : Crew S A) (schedule : Nat → Nat × Move S A) : Nat → Crew S A
  | 0 => c
  | n + 1 => (c.act (schedule 0).1 (schedule 0).2).follow (fun k => schedule (k + 1)) n

omit [Action S A] in
/-- A thread goes on again and again. -/
def Persists (schedule : Nat → Nat × Move S A) (i : Nat) : Prop := ∀ n, ∃ m, n ≤ m ∧ schedule m = (i, .go)

/-- If a thread goes on again and again, the crew comes to something, whatever others do in between. -/
def Comes (i : Nat) (goal : Crew S A → Prop) (c : Crew S A) : Prop :=
  ∀ schedule, Persists schedule i → ∃ n, goal (c.follow schedule n)

variable {c d : Crew S A} {i j size : Nat} {goal : Crew S A → Prop}

omit [Action S A] in
theorem Persists.tail {schedule : Nat → Nat × Move S A} (h : Persists schedule i) :
    Persists (fun k => schedule (k + 1)) i := by
  intro n
  obtain ⟨m, hm, hturn⟩ := h (n + 1)
  refine ⟨m - 1, by omega, ?_⟩
  show schedule (m - 1 + 1) = _
  rwa [Nat.sub_add_cancel (by omega)]

theorem comes_of_goal (h : goal c) : c.Comes i goal := fun _ _ => ⟨0, h⟩

/-- Others leave something alone until the thread goes on, and it comes to its goal from there. -/
theorem comes_of_go {P : Crew S A → Prop} (h : P c)
    (hother : ∀ c j move, P c → (j, move) ≠ (i, Move.go) → P (c.act j move))
    (hgo : ∀ c, P c → (c.go i).Comes i goal) : c.Comes i goal := by
  intro schedule hschedule
  obtain ⟨m, -, hm⟩ := hschedule 0
  induction m generalizing c schedule with
  | zero =>
    obtain ⟨n, hn⟩ := hgo c h _ hschedule.tail
    refine ⟨n + 1, ?_⟩
    rw [follow, hm]
    exact hn
  | succ m ih =>
    by_cases hfirst : schedule 0 = (i, .go)
    · obtain ⟨n, hn⟩ := hgo c h _ hschedule.tail
      refine ⟨n + 1, ?_⟩
      rw [follow, hfirst]
      exact hn
    · obtain ⟨n, hn⟩ := ih (hother c _ _ h hfirst) _ hschedule.tail hm
      exact ⟨n + 1, hn⟩

/-! ### The holder of the lock -/

omit [Action S A] in
/-- Who has the lock is in a call that holds it. -/
def Seated (c : Crew S A) : Prop := ∀ i task, c.holder = some (i, task) → c.stages[i]? = some .holding

omit [Action S A] in
/-- The stage of the holder of the lock stays, if it is that of another thread that changes. -/
theorem holding_setStage (h : c.stages[i]? = some .holding) {stage : Stage A} (hget : c.stages[j]? = some stage)
    (hstage : stage ≠ .holding) (stage' : Stage A) : (c.setStage j stage').stages[i]? = some .holding := by
  refine (List.getElem?_set_ne ?_).trans h
  rintro rfl
  exact hstage (Option.some.inj (hget.symm.trans h))

theorem Seated.turn {move : Move S A} (h : c.Seated) (hturn : c.Turn j move d) : d.Seated := by
  intro i task hholder
  cases hturn with
  | stay | serve => exact h i task hholder
  | giveWay stage hget hstage =>
    exact holding_setStage (h i task hholder) hget (by rcases hstage with rfl | rfl <;> simp) _
  | grab _ hget | grabWaiting _ _ hget | grabEntering hget =>
    obtain ⟨rfl, -⟩ := Prod.mk.inj (Option.some.inj hholder)
    exact getElem?_set_of_getElem? hget _
  | report hget | turnAway hget | lookAgain hget | submit hget | count hget | enter hget =>
    exact holding_setStage (h i task hholder) hget (by simp) _
  | work _ hget _ hbusy =>
    rw [work_of_isBusy _ _ hbusy] at hholder ⊢
    obtain ⟨rfl, -⟩ := Prod.mk.inj (Option.some.inj hholder)
    exact hget
  | submitInside _ hown => exact h i task hholder
  | unlock | leave => cases hholder

theorem seated_run (x : Actor S A) (threads : Nat) (moves : List (Nat × Move S A)) :
    (run x threads moves).Seated := by
  induction moves using List.reverseRecOn with
  | nil => exact fun i task hholder => nomatch hholder
  | append_singleton moves move ih =>
    rw [run_concat]
    exact ih.turn (turn_act _ _ _)

/-- A thread has the lock and is at a task, with these slots still to be run, after so many actions have run from
their slots. -/
structure At (c : Crew S A) (size i : Nat) (task : Task S A) (hand : List Nat) (begun : Nat) : Prop where
  sound : c.Sound size
  stage : c.stages[i]? = some .holding
  holder : c.holder = some (i, task)
  stack : c.ledger.actor.pool.Stack task.cursor hand
  begun : (ranIn c.ledger.deeds).length = begun

namespace At

variable {task task' : Task S A} {hand hand' : List Nat} {begun begun' : Nat} {w : Ledger S A} {aim : Aim A}
  {ran : Nat}

theorem ledger (h : c.At size i task hand begun) :
    c.ledger.Sound (task.moment hand c.hands c.waiting.length) := by
  obtain ⟨hand', hstack, hledger⟩ := h.sound.ledger
  have htask : c.task = task := task_of_some h.holder
  rw [htask] at hstack
  rw [moment, htask] at hledger
  exact h.stack.unique hstack ▸ hledger

/-- **What others do** leaves the holder of the lock at its task. -/
theorem other {move : Move S A} (h : c.At size i task hand begun) (hbusy : task.isBusy = true)
    (hmove : (j, move) ≠ (i, Move.go)) : (c.act j move).At size i task hand begun := by
  have hmoment : c.ledger.Sound (c.moment hand) := by
    rw [moment, task_of_some h.holder]
    exact h.ledger
  have hlocked : c.ledger.actor.locked ≠ false := by simp [h.sound.locked, h.holder]
  have hown : ∀ {k task'}, c.holder = some (k, task') → k = i ∧ task' = task := fun hholder =>
    Prod.mk.inj (Option.some.inj (hholder.symm.trans h.holder))
  have hsound := h.sound.act j move
  have hturn := c.turn_act j move
  generalize c.act j move = d at hsound hturn ⊢
  cases hturn with
  | stay => exact h
  | giveWay stage hget hstage =>
    have hne : stage ≠ .holding := by rcases hstage with rfl | rfl <;> simp
    exact ⟨hsound, holding_setStage h.stage hget hne _, h.holder, h.stack, h.begun⟩
  | report hget | turnAway hget | lookAgain hget | count hget | enter hget =>
    exact ⟨hsound, holding_setStage h.stage hget (by simp) _, h.holder, h.stack, h.begun⟩
  | grab _ _ _ hfree | grabWaiting _ _ _ hfree | grabEntering _ hfree => exact absurd hfree hlocked
  | work _ _ hholder | unlock _ _ hholder =>
    obtain ⟨rfl, -⟩ := hown hholder
    exact absurd rfl hmove
  | serve request hrequest =>
    refine ⟨hsound, h.stage, h.holder, stack_serve hmoment h.stack hrequest, ?_⟩
    exact (congrArg List.length (Client.ranIn_act ⟨c.ledger, c.held⟩ hrequest)).trans h.begun
  | submit hget hx =>
    refine ⟨hsound, holding_setStage h.stage hget (by simp) _, h.holder, stack_queue hmoment h.stack hx, ?_⟩
    simpa [setStage, queue, Ledger.schedule, Ledger.note, ran?] using h.begun
  | submitInside _ hholder | leave _ hholder =>
    obtain ⟨-, rfl⟩ := hown hholder
    cases hbusy

/-- The holder of the lock goes on. -/
theorem on (h : c.At size i task hand begun) (hbusy : task.isBusy = true)
    (hstep : task.step c.ledger = (task', w)) (hstack : w.actor.pool.Stack task'.cursor hand')
    (hbegun : (ranIn w.deeds).length = begun') : (c.go i).At size i task' hand' begun' := by
  have hsound := h.sound.go i
  rw [go_holding h.stage h.holder, work_of_isBusy c i hbusy, hstep] at hsound ⊢
  exact ⟨hsound, h.stage, rfl, hstack, hbegun⟩

/-- To come to a goal it is enough to come there from the next task. -/
theorem comes (h : c.At size i task hand begun) (hbusy : task.isBusy = true)
    (hgo : ∀ c : Crew S A, c.At size i task hand begun → (c.go i).Comes i goal) : c.Comes i goal :=
  comes_of_go (P := fun c => c.At size i task hand begun) h (fun _ _ _ hc hmove => hc.other hbusy hmove) hgo

/-- The action in a slot comes to its end. -/
theorem comes_slot {next : Option Nat} {slot : Nat} {spent : A}
    (hrun : ∀ d : Crew S A, d.At size i (.run aim ran next) hand begun → d.Comes i goal)
    (script : Script S A) (held : List (Numbered A)) :
    ∀ c : Crew S A, c.At size i (.slot aim ran next slot spent script held) hand begun → c.Comes i goal := by
  refine Ledger.induction_script (P := fun script held => ∀ c : Crew S A,
    c.At size i (.slot aim ran next slot spent script held) hand begun → c.Comes i goal) ?_ ?_ script held
  · intro c h
    refine h.comes rfl fun c h => hrun _ (h.on rfl rfl ?_ h.begun)
    exact h.ledger.stack_recycle rfl h.stack
  · intro script held hover ih c h
    refine h.comes rfl fun c h => ih c.ledger _ (h.on rfl (Task.step_slot _ _ _ _ _ _ hover) ?_ ?_)
    · exact h.ledger.stack_stepScript rfl h.stack
    · rw [Ledger.ranIn_stepScript]
      exact h.begun

/-- The slots taken from the queue come to be run. -/
theorem comes_run {cursor : Option Nat} (h : c.At size i (.run aim ran cursor) hand begun)
    (hdone : ∀ d : Crew S A, d.At size i (.run aim (ran + hand.length) none) [] (begun + hand.length) →
      d.Comes i goal) : c.Comes i goal := by
  induction hand generalizing c ran cursor begun with
  | nil =>
    obtain rfl := h.stack.top_eq_none_iff.mpr rfl
    exact hdone c h
  | cons slot hand ih =>
    refine h.comes rfl fun c h => ?_
    have hstack := h.stack
    cases hstack with
    | slot _ _ hslot hnext =>
      have hbegun : (ranIn (c.ledger.note (.ran (c.ledger.owner slot) (c.ledger.actor.content slot))).deeds).length =
          begun + 1 := by
        simpa [Ledger.note, ran?] using h.begun
      refine comes_slot (fun d hd => ih hd fun e he => ?_) _ _ _ (h.on rfl rfl hnext hbegun)
      rw [Nat.add_assoc, Nat.add_assoc, Nat.add_comm 1] at he
      exact hdone e he

/-- **A drain comes to its end**, after less than its limit and the size of the pool in actions. -/
theorem comes_drain (h : c.At size i (.take aim ran) [] begun) (hran : ran ≤ aim.limit - 1)
    (hdone : ∀ (d : Crew S A) (total begun' : Nat), total ≤ aim.limit - 1 + size → begun' + ran = begun + total →
      d.At size i (.test aim total) [] begun' → d.Comes i goal) : c.Comes i goal := by
  induction hm : aim.limit - ran using Nat.strongRecOn generalizing c ran begun with
  | _ m ih =>
    subst hm
    refine h.comes rfl fun c h => ?_
    cases hq : c.ledger.actor.pool.takeQueue with
    | none =>
      have htest : (c.go i).At size i (.test aim ran) [] begun :=
        h.on rfl (by simp only [Task.step, hq]) .bottom h.begun
      exact hdone _ ran begun (hran.trans (Nat.le_add_right ..)) rfl htest
    | some taken =>
      obtain ⟨slots, pool⟩ := taken
      have hpos := List.length_pos_iff.2 (SlotPool.takeQueue_ne_nil hq)
      have hle : slots.length ≤ size := h.sound.size ▸ h.ledger.length_takeQueue_le hq
      have htake : (Task.take aim ran).step c.ledger =
          (.run aim ran slots.head?, { c.ledger with actor := { c.ledger.actor with pool } }) := by
        simp only [Task.step, hq]
      have hrun := h.on rfl htake (h.ledger.owned.stack_takeQueue hq) h.begun
      refine hrun.comes_run fun d hd => hd.comes rfl fun d hd => ?_
      by_cases hlimit : aim.limit ≤ ran + slots.length
      · have htest : (d.go i).At size i (.test aim (ran + slots.length)) [] (begun + slots.length) :=
          hd.on rfl (by simp only [Task.step, if_pos hlimit]) .bottom hd.begun
        exact hdone _ _ _ (by omega) (by omega) htest
      · have htake : (d.go i).At size i (.take aim (ran + slots.length)) [] (begun + slots.length) :=
          hd.on rfl (by simp only [Task.step, if_neg hlimit]) .bottom hd.begun
        exact ih _ (by omega) htake (by omega) (fun e total begun' htotal hbegun => hdone e total begun' htotal
          (by omega)) rfl

end At

end Crew

end WindowedMetrics
