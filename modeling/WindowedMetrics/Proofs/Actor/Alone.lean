import Mathlib.Logic.Relation
import WindowedMetrics.Proofs.Actor.Custody
import WindowedMetrics.Proofs.Actor.Rounds

/-!
# One thread alone

A thread whose steps nobody else interrupts does what its requests do to the actor: the steps of each request,
taken in a row, come to the request itself (`Crew.Between.does`, `Crew.run_alone`).

A script is run step by step (`Task.leads_script`), slots along their links (`Task.leads_run`), and a drain
queue by queue (`Task.leads_drain`).
-/

namespace WindowedMetrics

open Relation (ReflTransGen)

variable {S A : Type} [Action S A]

/-! ### Scripts -/

/-- The slots still to be run stay linked in their order while an action runs. -/
theorem Ledger.Sound.stack_runScript {outer : List (Numbered A)} {cursor : Option Nat} {hand : List Nat}
    (script : Script S A) (held : List (Numbered A)) (w : Ledger S A) :
    ∀ m : Moment A, w.Sound m → m.held = held ++ outer → m.hand = hand →
      w.actor.pool.Stack cursor hand → (w.runScript script held).actor.pool.Stack cursor hand := by
  refine Ledger.induction_stepScript (P := fun script held w => ∀ m : Moment A, w.Sound m →
    m.held = held ++ outer → m.hand = hand → w.actor.pool.Stack cursor hand →
    (w.runScript script held).actor.pool.Stack cursor hand) ?_ ?_ script held w
  · intro w m _ _ _ hstack
    exact hstack
  · intro script held w _ ih m h hm hhand hstack
    rw [← Ledger.runScript_step]
    exact ih _ (h.stepScript hm) rfl hhand (hhand ▸ h.stack_stepScript hm (hhand.symm ▸ hstack))

namespace Task

/-- What the steps of the holder of the lock lead to. -/
def Leads : Task S A × Ledger S A → Task S A × Ledger S A → Prop :=
  ReflTransGen fun p q => p.1.isBusy = true ∧ p.1.step p.2 = q

/-- The steps of a script run it, if the task goes on with it. -/
theorem leads_script (task : Script S A → List (Numbered A) → Task S A)
    (hbusy : ∀ script held, (task script held).isBusy = true)
    (hstep : ∀ script held w, script.isOver held = false → (task script held).step w =
      (task (w.stepScript script held).1 (w.stepScript script held).2.1, (w.stepScript script held).2.2))
    (script : Script S A) (held : List (Numbered A)) (w : Ledger S A) :
    Leads (task script held, w) (task .done [], w.runScript script held) := by
  refine Ledger.induction_stepScript (P := fun script held w =>
    Leads (task script held, w) (task .done [], w.runScript script held)) ?_ ?_ script held w
  · exact fun w => .refl
  · intro script held w hover hrest
    rw [Ledger.runScript_step] at hrest
    exact .head ⟨hbusy script held, hstep script held w hover⟩ hrest

variable {held : List (Numbered A)} {waiting : Nat}

/-- The steps along the links run the slots in their order. -/
theorem leads_run (aim : Aim A) {ran : Nat} {cursor : Option Nat} {hand : List Nat} {w : Ledger S A}
    (h : w.Sound { held, hand, waiting, unbooked := ran }) (hstack : w.actor.pool.Stack cursor hand) :
    Leads (.run aim ran cursor, w) (.run aim (ran + hand.length) none, w.runSlots hand) := by
  induction hand generalizing ran cursor w with
  | nil =>
    cases hstack
    exact .refl
  | cons i hand ih =>
    cases hstack with
    | slot _ _ hi hnext =>
      have hscript := leads_script
        (Task.slot aim (ran + 1) (w.actor.pool.link i) i (Action.spent (w.actor.content i)))
        (fun _ _ => rfl) (fun _ _ v hover => step_slot v aim (ran + 1) _ i _ hover)
        (Action.script (w.actor.content i)) [] (w.note (.ran (w.owner i) (w.actor.content i)))
      have hran := (h.begin rfl rfl).runScript (Action.script (w.actor.content i)) (List.nil_append _).symm
      have hlinked := Ledger.Sound.stack_runScript (Action.script (w.actor.content i)) []
        (w.note (.ran (w.owner i) (w.actor.content i))) _ (h.begin rfl rfl) (List.nil_append _).symm rfl hnext
      have hrest := ih h.runSlot (hran.stack_recycle rfl hlinked)
      rw [Nat.add_assoc, Nat.add_comm 1] at hrest
      exact .head ⟨rfl, rfl⟩ (hscript.trans (.head ⟨rfl, rfl⟩ hrest))

/-- The steps of a drain run round after round. -/
theorem leads_drain (aim : Aim A) {ran : Nat} {w : Ledger S A}
    (h : w.Sound { held, waiting, unbooked := ran }) :
    ∃ n total, w.Drained aim.limit ran n total ∧ Leads (.take aim ran, w) (.test aim total, w.rounds n) := by
  induction hm : aim.limit - ran using Nat.strongRecOn generalizing w ran with
  | _ m ih =>
    subst hm
    cases hq : w.actor.pool.takeQueue with
    | none => exact ⟨0, ran, .empty hq, .single ⟨rfl, by simp only [step, hq]; rfl⟩⟩
    | some taken =>
      obtain ⟨slots, pool⟩ := taken
      have hpos := List.length_pos_iff.2 (SlotPool.takeQueue_ne_nil hq)
      have htake : Leads (.take aim ran, w)
          (.run aim ran slots.head?, { w with actor := { w.actor with pool } }) :=
        .single ⟨rfl, by simp only [step, hq]⟩
      have hrun := htake.trans (leads_run aim (h.takeQueue rfl hq) (h.owned.stack_takeQueue hq))
      have hslots : (Ledger.runSlots { w with actor := { w.actor with pool } } slots).Sound
          { held, waiting, unbooked := ran + slots.length } := (h.takeQueue rfl hq).runSlots
      rw [← Ledger.round_of_takeQueue_some hq] at hrun hslots
      by_cases hle : aim.limit ≤ ran + slots.length
      · refine ⟨1, ran + slots.length, .last h hq hle, hrun.tail ⟨rfl, ?_⟩⟩
        simp only [step, if_pos hle]
        rfl
      · obtain ⟨n, total, hdrained, hrest⟩ := ih _ (by omega) hslots rfl
        refine ⟨n + 1, total, .more hq hle hdrained, (hrun.tail ⟨rfl, ?_⟩).trans hrest⟩
        simp only [step, if_neg hle]

end Task

namespace Crew

/-- What a thread comes to that goes on with its call. -/
def Goes (i : Nat) : Crew S A → Crew S A → Prop := ReflTransGen fun c d => c.go i = d

/-- A thread that can make a request, and nobody else has the lock. -/
inductive Between (c : Crew S A) (i : Nat) : Prop
  | outside : c.holder = none → c.ledger.actor.locked = false → c.stages[i]? = some .idle → c.Between i
  | inside : c.holder = some (i, .access) → c.ledger.actor.locked = true →
    c.stages[i]? = some .holding → c.Between i

variable {c d : Crew S A} {i : Nat} {task task' : Task S A} {w : Ledger S A} {size : Nat}

theorem go_holding (hstage : c.stages[i]? = some .holding) (hholder : c.holder = some (i, task)) :
    c.go i = c.work i task := by
  simp [go, hstage, hholder]

theorem Sound.goes (h : c.Sound size) (hgoes : Goes i c d) : d.Sound size := by
  induction hgoes with
  | refl => exact h
  | tail _ hstep ih => exact hstep ▸ ih.go i

/-- A drain that is about to take the queue has no slots in hand. -/
theorem Sound.ledger_of_take {aim : Aim A} {ran : Nat} (h : c.Sound size)
    (hholder : c.holder = some (i, .take aim ran)) :
    ∃ held waiting, c.ledger.Sound { held, waiting, unbooked := ran } := by
  have htask : c.task = .take aim ran := task_of_some hholder
  obtain ⟨hand, hstack, hledger⟩ := h.ledger
  rw [htask] at hstack
  rw [moment, htask] at hledger
  cases hstack
  exact ⟨_, _, hledger⟩

/-- The holder of the lock drains the queue. -/
theorem Sound.leads_drain {aim : Aim A} (h : c.Sound size) (hholder : c.holder = some (i, .take aim 0)) :
    ∃ n ran, c.ledger.Drained aim.limit 0 n ran ∧
      Task.Leads (.take aim 0, c.ledger) (.test aim ran, c.ledger.rounds n) := by
  obtain ⟨held, waiting, hledger⟩ := h.ledger_of_take hholder
  exact Task.leads_drain aim hledger

theorem goes_of_leads (hstage : c.stages[i]? = some .holding) (hholder : c.holder = some (i, task))
    (h : Task.Leads (task, c.ledger) (task', w)) :
    ∃ calls, Goes i c { c with ledger := w, holder := some (i, task'), calls } := by
  obtain ⟨p, hp⟩ : ∃ p, p = (task', w) := ⟨_, rfl⟩
  rw [← hp] at h
  suffices hgoes : ∃ calls, Goes i c { c with ledger := p.2, holder := some (i, p.1), calls } by
    rw [hp] at hgoes
    exact hgoes
  clear hp
  induction h with
  | refl =>
    refine ⟨c.calls, ?_⟩
    rw [← hholder]
    exact .refl
  | tail _ hstep ih =>
    rename_i p q _
    obtain ⟨calls, hgoes⟩ := ih
    obtain ⟨hbusy, rfl⟩ := hstep
    refine ⟨calls ++ p.1.submits?.toList, hgoes.tail ?_⟩
    rw [go_holding (by exact hstage) rfl, work_of_isBusy _ _ hbusy]

omit [Action S A] in
theorem getElem?_set_of_getElem? {stage : Stage A} (h : c.stages[i]? = some stage) (stage' : Stage A) :
    (c.stages.set i stage')[i]? = some stage' :=
  List.getElem?_set_self (List.getElem?_eq_some_iff.mp h).1

/-- A drain with a limit, the release of the lock and what follows it. -/
theorem goes_release {limit : Nat} (h : c.Sound size) (hstage : c.stages[i]? = some .holding)
    (hholder : c.holder = some (i, .take (.release limit) 0)) :
    ∃ d, Goes i c d ∧ d.Between i ∧ d.held = c.held ∧
      d.ledger = (c.ledger.drain limit 0).2.release (c.ledger.drain limit 0).1 := by
  obtain ⟨n, ran, hdrained, hleads⟩ := h.leads_drain hholder
  have hend := hdrained.ended
  have hempty := c.ledger.actor.queueEmpty_of_drain limit 0
  rw [← Ledger.drain_eq] at hempty
  change (c.ledger.rounds n).endDrain limit ran = c.ledger.drain limit 0 at hend
  generalize c.ledger.drain limit 0 = out at hend hempty ⊢
  obtain ⟨capped, v⟩ := out
  have hunlock : (Task.test (.release limit) ran).step (c.ledger.rounds n) = (.unlock capped, v) := by
    simp [Task.step, Aim.limit, hend]
  obtain ⟨calls, hgoes⟩ := goes_of_leads hstage hholder (hleads.tail ⟨rfl, hunlock⟩)
  have hset := getElem?_set_of_getElem? hstage
  refine ⟨_, hgoes.trans (.head (go_holding hstage rfl) (.single rfl)), ?_⟩
  cases capped with
  | true =>
    have hgo : (({ c with ledger := v, holder := some (i, .unlock true), calls } : Crew S A).work i
        (.unlock true)).go i =
        { c with ledger := v.release true, stages := c.stages.set i .idle, holder := none, calls } := by
      simp [go, work, unlock, setStage, hset, Ledger.release, Actor.release]
    rw [hgo]
    exact ⟨.outside rfl rfl (hset .idle), rfl, rfl⟩
  | false =>
    have hgo : (({ c with ledger := v, holder := some (i, .unlock false), calls } : Crew S A).work i
        (.unlock false)).go i =
        { c with ledger := v.release false, stages := c.stages.set i .idle, holder := none, calls } := by
      have hqueue : v.actor.pool.queueEmpty = true := hempty rfl
      simp [go, work, unlock, setStage, hset, Ledger.release, Actor.release, hqueue]
    rw [hgo]
    exact ⟨.outside rfl rfl (hset .idle), rfl, rfl⟩

theorem go_trying (hfree : c.ledger.actor.locked = false) (hstage : c.stages[i]? = some .trying) :
    c.go i = c.grab i (.take (.release c.ledger.actor.batchSize) 0) := by
  simp [go, hstage, hfree]

theorem go_waiting {n : Nat} {a : A} (hfree : c.ledger.actor.locked = false)
    (hstage : c.stages[i]? = some (.waiting n a)) : c.go i = c.grab i (.take (.overflow n a) 0) := by
  simp [go, hstage, hfree]

theorem go_entering (hfree : c.ledger.actor.locked = false) (hstage : c.stages[i]? = some .entering) :
    c.go i = c.grab i (.take .access 0) := by
  simp [go, hstage, hfree]

/-- A slot that is submitted. -/
theorem goes_submit_slot {place n slot : Nat} (h : c.Sound size) (hstage : c.stages[i]? = some .idle)
    (hfree : c.ledger.actor.locked = false) (hx : c.held[place]? = some ⟨n, .slot slot⟩) :
    ∃ d, Goes i (c.ask i (.submit place)) d ∧ d.Between i ∧ d.held = c.held.eraseIdx place ∧
      d.ledger = c.ledger.submit ⟨n, .slot slot⟩ := by
  have hask : c.ask i (.submit place) = (c.queue place n slot).setStage i .trying := by
    simp [ask, askOutside, hstage, hx]
  have htrying : ((c.queue place n slot).setStage i .trying).stages[i]? = some .trying :=
    getElem?_set_of_getElem? hstage _
  have hgo := go_trying (by exact hfree) htrying
  have hsound := (h.act i (.ask (.submit place))).go i
  rw [show c.act i (.ask (.submit place)) = _ from hask, hgo] at hsound
  obtain ⟨d, hgoes, hbetween, hheld, hledger⟩ :=
    goes_release hsound (getElem?_set_of_getElem? htrying _) rfl
  refine ⟨d, ?_, hbetween, hheld, ?_⟩
  · rw [hask]
    exact .head hgo hgoes
  · have hlocked : ¬ (c.ledger.schedule n slot).actor.locked = true := by
      show ¬ c.ledger.actor.locked = true
      simp [hfree]
    rw [hledger]
    simp only [Ledger.submit, if_neg hlocked]
    rfl

/-- An overflow action that is submitted. -/
theorem goes_submit_overflow {place n : Nat} {a : A} (h : c.Sound size) (hstage : c.stages[i]? = some .idle)
    (hfree : c.ledger.actor.locked = false) (hx : c.held[place]? = some ⟨n, .overflow a⟩) :
    ∃ d, Goes i (c.ask i (.submit place)) d ∧ d.Between i ∧ d.held = c.held.eraseIdx place ∧
      d.ledger = c.ledger.submit ⟨n, .overflow a⟩ := by
  have hask : c.ask i (.submit place) = (c.count place n).setStage i (.waiting n a) := by
    simp [ask, askOutside, hstage, hx]
  have hwaiting : ((c.count place n).setStage i (.waiting n a)).stages[i]? = some (.waiting n a) :=
    getElem?_set_of_getElem? hstage _
  obtain ⟨e, he⟩ : ∃ e, e = ((c.count place n).setStage i (.waiting n a)).grab i (.take (.overflow n a) 0) :=
    ⟨_, rfl⟩
  have hholding : e.stages[i]? = some .holding := by
    rw [he]
    exact getElem?_set_of_getElem? hwaiting _
  have hgo : (c.ask i (.submit place)).go i = e := by
    rw [hask, he]
    exact go_waiting (by exact hfree) hwaiting
  have hsound : e.Sound size := hgo ▸ (h.act i (.ask (.submit place))).go i
  have hholder : e.holder = some (i, .take (.overflow n a) 0) := by
    rw [he]
    rfl
  obtain ⟨m, ran, hdrained, hdrain⟩ := hsound.leads_drain hholder
  have hend : (e.ledger.rounds m).endDrain maxWord ran = e.ledger.drain maxWord 0 := hdrained.ended
  have hbegin : (Task.test (.overflow n a) ran).step (e.ledger.rounds m) = (.begin n a, e.ledger.drainAll) := by
    simp [Task.step, hend, Aim.limit, Ledger.drainAll]
  have hscript := Task.leads_script Task.overflow (fun _ _ => rfl)
    (fun _ _ v hover => Task.step_overflow v hover) (Action.script a) []
    (e.ledger.drainAll.note (.ranOverflow n a))
  have hleads := ((hdrain.tail ⟨rfl, hbegin⟩).tail ⟨rfl, rfl⟩).trans (hscript.tail ⟨rfl, rfl⟩)
  obtain ⟨calls, hgoes⟩ := goes_of_leads hholding hholder hleads
  obtain ⟨d, hrest, hbetween, hheld, hledger⟩ := goes_release (hsound.goes hgoes) hholding rfl
  refine ⟨d, .head hgo (hgoes.trans hrest), hbetween, ?_, ?_⟩
  · rw [hheld, he]
    rfl
  · rw [hledger, he]
    rfl

/-- Exclusive access. -/
theorem goes_enter (h : c.Sound size) (hstage : c.stages[i]? = some .idle) (hfree : c.ledger.actor.locked = false) :
    ∃ d, Goes i (c.ask i .enter) d ∧ d.Between i ∧ d.held = c.held ∧ d.ledger = c.ledger.enter := by
  have hask : c.ask i .enter = c.setStage i .entering := by
    simp [ask, askOutside, hstage]
  have hentering : (c.setStage i .entering).stages[i]? = some .entering := getElem?_set_of_getElem? hstage _
  obtain ⟨e, he⟩ : ∃ e, e = (c.setStage i .entering).grab i (.take .access 0) := ⟨_, rfl⟩
  have hholding : e.stages[i]? = some .holding := by
    rw [he]
    exact getElem?_set_of_getElem? hentering _
  have hgo : (c.ask i .enter).go i = e := by
    rw [hask, he]
    exact go_entering (by exact hfree) hentering
  have hsound : e.Sound size := hgo ▸ (h.act i (.ask .enter)).go i
  have hholder : e.holder = some (i, .take .access 0) := by
    rw [he]
    rfl
  obtain ⟨m, ran, hdrained, hdrain⟩ := hsound.leads_drain hholder
  have henter : e.ledger.drainAll = c.ledger.enter := by
    rw [he]
    rfl
  have hend : (e.ledger.rounds m).endDrain maxWord ran = e.ledger.drain maxWord 0 := hdrained.ended
  have haccess : (Task.test .access ran).step (e.ledger.rounds m) = (.access, c.ledger.enter) := by
    rw [← henter]
    simp [Task.step, hend, Aim.limit, Ledger.drainAll]
  obtain ⟨calls, hgoes⟩ := goes_of_leads hholding hholder (hdrain.tail ⟨rfl, haccess⟩)
  refine ⟨_, .head hgo hgoes, .inside rfl ?_ hholding, ?_, rfl⟩
  · rw [Ledger.actor_enter]
    exact Actor.locked_enter _
  · rw [he]
    rfl

/-- The steps of a request, taken in a row, do what the request does to the actor. -/
def Does (c : Crew S A) (i : Nat) (request : Request S A) : Prop :=
  ∃ d, Goes i (c.ask i request) d ∧ d.Between i ∧
    (⟨d.ledger, d.held⟩ : Client S A) = (⟨c.ledger, c.held⟩ : Client S A).act request

theorem Between.does_serve {request : Request S A} (h : c.Between i) (hrequest : request.isServed = true)
    (hask : c.ask i request = c.serve request) : c.Does i request := by
  have hframe := (Client.frame_act ⟨c.ledger, c.held⟩ hrequest).1
  have hlocked : (c.serve request).ledger.actor.locked = c.ledger.actor.locked :=
    (Ledger.of_frame_eq hframe).2.1
  refine ⟨c.serve request, hask ▸ .refl, ?_, rfl⟩
  cases h with
  | outside hholder hfree hstage => exact .outside hholder (hlocked.trans hfree) hstage
  | inside hholder hheld hstage => exact .inside hholder (hlocked.trans hheld) hstage

theorem Between.does_nothing {request : Request S A} (h : c.Between i) (hask : c.ask i request = c)
    (hact : (⟨c.ledger, c.held⟩ : Client S A).act request = ⟨c.ledger, c.held⟩) : c.Does i request :=
  ⟨c, by rw [hask]; exact .refl, h, hact.symm⟩

theorem Between.does_submit {place : Nat} (h : c.Between i) (hsound : c.Sound size) :
    c.Does i (.submit place) := by
  cases hx : c.held[place]? with
  | none =>
    refine h.does_nothing ?_ (by simp [Client.act, hx])
    cases h with
    | outside hholder hfree hstage => simp [ask, askOutside, hstage, hx]
    | inside hholder hlocked hstage => simp [ask, askInside, hstage, hholder, hx]
  | some x =>
    obtain ⟨n, slot | a⟩ := x
    · cases h with
      | outside hholder hfree hstage =>
        obtain ⟨d, hgoes, hbetween, hheld, hledger⟩ := goes_submit_slot hsound hstage hfree hx
        exact ⟨d, hgoes, hbetween, by simp [Client.act, hx, hfree, hheld, hledger]⟩
      | inside hholder hlocked hstage =>
        have hask : c.ask i (.submit place) = c.queue place n slot := by
          simp [ask, askInside, hstage, hholder, hx]
        have hschedule : (c.ledger.schedule n slot).actor.locked = true := hlocked
        refine ⟨c.queue place n slot, hask ▸ .refl, .inside hholder hlocked hstage, ?_⟩
        simp [Client.act, hx, Handle.isOverflow, Ledger.submit, hschedule, queue]
    · cases h with
      | outside hholder hfree hstage =>
        obtain ⟨d, hgoes, hbetween, hheld, hledger⟩ := goes_submit_overflow hsound hstage hfree hx
        exact ⟨d, hgoes, hbetween, by simp [Client.act, hx, hfree, hheld, hledger]⟩
      | inside hholder hlocked hstage =>
        have hask : c.ask i (.submit place) = c := by simp [ask, askInside, hstage, hholder, hx]
        exact Between.does_nothing (.inside hholder hlocked hstage) hask
          (by simp [Client.act, hx, Handle.isOverflow, hlocked])

/-- **Every request** is done by its steps in a row. -/
theorem Between.does (h : c.Between i) (hsound : c.Sound size) (request : Request S A) :
    c.Does i request := by
  cases request with
  | take | fill | drop =>
    refine h.does_serve rfl ?_
    cases h with
    | outside hholder hfree hstage => simp [ask, askOutside, hstage]
    | inside hholder hlocked hstage => simp [ask, askInside, hstage, hholder]
  | submit place => exact h.does_submit hsound
  | enter =>
    cases h with
    | outside hholder hfree hstage =>
      obtain ⟨d, hgoes, hbetween, hheld, hledger⟩ := goes_enter hsound hstage hfree
      exact ⟨d, hgoes, hbetween, by simp [Client.act, hfree, hheld, hledger]⟩
    | inside hholder hlocked hstage =>
      have hask : c.ask i .enter = c := by simp [ask, askInside, hstage, hholder]
      exact Between.does_nothing (.inside hholder hlocked hstage) hask (by simp [Client.act, hlocked])
  | edit change =>
    cases h with
    | outside hholder hfree hstage =>
      have hask : c.ask i (.edit change) = c := by simp [ask, askOutside, hstage]
      exact Between.does_nothing (.outside hholder hfree hstage) hask (by simp [Client.act, hfree])
    | inside hholder hlocked hstage =>
      have hask : c.ask i (.edit change) = c.serve (.edit change) := by
        simp [ask, askInside, hstage, hholder]
      exact Between.does_serve (.inside hholder hlocked hstage) rfl hask
  | leave =>
    cases h with
    | outside hholder hfree hstage =>
      have hask : c.ask i .leave = c := by simp [ask, askOutside, hstage]
      refine Between.does_nothing (.outside hholder hfree hstage) hask ?_
      simp only [Client.act, Actor.leave, ← hfree]
    | inside hholder hlocked hstage =>
      have hask : c.ask i .leave = c.unlock i .idle := by simp [ask, askInside, hstage, hholder]
      exact ⟨c.unlock i .idle, hask ▸ .refl, .outside rfl rfl (getElem?_set_of_getElem? hstage _), rfl⟩

theorem Goes.exists_moves {x : Actor S A} {threads : Nat} {moves : List (Nat × Move S A)} {d : Crew S A}
    (h : Goes i (run x threads moves) d) :
    ∃ more, (∀ move ∈ more, move.1 = i) ∧ run x threads (moves ++ more) = d := by
  induction h with
  | refl => exact ⟨[], fun move hmove => absurd hmove List.not_mem_nil, by rw [List.append_nil]⟩
  | tail _ hstep ih =>
    obtain ⟨more, hmore, hrun⟩ := ih
    refine ⟨more ++ [(i, .go)], ?_, ?_⟩
    · simpa [or_imp, forall_and] using hmore
    · rw [← List.append_assoc, run_concat, hrun]
      exact hstep

/-- **One thread alone** makes of the actor what the same requests made in a row do. -/
theorem run_alone {state : S} {poolSize batchSize : Nat} {x : Actor S A}
    (h : Actor.create state poolSize batchSize = .ok x) {threads : Nat} (hi : i < threads)
    (requests : List (Request S A)) :
    ∃ moves, (∀ move ∈ moves, move.1 = i) ∧ (run x threads moves).Between i ∧
      (⟨(run x threads moves).ledger, (run x threads moves).held⟩ : Client S A) = Client.run x requests := by
  induction requests using List.reverseRecOn with
  | nil =>
    have hfree : x.locked = false := (sound_create h threads).locked
    exact ⟨[], fun move hmove => absurd hmove List.not_mem_nil,
      .outside rfl hfree (by simp [run, start, hi]), rfl⟩
  | append_singleton requests request ih =>
    obtain ⟨moves, hmoves, hbetween, hclient⟩ := ih
    obtain ⟨d, hgoes, hafter, hact⟩ := hbetween.does (sound_run h threads moves) request
    have hask : (run x threads moves).ask i request = run x threads (moves ++ [(i, .ask request)]) := by
      rw [run_concat]
      rfl
    rw [hask] at hgoes
    obtain ⟨more, hmore, rfl⟩ := hgoes.exists_moves
    refine ⟨moves ++ [(i, .ask request)] ++ more, ?_, hafter, ?_⟩
    · intro move hmove
      simp only [List.mem_append, List.mem_singleton] at hmove
      rcases hmove with (hmove | rfl) | hmove
      · exact hmoves move hmove
      · rfl
      · exact hmore move hmove
    · rw [hact, hclient]
      simp [Client.run]

end Crew

end WindowedMetrics
