import Mathlib.Logic.Hydra
import WindowedMetrics.Proofs.Executor.Answers
import WindowedMetrics.Proofs.Executor.Custody
import WindowedMetrics.Proofs.Executor.Shutdown

/-!
# Everything comes to an end

When no thread can go on, all calls have returned and the queue is empty (`Workshop.Sound.at_rest`): nobody waits
for a lock that nobody has, nor for the end of a worker that waits for tasks.  And if no more requests are made,
that moment comes, in whichever order the threads go on (`Workshop.exists_atRest`).

Each step of a task leaves a part of the task, and hands over another part of it; between these steps a thread
gets closer to the end of its call.  So the steps go down in the lexicographic order of the multiset of all tasks
and the distance to the ends of the calls.
-/

namespace WindowedMetrics

open scoped List

variable {σ : Type}

theorem Errand.wellFounded_part : WellFounded (Errand.Part (σ := σ)) := by
  refine ⟨fun errand => ?_⟩
  induction errand with
  | done | fail => exact ⟨_, nofun⟩
  | act change next ih =>
    refine ⟨_, fun part hpart => ?_⟩
    cases hpart with
    | next _ _ place s => exact ih place s
  | hand task rest htask hrest =>
    refine ⟨_, fun part hpart => ?_⟩
    cases hpart with
    | task => exact htask
    | rest => exact hrest

namespace Workshop

variable {w d : Workshop σ} {i : Nat} {move : Move σ} {thread thread' : Thread σ}

/-! ### All invariants -/

theorem Turn.length_threads (hturn : w.Turn i move d) : d.threads.length = w.threads.length := by
  cases hturn with
  | stay | stop => rfl
  | leave outcome => cases outcome <;> exact List.length_set
  | _ => exact List.length_set

theorem length_threads_run (w : Workshop σ) (moves : List (Nat × Move σ)) :
    (w.run moves).threads.length = w.threads.length := by
  induction moves generalizing w with
  | nil => rfl
  | cons move moves ih => exact (ih _).trans (turn_act w move.1 move.2).length_threads

/-- What holds after any moves. -/
structure Sound (w : Workshop σ) : Prop where
  worker : 0 < w.threads.length
  custody : w.Custody
  line : w.Line
  locked : w.Locked
  closing : w.Closing
  answered : w.Answered

theorem Sound.turn (h : w.Sound) (hturn : w.Turn i move d) : d.Sound where
  worker := hturn.length_threads ▸ h.worker
  custody := h.custody.turn hturn
  line := h.line.turn hturn
  locked := h.locked.turn hturn
  closing := h.closing.turn h.locked hturn
  answered := h.answered.turn hturn

theorem Sound.run (h : w.Sound) (moves : List (Nat × Move σ)) : (w.run moves).Sound := by
  induction moves generalizing w with
  | nil => exact h
  | cons move moves ih => exact ih (h.turn (turn_act w move.1 move.2))

theorem sound_opened (name : String) (s : σ) (clients : Nat) : (opened name s clients).Sound where
  worker := by simp [opened]
  custody := custody_opened name s clients
  line := line_opened name s clients
  locked := locked_opened name s clients
  closing := closing_opened name s clients
  answered := answered_opened name s clients

/-! ### When no thread can go on -/

section AtRest

variable (h : w.Sound) (hrest : w.AtRest)
include hrest

theorem AtRest.next_eq (hget : w.threads[i]? = some thread) : w.next i thread = none := by
  have hgo := hrest i
  unfold go? at hgo
  rwa [hget] at hgo

/-- Who has the lock of the sender goes on. -/
theorem AtRest.hasSender_eq (hget : w.threads[i]? = some thread) : thread.stage.hasSender = false := by
  have hnext := hrest.next_eq hget
  obtain ⟨stage, running⟩ := thread
  cases stage with
  | inside | leaving => simp [next] at hnext
  | _ => rfl

include h

theorem AtRest.senderLock_eq : w.senderLock = none := by
  cases hlock : w.senderLock with
  | none => rfl
  | some j =>
    obtain ⟨thread, hget, hhas⟩ := (h.locked.sender j).mp hlock
    rw [hrest.hasSender_eq hget] at hhas
    cases hhas

/-- A thread in no shutdown has nothing to do. -/
theorem AtRest.eq_of_not_isShutdown (hget : w.threads[i]? = some thread)
    (hshutdown : thread.stage.isShutdown = false) : thread = ⟨.ready, []⟩ := by
  have hnext := hrest.next_eq hget
  have hfree := hrest.senderLock_eq h
  obtain ⟨stage, running⟩ := thread
  cases stage with
  | ready =>
    cases running with
    | nil => rfl
    | cons => simp [next] at hnext
  | waiting | inside | leaving | refused => simp [next, hfree] at hnext
  | _ => cases hshutdown

/-- The worker waits for tasks, or has ended. -/
theorem AtRest.worker_eq :
    w.threads[0]? = some ⟨.ready, []⟩ ∧ w.queue = [] ∧ (w.stopped = true ∨ w.sender = true) := by
  obtain ⟨worker, hget⟩ : ∃ worker, w.threads[0]? = some worker := ⟨_, List.getElem?_eq_getElem h.worker⟩
  obtain rfl := hrest.eq_of_not_isShutdown h hget ((h.line.fits 0 worker hget).worker rfl).1
  have hnext := hrest.next_eq hget
  simp only [next, if_pos, receive] at hnext
  cases hstopped : w.stopped with
  | true => exact ⟨hget, (h.closing.stopped hstopped).2.1, .inl rfl⟩
  | false =>
    cases hqueue : w.queue with
    | nil =>
      cases hsender : w.sender with
      | true => exact ⟨hget, rfl, .inr rfl⟩
      | false => simp [hstopped, hqueue, hsender] at hnext
    | cons => simp [hstopped, hqueue] at hnext

/-- Nobody waits for the end of the worker: it would end. -/
theorem AtRest.handleLock_eq : w.handleLock = none := by
  cases hlock : w.handleLock with
  | none => rfl
  | some j =>
    obtain ⟨⟨stage, running⟩, hget, hhas⟩ := (h.locked.handle j).mp hlock
    have hnext := hrest.next_eq hget
    cases stage with
    | looking =>
      simp only [next] at hnext
      split at hnext <;> cases hnext
    | parting => simp [next] at hnext
    | joining =>
      have hclosed := h.closing.closed j _ hget rfl
      rcases (hrest.worker_eq h).2.2 with hstopped | hsender
      · simp [next, hstopped] at hnext
      · rw [hclosed] at hsender
        cases hsender
    | _ => cases hhas

/-- **When no thread can go on**, every call has returned and every task has run. -/
theorem Sound.at_rest :
    (∀ (j : Nat) (thread : Thread σ), w.threads[j]? = some thread → thread = ⟨.ready, []⟩) ∧
      w.queue = [] := by
  refine ⟨fun j thread hget => ?_, (hrest.worker_eq h).2.1⟩
  have hnext := hrest.next_eq hget
  have hfree := hrest.senderLock_eq h
  have hfree' := hrest.handleLock_eq h
  obtain ⟨stage, running⟩ := thread
  cases stage with
  | coming => simp [next, hfree'] at hnext
  | looking | joining | parting =>
    have hheld := (h.locked.handle j).mpr ⟨_, hget, rfl⟩
    rw [hfree'] at hheld
    cases hheld
  | ready => exact hrest.eq_of_not_isShutdown h hget rfl
  | _ => simp [next, hfree] at hnext

end AtRest

/-! ### No thread goes on for ever -/

open Relation (CutExpand)

/-- How far a thread is from the end of its call. -/
def Stage.distance : Stage σ → Nat
  | .waiting _ => 7
  | .inside _ => 6
  | .leaving .closed => 5
  | .coming => 4
  | .looking => 3
  | .leaving (.refused _) | .joining => 2
  | .leaving (.accepted _) | .refused _ | .parting => 1
  | .ready => 0

/-- What is left of the tasks of a thread. -/
def Thread.errands (thread : Thread σ) : List (Errand σ) :=
  thread.stage.tickets.map (·.errand) ++ thread.running.map (·.errand)

/-- What is left of all tasks. -/
def errands (w : Workshop σ) : Multiset (Errand σ) :=
  ↑(w.gather (fun _ => Thread.errands) ++ w.queue.map (·.errand))

/-- How far the threads are from the ends of their calls, and the worker from its own. -/
def distance (w : Workshop σ) : Nat :=
  (w.gather fun _ thread => [thread.stage.distance]).sum + w.queue.length + if w.stopped then 0 else 1

theorem errands_change (hget : w.threads[i]? = some thread) (hd : d.threads = w.threads.set i thread')
    (gone extra : List (Errand σ))
    (h : thread'.errands ++ d.queue.map (·.errand) ++ gone ~ thread.errands ++ w.queue.map (·.errand) ++ extra) :
    d.errands + ↑gone = w.errands + ↑extra := by
  have hthread : d.gather (fun _ => Thread.errands) ++ thread.errands ~
      w.gather (fun _ => Thread.errands) ++ thread'.errands := gather_perm hget hd _
  classical
  refine Multiset.coe_eq_coe.mpr (List.perm_iff_count.mpr fun errand => ?_)
  have hmoved := hthread.count_eq errand
  have hkept := h.count_eq errand
  simp only [List.count_append] at hmoved hkept ⊢
  omega

theorem distance_change (hget : w.threads[i]? = some thread) (hd : d.threads = w.threads.set i thread')
    (hstopped : d.stopped = w.stopped)
    (h : thread'.stage.distance + d.queue.length < thread.stage.distance + w.queue.length) :
    d.distance < w.distance := by
  have hperm : d.gather (fun _ thread => [thread.stage.distance]) ++ [thread.stage.distance] ~
      w.gather (fun _ thread => [thread.stage.distance]) ++ [thread'.stage.distance] := gather_perm hget hd _
  have hsum := hperm.sum_eq
  simp only [List.sum_append, List.sum_singleton] at hsum
  unfold distance
  rw [hstopped]
  omega

/-- The order in which the threads go down. -/
def Below (d w : Workshop σ) : Prop :=
  Prod.Lex (CutExpand Errand.Part) (· < ·) (d.errands, d.distance) (w.errands, w.distance)

theorem wellFounded_below : WellFounded (Below (σ := σ)) :=
  InvImage.wf (fun w : Workshop σ => (w.errands, w.distance))
    (WellFounded.prod_lex Errand.wellFounded_part.cutExpand wellFounded_lt)

/-- A thread gets closer to the end of its call. -/
theorem Below.closer (hget : w.threads[i]? = some thread) (hd : d.threads = w.threads.set i thread')
    (hstopped : d.stopped = w.stopped)
    (herrands : thread'.errands ++ d.queue.map (·.errand) ~ thread.errands ++ w.queue.map (·.errand))
    (hdistance : thread'.stage.distance + d.queue.length < thread.stage.distance + w.queue.length) :
    d.Below w := by
  have hsame : d.errands = w.errands := by
    simpa using errands_change hget hd [] [] (by simpa using herrands)
  unfold Below
  rw [hsame]
  exact .right _ (distance_change hget hd hstopped hdistance)

/-- A task is cut into parts. -/
theorem Below.cut (hget : w.threads[i]? = some thread) (hd : d.threads = w.threads.set i thread')
    (hqueue : d.queue = w.queue) (errand : Errand σ) (parts : List (Errand σ))
    (hparts : ∀ part ∈ parts, part.Part errand)
    (h : thread'.errands ++ [errand] ~ thread.errands ++ parts) : d.Below w := by
  refine .left _ _ ⟨parts, errand, fun part hpart => hparts part (Multiset.mem_coe.mp hpart), ?_⟩
  refine errands_change hget hd [errand] parts ?_
  classical
  refine List.perm_iff_count.mpr fun other => ?_
  have hcount := h.count_eq other
  rw [hqueue]
  simp only [List.count_append] at hcount ⊢
  omega

/-- **Whoever goes on** goes down. -/
theorem below_of_go? (hgo : w.go? i = some d) : d.Below w := by
  have hturn := turn_of_go? hgo
  cases hturn with
  | stay hstay =>
    rw [hstay rfl] at hgo
    cases hgo
  | stop hget hi hqueue hsender hstopped =>
    refine .right _ ?_
    show _ + w.queue.length + 0 < w.distance
    unfold distance
    rw [hstopped]
    exact Nat.lt_succ_self _
  | serve ticket queue hget hi hqueue =>
    refine Below.closer hget rfl rfl ?_ ?_
    · show [ticket.errand] ++ queue.map _ ~ [] ++ w.queue.map _
      rw [hqueue]
      exact .refl _
    · rw [hqueue]
      simp [start, setThread]
  | finish task running log hget =>
    refine Below.cut hget rfl rfl task.errand [] (List.forall_mem_nil _) ?_
    rw [List.append_nil]
    exact List.perm_append_singleton _ _
  | advance task running change next hget herrand =>
    refine Below.cut hget rfl rfl task.errand [next (place i) w.state] ?_ ?_
    · rw [herrand]
      rintro part (_ | ⟨_, ⟨⟩⟩)
      exact .next change next _ _
    · refine (List.perm_append_singleton task.errand _).trans ?_
      exact (List.perm_append_singleton (next (place i) w.state) _).symm.cons _
  | submit task running errand rest hget herrand =>
    refine Below.cut hget rfl rfl task.errand [errand, rest] ?_ ?_
    · rw [herrand]
      rintro part (_ | ⟨_, _ | ⟨_, ⟨⟩⟩⟩)
      · exact .task errand rest
      · exact .rest errand rest
    · refine (List.perm_append_singleton task.errand _).trans ?_
      have hparts : [errand, rest] ++ running.map (·.errand) ~ running.map (·.errand) ++ [errand, rest] :=
        List.perm_append_comm
      exact hparts.cons _
  | accept ticket running hget =>
    refine Below.closer hget rfl rfl ?_ ?_
    · show running.map (·.errand) ++ (w.queue ++ [ticket]).map (·.errand) ~
        ticket.errand :: running.map (·.errand) ++ w.queue.map (·.errand)
      rw [List.map_append, ← List.append_assoc]
      exact List.perm_append_singleton _ _
    · show 1 + (w.queue ++ [ticket]).length < 6 + w.queue.length
      rw [List.length_append, List.length_singleton]
      omega
  | lock call running hget =>
    cases call with
    | hand | close => exact Below.closer hget rfl rfl (.refl _) (by simp [setThread, Stage.distance])
  | leave outcome running hget =>
    cases outcome with
    | accepted | refused | closed =>
      exact Below.closer hget rfl rfl (.refl _) (by simp [leave, setThread, Stage.distance])
  | begin ticket running log hget =>
    exact Below.closer hget rfl rfl (.refl _) (by simp [start, setThread, Stage.distance])
  | refuse ticket running hget | close running hget | lockHandle running hget | take running hget
  | miss running hget | join running hget | part running hget =>
    exact Below.closer hget rfl rfl (.refl _) (by simp [setThread, Stage.distance])

/-- Every thread gets a turn again and again. -/
def Fair (threads : Nat) (schedule : Nat → Nat) : Prop := ∀ i < threads, ∀ n, ∃ m, n ≤ m ∧ schedule m = i

/-- The first turns of a schedule. -/
def turns (schedule : Nat → Nat) (n : Nat) : List (Nat × Move σ) := (List.range n).map fun k => (schedule k, .go)

theorem run_turns_succ (w : Workshop σ) (schedule : Nat → Nat) (n : Nat) :
    w.run (turns schedule (n + 1)) = (w.act (schedule 0) .go).run (turns (fun k => schedule (k + 1)) n) := by
  unfold turns
  rw [List.range_succ_eq_map, List.map_cons, List.map_map]
  rfl

theorem Fair.tail {threads : Nat} {schedule : Nat → Nat} (h : Fair threads schedule) :
    Fair threads fun k => schedule (k + 1) := by
  intro i hi n
  obtain ⟨m, hm, hturn⟩ := h i hi (n + 1)
  refine ⟨m - 1, by omega, ?_⟩
  show schedule (m - 1 + 1) = i
  rwa [Nat.sub_add_cancel (by omega)]

theorem lt_length_of_go? (hgo : w.go? i ≠ none) : i < w.threads.length := by
  by_contra hlt
  refine hgo ?_
  unfold go?
  rw [List.getElem?_eq_none (Nat.not_lt.mp hlt)]
  rfl

/-- **The threads come to rest**, if each of them gets a turn again and again. -/
theorem exists_atRest (w : Workshop σ) {schedule : Nat → Nat} (h : Fair w.threads.length schedule) :
    ∃ n, (w.run (turns schedule n)).AtRest := by
  induction w using wellFounded_below.induction generalizing schedule with
  | _ w ih =>
    have hturn : ∀ {d : Workshop σ} {schedule : Nat → Nat}, Fair w.threads.length schedule →
        w.go? (schedule 0) = some d → ∃ n, (w.run (turns schedule n)).AtRest := by
      intro d schedule hfair hd
      have hlength := (turn_of_go? hd).length_threads
      obtain ⟨n, hn⟩ := ih d (below_of_go? hd) (hlength ▸ hfair.tail)
      refine ⟨n + 1, ?_⟩
      rw [run_turns_succ, act, hd]
      exact hn
    by_cases hrest : w.AtRest
    · exact ⟨0, hrest⟩
    obtain ⟨i, hi⟩ := not_forall.mp hrest
    obtain ⟨m, -, hm⟩ := h i (lt_length_of_go? hi) 0
    -- nothing changes until the turn of a thread that can go on, and one comes after `m` turns at the latest
    induction m generalizing schedule with
    | zero =>
      obtain ⟨d, hd⟩ := Option.ne_none_iff_exists'.mp (hm ▸ hi)
      exact hturn h hd
    | succ m ihm =>
      cases hfirst : w.go? (schedule 0) with
      | none =>
        obtain ⟨n, hn⟩ := ihm h.tail hm
        refine ⟨n + 1, ?_⟩
        rw [run_turns_succ, act, hfirst]
        exact hn
      | some d => exact hturn h hfirst

end Workshop

end WindowedMetrics
