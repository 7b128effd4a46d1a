import WindowedMetrics.Proofs.Executor.Calm
import WindowedMetrics.Proofs.Executor.Chronicle
import WindowedMetrics.Proofs.Executor.Rest

/-!
# Every task runs once

What the invariants of a worker and its clients come to, whatever the clients ask for, whatever the tasks do, and
in whichever order the threads go on (`Workshop.tasks_run_once`).
-/

namespace WindowedMetrics.Workshop

open scoped List

variable {σ : Type} {w : Workshop σ} {n : Nat}

theorem Stacked.length_served {i : Nat} {running : List (Running σ)} (h : Stacked i running) (stage : Stage σ) :
    (served (Thread.deeds i ⟨stage, running⟩)).length ≤ 1 := by
  induction h with
  | idle | serving => exact (List.length_filter_le ..).trans (by simp [Thread.deeds])
  | inside task hinline _ _ ih => simpa [served, Thread.deeds, hinline] using ih

/-- The worker runs one task at a time. -/
theorem Line.length_serving (h : w.Line) : w.serving.length ≤ 1 := by
  unfold serving
  cases hget : w.threads[0]? with
  | none => exact Nat.zero_le 1
  | some worker => exact (h.fits 0 worker hget).stacked.length_served worker.stage

namespace Sound

variable (h : w.Sound)
include h

/-- A task that was handed over late has run before its call returns. -/
theorem ended_of_late (hlate : n ∈ w.record.late) (hreturned : n ∈ w.record.returned) :
    ∃ thread, w.record.callers[n]? = some thread ∧ ⟨n, thread, true⟩ ∈ w.record.ended := by
  rcases h.answered.returned n hreturned with haccepted | ⟨⟨_, thread, _⟩, hended, rfl, rfl⟩
  · exact absurd haccepted (h.answered.late n hlate)
  · have hbegun := h.custody.begun.mem_iff.mp (List.mem_append_right _ hended)
    exact ⟨thread, h.answered.inline _ hbegun rfl, hended⟩

/-- When a shutdown has returned, all accepted tasks have run. -/
theorem ended_of_shutdown (hshutdown : 0 < w.record.shutdowns) (haccepted : n ∈ w.record.accepted) :
    ⟨n, 0, false⟩ ∈ w.record.ended := by
  obtain ⟨-, hqueue, hidle⟩ := h.closing.stopped (h.closing.returned hshutdown)
  have hserving : w.serving = [] := serving_eq hidle rfl
  rw [h.line.accepted, queued, hqueue, List.map_nil, List.append_nil, h.line.begun, hserving,
    List.append_nil] at haccepted
  obtain ⟨⟨_, thread, inline⟩, hserved, rfl⟩ := List.mem_map.mp haccepted
  obtain ⟨hended, hinline⟩ := List.mem_filter.mp hserved
  obtain rfl : inline = false := by simpa using hinline
  have hbegun := h.custody.begun.mem_iff.mp (List.mem_append_right _ hended)
  obtain rfl : thread = 0 := h.answered.served _ hbegun rfl
  exact hended

/-- At rest all tasks have run, and their calls have returned. -/
theorem ended_of_atRest (hrest : w.AtRest) :
    w.record.ended.map (·.number) ~ List.range w.record.callers.length ∧
      w.record.returned ~ List.range w.record.callers.length := by
  obtain ⟨hready, hqueue⟩ := h.at_rest hrest
  have hhanded := h.custody.handed
  have hbegun := h.custody.begun
  have hcalled := h.custody.called
  rw [carried, gather_eq_nil hready _ fun _ => rfl, queued, hqueue] at hhanded
  rw [underway, gather_eq_nil hready _ fun _ => rfl] at hbegun
  rw [awaited, gather_eq_nil hready _ fun _ => rfl] at hcalled
  exact ⟨(hbegun.map _).trans hhanded, hcalled⟩

end Sound

/-- **Every task runs once**, whatever requests any number of clients make of a worker and in whichever order the
threads go on.  After any moves each task is in the hands of one thread, or queued, or has begun, and has begun
once.  The worker runs the accepted tasks one after the other in the order in which they were accepted.  It ends
only when the sender is gone and nothing is queued; and if the tasks that fail were to end instead, all threads
would do the same.  A task that was handed over when the sender was gone has run on the calling thread when that
call returns; when a shutdown has returned, whichever it was, all accepted tasks have run.  And when no more
requests come, the threads come to rest, and then every task has run and every call has returned.

To have run is to have done what the task was handed over for: a chronicle has every change of the state and every
task handed over, and a task that has ended has gone through the errand it was handed over with, on its thread and
to the end.  One client that waits for the worker sees what the executor does with its requests in a row. -/
theorem tasks_run_once (name : String) (s : σ) (clients : Nat) (moves : List (Nat × Move σ)) :
    let w := (opened name s clients).run moves
    let r := w.record
    w.carried ++ w.queued ++ r.begun.map (·.number) ~ List.range r.callers.length ∧
      (r.begun.map (·.number)).Nodup ∧ w.underway ++ r.ended ~ r.begun ∧
      r.accepted = (served r.begun).map (·.number) ++ w.queued ∧
      served r.begun = served r.ended ++ w.serving ∧ w.serving.length ≤ 1 ∧
      (w.stopped = true → w.sender = false ∧ w.queue = []) ∧
      w.calm = (opened name s clients).run (moves.map fun move => (move.1, move.2.calm)) ∧
      (∀ n ∈ r.late, n ∈ r.returned →
        ∃ thread, r.callers[n]? = some thread ∧ ⟨n, thread, true⟩ ∈ r.ended) ∧
      (0 < r.shutdowns → ∀ n ∈ r.accepted, ⟨n, 0, false⟩ ∈ r.ended) ∧
      (∀ schedule, Fair (clients + 1) schedule → ∃ n, let rest := w.run (turns schedule n)
        rest.AtRest ∧ rest.record.ended.map (·.number) ~ List.range rest.record.callers.length ∧
          rest.record.returned ~ List.range rest.record.callers.length) ∧
      (∃ feats, Chronicle s moves w feats) ∧
      ∀ demands, let out := (Executor.worker name true).serveAll s demands
        ∃ moves, requests moves = demands.map (fun demand => (1, demanded demand)) ∧
          let alone := (opened name s 1).run moves
          alone.state = out.value.1 ∧ alone.log = out.events ∧ out.value.2 = .worker name alone.sender := by
  intro w r
  have h : w.Sound := (sound_opened name s clients).run moves
  refine ⟨h.custody.handed, h.custody.nodup_begun, h.custody.begun, h.line.accepted, h.line.begun,
    h.line.length_serving, fun hstopped => ?_, ?_, fun n => h.ended_of_late,
    fun hshutdown n => h.ended_of_shutdown hshutdown, fun schedule hfair => ?_, ?_, run_alone name s⟩
  · obtain ⟨hsender, hqueue, -⟩ := h.closing.stopped hstopped
    exact ⟨hsender, hqueue⟩
  · have hopened : (opened name s clients).calm = opened name s clients := by
      simp [calm, opened, Thread.calm, Stage.calm]
    rw [calm_run, hopened]
  · have hlength : w.threads.length = clients + 1 := by
      rw [length_threads_run]
      exact List.length_replicate
    obtain ⟨n, hrest⟩ := exists_atRest w (hlength ▸ hfair)
    exact ⟨n, hrest, (h.run _).ended_of_atRest hrest⟩
  · exact (chronicle_opened name s clients).run (custody_opened name s clients) moves

/-- A task that notes a number down. -/
def note (n : Nat) : Errand (List Nat) := .act (fun _ l => l ++ [n]) fun _ _ => .done

/-- One client hands over a task that hands over another one and then fails.  The other client takes the sender
away in between, and both shut the worker down; at last the first client hands over a third task. -/
def race : List (Nat × Move (List Nat)) :=
  [(1, .ask (.execute (.hand (note 2) (.act (fun _ l => l ++ [1]) fun _ _ => .fail .wordless)))), (1, .go), (1, .go),
    (1, .go), (0, .go), (0, .go), (2, .ask .shutdown), (2, .go), (2, .go), (2, .go), (0, .go), (0, .go), (0, .go),
    (0, .go), (0, .go), (0, .go), (1, .ask .shutdown), (2, .go), (2, .go), (1, .go), (1, .go), (1, .go), (0, .go),
    (0, .go), (0, .go), (2, .go), (2, .go), (1, .go), (1, .go), (1, .go), (1, .ask (.execute (note 3))), (1, .go),
    (1, .go), (1, .go), (1, .go), (1, .go), (1, .go)]

theorem tasks_run_once_race :
    let w := (opened "worker" [] 2).run race
    w.state = [2, 1, 3] ∧ w.record.shutdowns = 2 ∧ ⟨0, 0, false⟩ ∈ w.record.ended ∧
      (∃ thread, w.record.callers[2]? = some thread ∧ ⟨2, thread, true⟩ ∈ w.record.ended) ∧
      w.sender = false ∧ w.queue = [] ∧ ∃ n, (w.run (turns (fun k => k % 3) n)).AtRest := by
  intro w
  have hw : w = (opened "worker" [] 2).run race := rfl
  clear_value w
  have h := tasks_run_once "worker" [] 2 race
  rw [← hw] at h
  obtain ⟨-, -, -, -, -, -, hstopped, -, hlate, hshutdown, hrest, -, -⟩ := h
  have hstate : w.state = [2, 1, 3] := by rw [hw]; decide +kernel
  have hreturned : w.record.shutdowns = 2 := by rw [hw]; decide +kernel
  have haccepted : w.record.accepted = [0] := by rw [hw]; decide +kernel
  have hlast : w.record.late = [2] ∧ 2 ∈ w.record.returned := by rw [hw]; decide +kernel
  have hended : w.stopped = true := by rw [hw]; decide +kernel
  have hfair : Fair 3 fun k => k % 3 := fun i hi n => ⟨3 * n + i, by omega, by dsimp only; omega⟩
  obtain ⟨n, hn, -⟩ := hrest _ hfair
  refine ⟨hstate, hreturned, ?_, ?_, (hstopped hended).1, (hstopped hended).2, n, hn⟩
  · exact hshutdown (by rw [hreturned]; decide) 0 (by rw [haccepted]; decide)
  · exact hlate 2 (by rw [hlast.1]; decide) hlast.2

end WindowedMetrics.Workshop
