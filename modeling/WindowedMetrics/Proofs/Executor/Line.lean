import WindowedMetrics.Proofs.Executor.Turns

/-!
# First come, first served

The worker runs the tasks of the queue one after the other, in the order in which they were accepted
(`Workshop.Line`).  The other tasks of a thread are inside the call that handed them over.
-/

namespace WindowedMetrics.Workshop

variable {σ : Type} {w d : Workshop σ} {i : Nat} {move : Move σ} {thread thread' : Thread σ}

/-- The tasks that were taken from the queue. -/
def served (deeds : List Deed) : List Deed := deeds.filter fun deed => !deed.inline

/-- The tasks that a thread can run at a time: the worker one from the queue, and any thread those inside. -/
inductive Stacked : Nat → List (Running σ) → Prop where
  | idle (i : Nat) : Stacked i []
  | serving (task : Running σ) : task.inline = false → Stacked 0 [task]
  | inside {i : Nat} (task : Running σ) {running : List (Running σ)} : task.inline = true →
    (i = 0 → running ≠ []) → Stacked i running → Stacked i (task :: running)

/-- Whether a thread is in a shutdown. -/
def Stage.isShutdown : Stage σ → Bool
  | .waiting .close | .inside .close | .leaving .closed | .coming | .looking | .joining | .parting => true
  | _ => false

/-- What a thread can be at. -/
structure Thread.Fits (i : Nat) (thread : Thread σ) : Prop where
  stacked : Stacked i thread.running
  /-- The worker hands tasks over inside other tasks only, and does not shut itself down. -/
  worker : i = 0 → thread.stage.isShutdown = false ∧ (thread.running = [] → thread.stage = .ready)

/-- The task from the queue that the worker runs. -/
def serving (w : Workshop σ) : List Deed :=
  (w.threads[0]?.map fun worker => served (worker.deeds 0)).getD []

/-- The queue is a line. -/
structure Line (w : Workshop σ) : Prop where
  fits : ∀ (j : Nat) (thread : Thread σ), w.threads[j]? = some thread → thread.Fits j
  accepted : w.record.accepted = (served w.record.begun).map (·.number) ++ w.queued
  begun : served w.record.begun = served w.record.ended ++ w.serving

theorem served_append (deeds others : List Deed) : served (deeds ++ others) = served deeds ++ served others :=
  List.filter_append ..

theorem served_append_inline (deeds : List Deed) (number thread : Nat) :
    served (deeds ++ [⟨number, thread, true⟩]) = served deeds :=
  (served_append ..).trans (List.append_nil _)

namespace Stacked

variable {task : Running σ} {running : List (Running σ)}

/-- Only the worker takes tasks from the queue, and only when it runs none. -/
theorem tail (h : Stacked i (task :: running)) :
    task.inline = true ∧ Stacked i running ∨ task.inline = false ∧ i = 0 ∧ running = [] := by
  cases h with
  | serving _ hserved => exact .inr ⟨hserved, rfl, rfl⟩
  | inside _ hinline _ hrest => exact .inl ⟨hinline, hrest⟩

/-- A task goes on. -/
theorem errand (h : Stacked i (task :: running)) (errand : Errand σ) :
    Stacked i ({ task with errand } :: running) := by
  cases h with
  | serving _ hserved => exact .serving _ hserved
  | inside _ hinline hworker hrest => exact .inside _ hinline hworker hrest

end Stacked

theorem serving_eq (hget : w.threads[i]? = some thread) (hi : i = 0) : w.serving = served (thread.deeds i) := by
  subst hi
  unfold serving
  rw [hget]
  rfl

theorem serving_change (hget : w.threads[i]? = some thread) (hd : d.threads = w.threads.set i thread')
    (h : served (thread'.deeds i) = served (thread.deeds i)) : d.serving = w.serving := by
  by_cases hi : i = 0
  · rw [serving_eq (getElem?_set hget hd) hi, serving_eq hget hi, h]
  · unfold serving
    rw [hd, List.getElem?_set_ne hi]

/-- A thread goes on with the same task from the queue. -/
theorem Line.same (h : w.Line) (hget : w.threads[i]? = some thread) (hd : d.threads = w.threads.set i thread')
    (hfits : thread'.Fits i) (hserved : served (thread'.deeds i) = served (thread.deeds i))
    (hqueued : d.queued = w.queued) (haccepted : d.record.accepted = w.record.accepted)
    (hbegun : served d.record.begun = served w.record.begun)
    (hended : served d.record.ended = served w.record.ended) : d.Line where
  fits := forall_threads hd h.fits hfits
  accepted := by rw [haccepted, hbegun, hqueued, h.accepted]
  begun := by rw [hbegun, hended, serving_change hget hd hserved, h.begun]

/-- A thread goes on to another stage. -/
theorem Thread.Fits.stage {stage : Stage σ} (h : thread.Fits i)
    (hstage : i = 0 → stage.isShutdown = false ∧ (thread.running = [] → stage = .ready)) :
    Thread.Fits i ⟨stage, thread.running⟩ := ⟨h.stacked, hstage⟩

/-- A thread that is in a call for a task does not shut the worker down in it. -/
theorem Thread.Fits.call {stage : Stage σ} (h : thread.Fits i) (hshutdown : stage.isShutdown = false)
    (hcall : thread.stage ≠ .ready) : Thread.Fits i ⟨stage, thread.running⟩ :=
  h.stage fun hi => ⟨hshutdown, fun hrunning => absurd ((h.worker hi).2 hrunning) hcall⟩

/-- The worker is in no shutdown. -/
theorem Thread.Fits.shutdown {stage : Stage σ} (h : thread.Fits i) (hshutdown : thread.stage.isShutdown = true) :
    Thread.Fits i ⟨stage, thread.running⟩ := by
  refine h.stage fun hi => ?_
  rw [(h.worker hi).1] at hshutdown
  cases hshutdown

/-- **Every move** leaves the queue a line. -/
theorem Line.turn (h : w.Line) (hturn : w.Turn i move d) : d.Line := by
  cases hturn with
  | stay => exact h
  | stop => exact ⟨h.fits, h.accepted, h.begun⟩
  | execute errand hget hi | shutdown hget hi =>
    exact h.same hget rfl ⟨.idle i, fun hworker => absurd hworker hi⟩ rfl rfl rfl rfl rfl
  | submit task running errand rest hget =>
    have hfits := h.fits i _ hget
    exact h.same hget rfl ⟨hfits.stacked.errand rest, fun _ => ⟨rfl, nofun⟩⟩ rfl rfl rfl rfl rfl
  | advance task running change next hget =>
    have hfits := h.fits i _ hget
    exact h.same hget rfl ⟨hfits.stacked.errand _, fun _ => ⟨rfl, nofun⟩⟩ rfl rfl rfl rfl rfl
  | lockHandle running hget | take running hget | miss running hget | join running hget
  | part running hget | close running hget =>
    exact h.same hget rfl ((h.fits i _ hget).shutdown rfl) rfl rfl rfl rfl rfl
  | refuse ticket running hget =>
    exact h.same hget rfl ((h.fits i _ hget).call rfl nofun) rfl rfl rfl rfl rfl
  | lock call running hget =>
    cases call with
    | hand ticket => exact h.same hget rfl ((h.fits i _ hget).call rfl nofun) rfl rfl rfl rfl rfl
    | close => exact h.same hget rfl ((h.fits i _ hget).shutdown rfl) rfl rfl rfl rfl rfl
  | leave outcome running hget =>
    cases outcome with
    | accepted number | refused ticket =>
      exact h.same hget rfl ((h.fits i _ hget).call rfl nofun) rfl rfl rfl rfl rfl
    | closed => exact h.same hget rfl ((h.fits i _ hget).shutdown rfl) rfl rfl rfl rfl rfl
  | begin ticket running log hget =>
    have hfits := h.fits i _ hget
    have hinside : i = 0 → running ≠ [] := fun hi hrunning => nomatch (hfits.worker hi).2 hrunning
    exact h.same hget rfl ⟨.inside _ rfl hinside hfits.stacked, fun _ => ⟨rfl, nofun⟩⟩ rfl rfl rfl
      (served_append_inline ..) rfl
  | accept ticket running hget =>
    have hqueued : (w.queue ++ [ticket]).map (·.number) = w.queued ++ [ticket.number] := List.map_append
    refine ⟨forall_threads rfl h.fits ((h.fits i _ hget).call rfl nofun), ?_, ?_⟩
    · show w.record.accepted ++ [ticket.number] =
        (served w.record.begun).map (·.number) ++ (w.queue ++ [ticket]).map (·.number)
      rw [hqueued, h.accepted, List.append_assoc]
    · rw [serving_change (d := w.accept i ticket running) hget rfl rfl]
      exact h.begun
  | serve ticket queue hget hi hqueue =>
    subst hi
    have hidle : w.serving = [] := serving_eq hget rfl
    refine ⟨forall_threads rfl h.fits ⟨.serving _ rfl, fun _ => ⟨rfl, nofun⟩⟩, ?_, ?_⟩
    · show w.record.accepted = (served (w.record.begun ++ [⟨ticket.number, 0, false⟩])).map _ ++ queue.map _
      rw [served_append, List.map_append, List.append_assoc, h.accepted, queued, hqueue]
      rfl
    · rw [serving_eq (getElem?_set hget rfl) rfl]
      show served (w.record.begun ++ [⟨ticket.number, 0, false⟩]) = _
      rw [served_append, h.begun, hidle, List.append_nil]
      rfl
  | finish task running log hget =>
    have hfits := h.fits i _ hget
    rcases hfits.stacked.tail with ⟨hinline, hrest⟩ | ⟨hserved, rfl, rfl⟩
    · have hserved :
          served (Thread.deeds i ⟨.ready, running⟩) = served (Thread.deeds i ⟨.ready, task :: running⟩) := by
        simp [served, Thread.deeds, hinline]
      refine h.same hget rfl ⟨hrest, fun _ => ⟨rfl, fun _ => rfl⟩⟩ hserved rfl rfl rfl ?_
      show served (w.record.ended ++ [⟨task.number, i, task.inline⟩]) = _
      rw [hinline, served_append_inline]
    · have hbusy : w.serving = [⟨task.number, 0, false⟩] := by
        rw [serving_eq hget rfl]
        simp [served, Thread.deeds, hserved]
      refine ⟨forall_threads rfl h.fits ⟨.idle 0, fun _ => ⟨rfl, fun _ => rfl⟩⟩, h.accepted, ?_⟩
      rw [serving_eq (getElem?_set hget rfl) rfl]
      show served w.record.begun = served (w.record.ended ++ [⟨task.number, 0, task.inline⟩]) ++ []
      rw [h.begun, hbusy, hserved, served_append, List.append_nil]
      rfl

theorem line_opened (name : String) (s : σ) (clients : Nat) : (opened name s clients).Line where
  fits := by
    intro j thread hget
    obtain rfl := eq_of_opened hget
    exact ⟨.idle j, fun _ => ⟨rfl, fun _ => rfl⟩⟩
  accepted := rfl
  begun := rfl

end WindowedMetrics.Workshop
