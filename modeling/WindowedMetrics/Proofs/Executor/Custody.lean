import Mathlib.Data.List.Nodup
import WindowedMetrics.Proofs.Executor.Turns

/-!
# Each task in one place

A task that was handed over is in the hands of one thread, or in the queue, or has begun; it has begun once, and
runs or has ended; and its call has returned or will.  The three are permutations, which every move keeps
(`Workshop.Custody.turn`).
-/

namespace WindowedMetrics.Workshop

open scoped List

variable {σ : Type} {w d : Workshop σ} {i : Nat} {move : Move σ} {thread thread' : Thread σ}

/-- Each task is in one place. -/
structure Custody (w : Workshop σ) : Prop where
  handed : w.carried ++ w.queued ++ w.record.begun.map (·.number) ~ List.range w.record.callers.length
  begun : w.underway ++ w.record.ended ~ w.record.begun
  called : w.awaited ++ w.record.returned ~ List.range w.record.callers.length

/-- No task begins twice. -/
theorem Custody.nodup_begun (h : w.Custody) : (w.record.begun.map (·.number)).Nodup :=
  (h.handed.nodup_iff.mpr List.nodup_range).of_append_right

/-- One item moves to the end of the next list. -/
private theorem perm_move {β : Type} (b : β) (from' to' rest : List β) :
    from' ++ (to' ++ [b]) ++ rest ~ b :: from' ++ to' ++ rest := by
  rw [← List.append_assoc, List.cons_append]
  exact (List.perm_append_singleton b _).append_right rest

/-- One item moves to the end. -/
private theorem perm_move_last {β : Type} (b : β) (from' rest to' : List β) :
    b :: from' ++ rest ++ to' ~ from' ++ rest ++ (to' ++ [b]) := by
  rw [← List.append_assoc]
  exact (List.perm_append_singleton b _).symm

/-- What one thread gives away, another place gets. -/
theorem Custody.turnover (h : w.Custody) (hget : w.threads[i]? = some thread)
    (hd : d.threads = w.threads.set i thread')
    (hhanded : thread'.carried ++ d.queued ++ d.record.begun.map (·.number) ++ List.range w.record.callers.length ~
      thread.carried ++ w.queued ++ w.record.begun.map (·.number) ++ List.range d.record.callers.length)
    (hbegun : thread'.deeds i ++ d.record.ended ++ w.record.begun ~
      thread.deeds i ++ w.record.ended ++ d.record.begun)
    (hcalled : thread'.awaited ++ d.record.returned ++ List.range w.record.callers.length ~
      thread.awaited ++ w.record.returned ++ List.range d.record.callers.length) : d.Custody := by
  have hcarried : d.carried ++ thread.carried ~ w.carried ++ thread'.carried := gather_perm hget hd _
  have hunderway : d.underway ++ thread.deeds i ~ w.underway ++ thread'.deeds i := gather_perm hget hd _
  have hawaited : d.awaited ++ thread.awaited ~ w.awaited ++ thread'.awaited := gather_perm hget hd _
  refine ⟨?_, ?_, ?_⟩
  · refine List.perm_iff_count.mpr fun n => ?_
    have hold := h.handed.count_eq n
    have hmoved := hcarried.count_eq n
    have hbooked := hhanded.count_eq n
    simp only [List.count_append] at hold hmoved hbooked ⊢
    omega
  · refine List.perm_iff_count.mpr fun deed => ?_
    have hold := h.begun.count_eq deed
    have hmoved := hunderway.count_eq deed
    have hbooked := hbegun.count_eq deed
    simp only [List.count_append] at hold hmoved hbooked ⊢
    omega
  · refine List.perm_iff_count.mpr fun n => ?_
    have hold := h.called.count_eq n
    have hmoved := hawaited.count_eq n
    have hbooked := hcalled.count_eq n
    simp only [List.count_append] at hold hmoved hbooked ⊢
    omega

/-- A thread goes on with the same tasks. -/
theorem Custody.same (h : w.Custody) (hget : w.threads[i]? = some thread)
    (hd : d.threads = w.threads.set i thread') (hcarried : thread'.carried = thread.carried)
    (hdeeds : thread'.deeds i = thread.deeds i) (hawaited : thread'.awaited = thread.awaited)
    (hqueued : d.queued = w.queued) (hcallers : d.record.callers = w.record.callers)
    (hbegun : d.record.begun = w.record.begun) (hended : d.record.ended = w.record.ended)
    (hreturned : d.record.returned = w.record.returned) : d.Custody :=
  h.turnover hget hd (by rw [hcarried, hqueued, hbegun, hcallers]) (by rw [hdeeds, hended, hbegun])
    (by rw [hawaited, hreturned, hcallers])

/-- A new task is in the hands of its caller. -/
theorem Custody.handOver (h : w.Custody) (hget : w.threads[i]? = some thread) (errand : Errand σ)
    {running : List (Running σ)} (hcarried : thread.carried = [])
    (hdeeds : Thread.deeds i ⟨.ready, running⟩ = thread.deeds i)
    (hawaited : Thread.awaited ⟨.ready, running⟩ = thread.awaited) :
    (w.handOver i errand running).Custody := by
  have hrange : List.range (w.handOver i errand running).record.callers.length =
      List.range w.record.callers.length ++ [w.record.callers.length] := by
    rw [← List.range_succ]
    exact congrArg List.range (List.length_append ..)
  refine h.turnover hget rfl ?_ ?_ ?_
  · rw [hcarried, hrange]
    exact perm_move_last _ w.queued _ _
  · rw [← hdeeds]
    exact .refl _
  · rw [← hawaited, hrange]
    exact perm_move_last _ (Thread.awaited ⟨.ready, running⟩) _ _

/-- A task begins that was in the hands of a thread, or in the queue. -/
theorem Custody.start (h : w.Custody) (hget : w.threads[i]? = some thread) {ticket : Ticket σ} {inline : Bool}
    {running : List (Running σ)} (hqueued : thread.carried ++ w.queued = ticket.number :: d.queued)
    (hd : d.threads = w.threads.set i ⟨.ready, ⟨ticket, inline⟩ :: running⟩)
    (hdeeds : Thread.deeds i ⟨.ready, running⟩ = thread.deeds i)
    (hawaited : Thread.awaited ⟨.ready, ⟨ticket, inline⟩ :: running⟩ = thread.awaited)
    (hrecord : d.record = { w.record with begun := w.record.begun ++ [⟨ticket.number, i, inline⟩] }) :
    d.Custody := by
  refine h.turnover hget hd ?_ ?_ ?_
  · rw [hrecord, hqueued, List.map_append]
    exact perm_move _ d.queued _ _
  · rw [hrecord, ← hdeeds]
    exact perm_move_last _ (Thread.deeds i ⟨.ready, running⟩) _ _
  · rw [hrecord, hawaited]

/-- **Every move** leaves each task in one place. -/
theorem Custody.turn (h : w.Custody) (hturn : w.Turn i move d) : d.Custody := by
  cases hturn with
  | stay => exact h
  | stop => exact ⟨h.handed, h.begun, h.called⟩
  | execute errand hget => exact h.handOver hget errand rfl rfl rfl
  | submit task running errand rest hget =>
    refine h.handOver hget errand rfl rfl ?_
    cases hinline : task.inline <;> simp [Thread.awaited, hinline]
  | advance task running change next hget =>
    refine h.same hget rfl rfl rfl ?_ rfl rfl rfl rfl rfl
    cases hinline : task.inline <;> simp [Thread.awaited, hinline]
  | shutdown hget | lockHandle running hget | take running hget | miss running hget | join running hget
  | part running hget | close running hget | refuse ticket running hget =>
    exact h.same hget rfl rfl rfl rfl rfl rfl rfl rfl rfl
  | lock call running hget =>
    cases call <;> exact h.same hget rfl rfl rfl rfl rfl rfl rfl rfl rfl
  | serve ticket queue hget hi hqueue =>
    refine h.start hget ?_ rfl rfl rfl rfl
    show w.queue.map (·.number) = _
    rw [hqueue]
    rfl
  | begin ticket running log hget => exact h.start hget rfl rfl rfl rfl rfl
  | accept ticket running hget =>
    have hqueued : (w.queue ++ [ticket]).map (·.number) = w.queued ++ [ticket.number] := List.map_append
    refine h.turnover hget rfl ?_ (.refl _) (.refl _)
    show [] ++ (w.queue ++ [ticket]).map (·.number) ++ _ ++ _ ~ [ticket.number] ++ w.queued ++ _ ++ _
    rw [hqueued]
    exact (perm_move ticket.number [] w.queued _).append_right _
  | leave outcome running hget =>
    cases outcome with
    | accepted number => exact h.turnover hget rfl (.refl _) (.refl _) (perm_move number _ _ _)
    | refused | closed => exact h.same hget rfl rfl rfl rfl rfl rfl rfl rfl rfl
  | finish task running log hget =>
    refine h.turnover hget rfl (.refl _) (perm_move _ (Thread.deeds i ⟨.ready, running⟩) _ _) ?_
    cases hinline : task.inline with
    | false => simp [Workshop.finish, setThread, Thread.awaited, Stage.pending, Stage.tickets, hinline]
    | true =>
      have hreturns : ({ w with log }.finish i task running).record.returned =
          w.record.returned ++ [task.number] := by simp [Workshop.finish, hinline]
      have hawaited : Thread.awaited ⟨.ready, task :: running⟩ =
          task.number :: Thread.awaited ⟨.ready, running⟩ := by
        simp [Thread.awaited, hinline, Stage.pending, Stage.tickets]
      rw [hreturns, hawaited]
      exact perm_move _ _ _ _

theorem custody_opened (name : String) (s : σ) (clients : Nat) : (opened name s clients).Custody := by
  have hready : ∀ (i : Nat) (thread : Thread σ), (opened name s clients).threads[i]? = some thread →
      thread = ⟨.ready, []⟩ := fun i thread => eq_of_opened
  refine ⟨?_, ?_, ?_⟩
  · rw [carried, gather_eq_nil hready _ fun _ => rfl]
    exact .refl _
  · rw [underway, gather_eq_nil hready _ fun _ => rfl]
    exact .refl _
  · rw [awaited, gather_eq_nil hready _ fun _ => rfl]
    exact .refl _

end WindowedMetrics.Workshop
