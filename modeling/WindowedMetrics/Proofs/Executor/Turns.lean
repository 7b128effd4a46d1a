import Mathlib.Data.List.Perm.Basic
import WindowedMetrics.Proofs.Executor.Workshop

/-!
# What a move comes to

`Workshop.Turn` has one case for each thing that a move of a thread can do, with all that is known then.  What
is proved about every move is proved case by case, and `Workshop.turn_act` carries it over.
-/

namespace WindowedMetrics

variable {σ : Type}

/-- What can be left of a task after one step, or be handed over in it. -/
inductive Errand.Part : Errand σ → Errand σ → Prop where
  | next (change : Place → σ → σ) (next : Place → σ → Errand σ) (place : Place) (s : σ) :
    Part (next place s) (.act change next)
  | task (task rest : Errand σ) : Part task (.hand task rest)
  | rest (task rest : Errand σ) : Part rest (.hand task rest)

namespace Workshop

/-- What a move of a thread comes to. -/
inductive Turn (w : Workshop σ) (i : Nat) : Move σ → Workshop σ → Prop where
  | stay {move : Move σ} : (move = .go → w.go? i = none) → Turn w i move w
  | execute (errand : Errand σ) : w.threads[i]? = some ⟨.ready, []⟩ → i ≠ 0 →
    Turn w i (.ask (.execute errand)) (w.handOver i errand [])
  | shutdown : w.threads[i]? = some ⟨.ready, []⟩ → i ≠ 0 →
    Turn w i (.ask .shutdown) (w.setThread i ⟨.waiting .close, []⟩)
  | serve (ticket : Ticket σ) (queue : List (Ticket σ)) : w.threads[i]? = some ⟨.ready, []⟩ → i = 0 →
    w.queue = ticket :: queue → Turn w i .go ({ w with queue }.start i ticket false [])
  | stop : w.threads[i]? = some ⟨.ready, []⟩ → i = 0 → w.queue = [] → w.sender = false →
    w.stopped = false → Turn w i .go { w with stopped := true }
  | finish (task : Running σ) (running : List (Running σ)) (log : List Event) {failure : Option TaskFailure} :
    w.threads[i]? = some ⟨.ready, task :: running⟩ → task.errand = .last failure →
    Turn w i .go ({ w with log }.finish i task running)
  | advance (task : Running σ) (running : List (Running σ)) (change : Place → σ → σ)
    (next : Place → σ → Errand σ) : w.threads[i]? = some ⟨.ready, task :: running⟩ →
    task.errand = .act change next →
    Turn w i .go ({ w with state := change (place i) w.state }.setThread i
      ⟨.ready, { task with errand := next (place i) w.state } :: running⟩)
  | submit (task : Running σ) (running : List (Running σ)) (errand rest : Errand σ) :
    w.threads[i]? = some ⟨.ready, task :: running⟩ → task.errand = .hand errand rest →
    Turn w i .go (w.handOver i errand ({ task with errand := rest } :: running))
  | lock (call : Call σ) (running : List (Running σ)) : w.threads[i]? = some ⟨.waiting call, running⟩ →
    w.senderLock = none → Turn w i .go { w.setThread i ⟨.inside call, running⟩ with senderLock := some i }
  | accept (ticket : Ticket σ) (running : List (Running σ)) :
    w.threads[i]? = some ⟨.inside (.hand ticket), running⟩ → w.sender = true → w.stopped = false →
    Turn w i .go (w.accept i ticket running)
  | refuse (ticket : Ticket σ) (running : List (Running σ)) :
    w.threads[i]? = some ⟨.inside (.hand ticket), running⟩ →
    Turn w i .go (w.setThread i ⟨.leaving (.refused ticket), running⟩)
  | close (running : List (Running σ)) : w.threads[i]? = some ⟨.inside .close, running⟩ →
    Turn w i .go { w.setThread i ⟨.leaving .closed, running⟩ with sender := false }
  | leave (outcome : Outcome σ) (running : List (Running σ)) :
    w.threads[i]? = some ⟨.leaving outcome, running⟩ → Turn w i .go (w.leave i outcome running)
  | begin (ticket : Ticket σ) (running : List (Running σ)) (log : List Event) :
    w.threads[i]? = some ⟨.refused ticket, running⟩ →
    Turn w i .go ({ w with log }.start i ticket true running)
  | lockHandle (running : List (Running σ)) : w.threads[i]? = some ⟨.coming, running⟩ →
    w.handleLock = none → Turn w i .go { w.setThread i ⟨.looking, running⟩ with handleLock := some i }
  | take (running : List (Running σ)) : w.threads[i]? = some ⟨.looking, running⟩ → w.handle = true →
    Turn w i .go { w.setThread i ⟨.joining, running⟩ with handle := false }
  | miss (running : List (Running σ)) : w.threads[i]? = some ⟨.looking, running⟩ → w.handle = false →
    Turn w i .go (w.setThread i ⟨.parting, running⟩)
  | join (running : List (Running σ)) : w.threads[i]? = some ⟨.joining, running⟩ → w.stopped = true →
    Turn w i .go (w.setThread i ⟨.parting, running⟩)
  | part (running : List (Running σ)) : w.threads[i]? = some ⟨.parting, running⟩ →
    Turn w i .go { w.setThread i ⟨.ready, running⟩ with
      handleLock := none, record.shutdowns := w.record.shutdowns + 1 }

variable {w d : Workshop σ} {i : Nat}

/-- **A thread that goes on** makes one of these turns. -/
theorem turn_of_go? (h : w.go? i = some d) : w.Turn i .go d := by
  obtain ⟨thread, hget, hnext⟩ := Option.bind_eq_some_iff.mp h
  obtain ⟨stage, running⟩ := thread
  cases stage with
  | ready =>
    cases running with
    | nil =>
      by_cases hi : i = 0
      · simp only [next, if_pos hi, receive] at hnext
        split at hnext
        next => cases hnext
        next hstopped =>
          rw [Bool.not_eq_true] at hstopped
          split at hnext
          next ticket queue hqueue =>
            obtain rfl := Option.some.inj hnext
            exact .serve ticket queue hget hi hqueue
          next hqueue =>
            split at hnext
            next => cases hnext
            next hsender =>
              obtain rfl := Option.some.inj hnext
              exact .stop hget hi hqueue (by simpa using hsender) hstopped
      · simp [next, hi] at hnext
    | cons task running =>
      obtain rfl : w.work i task running = d := by simpa [next] using hnext
      unfold work
      cases herrand : task.errand with
      | done => exact .finish task running w.log hget (show task.errand = .last none from herrand)
      | fail failure => exact .finish task running _ hget (show task.errand = .last (some failure) from herrand)
      | act change next => exact .advance task running change next hget herrand
      | hand errand rest => exact .submit task running errand rest hget herrand
  | waiting call =>
    cases hlock : w.senderLock with
    | some j => simp [next, hlock] at hnext
    | none =>
      obtain rfl : _ = d := by simpa [next, hlock] using hnext
      exact .lock call running hget hlock
  | inside call =>
    obtain rfl : w.useSender i call running = d := by simpa [next] using hnext
    cases call with
    | hand ticket =>
      unfold useSender
      dsimp only
      split
      next hopen =>
        rw [Bool.and_eq_true, Bool.not_eq_true'] at hopen
        exact .accept ticket running hget hopen.1 hopen.2
      next => exact .refuse ticket running hget
    | close => exact .close running hget
  | leaving outcome =>
    obtain rfl : w.leave i outcome running = d := by simpa [next] using hnext
    exact .leave outcome running hget
  | refused ticket =>
    obtain rfl : _ = d := by simpa [next] using hnext
    exact .begin ticket running _ hget
  | coming =>
    cases hlock : w.handleLock with
    | some j => simp [next, hlock] at hnext
    | none =>
      obtain rfl : _ = d := by simpa [next, hlock] using hnext
      exact .lockHandle running hget hlock
  | looking =>
    cases hhandle : w.handle with
    | true =>
      obtain rfl : _ = d := by simpa [next, hhandle] using hnext
      exact .take running hget hhandle
    | false =>
      obtain rfl : _ = d := by simpa [next, hhandle] using hnext
      exact .miss running hget hhandle
  | joining =>
    cases hstopped : w.stopped with
    | false => simp [next, hstopped] at hnext
    | true =>
      obtain rfl : _ = d := by simpa [next, hstopped] using hnext
      exact .join running hget hstopped
  | parting =>
    obtain rfl : _ = d := by simpa [next] using hnext
    exact .part running hget

/-- **Every move** makes one of these turns. -/
theorem turn_act (w : Workshop σ) (i : Nat) (move : Move σ) : w.Turn i move (w.act i move) := by
  cases move with
  | go =>
    show w.Turn i .go ((w.go? i).getD w)
    cases hgo : w.go? i with
    | none => exact .stay fun _ => hgo
    | some d => exact turn_of_go? hgo
  | ask request =>
    show w.Turn i (.ask request) (w.ask i request)
    unfold ask
    split
    next hget =>
      by_cases hi : i = 0
      · rw [if_pos hi]
        exact .stay nofun
      · rw [if_neg hi]
        cases request with
        | execute errand => exact .execute errand hget hi
        | shutdown => exact .shutdown hget hi
    next => exact .stay nofun

/-! ### One thread changes -/

section Gather

open scoped List

variable {β : Type} {thread thread' : Thread σ}

theorem getElem?_set (hget : w.threads[i]? = some thread) (hd : d.threads = w.threads.set i thread') :
    d.threads[i]? = some thread' := by
  rw [hd]
  exact List.getElem?_set_self (List.getElem?_eq_some_iff.mp hget).1

/-- What one thread has, and what the others have. -/
theorem gather_perm_cons (hget : w.threads[i]? = some thread) (f : Nat → Thread σ → List β) :
    (w.gather f).Perm (f i thread ++ ((w.threads.mapIdx f).eraseIdx i).flatten) := by
  have hmap : (w.threads.mapIdx f)[i]? = some (f i thread) := by simp [hget]
  obtain ⟨hlt, hx⟩ := List.getElem?_eq_some_iff.mp hmap
  have hperm := (List.getElem_cons_eraseIdx_perm hlt).flatten
  rw [List.flatten_cons, hx] at hperm
  exact hperm.symm

theorem mem_eraseIdx_gather {j : Nat} {b : β} (hget : w.threads[j]? = some thread) (hj : j ≠ i)
    {f : Nat → Thread σ → List β} (hb : b ∈ f j thread) : b ∈ ((w.threads.mapIdx f).eraseIdx i).flatten :=
  List.mem_flatten.mpr ⟨f j thread, List.mem_eraseIdx_iff_getElem?.mpr ⟨j, hj, by simp [hget]⟩, hb⟩

theorem mem_gather {b : β} (hget : w.threads[i]? = some thread) {f : Nat → Thread σ → List β}
    (hb : b ∈ f i thread) : b ∈ w.gather f :=
  (gather_perm_cons hget f).mem_iff.mpr (List.mem_append_left _ hb)

/-- What a thread had is replaced by what it has. -/
theorem gather_perm (hget : w.threads[i]? = some thread) (hd : d.threads = w.threads.set i thread')
    (f : Nat → Thread σ → List β) : (d.gather f ++ f i thread).Perm (w.gather f ++ f i thread') := by
  have hbefore := gather_perm_cons hget f
  have hafter := gather_perm_cons (getElem?_set hget hd) f
  rw [hd, List.mapIdx_set, List.eraseIdx_set_eq] at hafter
  generalize ((w.threads.mapIdx f).eraseIdx i).flatten = rest at hbefore hafter
  calc d.gather f ++ f i thread
    _ ~ f i thread' ++ rest ++ f i thread := hafter.append_right _
    _ ~ f i thread ++ (f i thread' ++ rest) := List.perm_append_comm
    _ ~ f i thread ++ (rest ++ f i thread') := List.perm_append_comm.append_left _
    _ = f i thread ++ rest ++ f i thread' := (List.append_assoc ..).symm
    _ ~ w.gather f ++ f i thread' := hbefore.symm.append_right _

/-- Threads with nothing to do have nothing. -/
theorem gather_eq_nil (hready : ∀ (i : Nat) (thread : Thread σ), w.threads[i]? = some thread → thread = ⟨.ready, []⟩)
    (f : Nat → Thread σ → List β) (hf : ∀ i, f i ⟨.ready, []⟩ = []) : w.gather f = [] := by
  refine List.flatten_eq_nil_iff.mpr fun l hl => ?_
  obtain ⟨i, hlt, rfl⟩ := List.mem_mapIdx.mp hl
  rw [hready i _ (List.getElem?_eq_getElem hlt), hf]

/-- What holds of every thread holds still if it holds of the thread that changed. -/
theorem forall_threads {P : Nat → Thread σ → Prop} (hd : d.threads = w.threads.set i thread')
    (h : ∀ j thread, w.threads[j]? = some thread → P j thread) (hi : P i thread') :
    ∀ j thread, d.threads[j]? = some thread → P j thread := by
  intro j thread hj
  rw [hd, List.getElem?_set] at hj
  split_ifs at hj with hij hlt
  · cases hj
    exact hij ▸ hi
  · exact h j thread hj

end Gather

theorem eq_of_opened {name : String} {s : σ} {clients : Nat} {thread : Thread σ}
    (hget : (opened name s clients).threads[i]? = some thread) : thread = ⟨.ready, []⟩ :=
  List.eq_of_mem_replicate (List.mem_of_getElem? hget)

end Workshop

end WindowedMetrics
