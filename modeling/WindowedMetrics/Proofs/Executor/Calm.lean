import WindowedMetrics.Proofs.Executor.Workshop

/-!
# Tasks that fail

With `calm` every task that would fail ends instead at the same point.  The threads make the same steps then, with
the same state, the same queue and the same record, and the log is short of the failures only
(`Workshop.calm_run`): a failure stops nobody and reaches nobody.
-/

namespace WindowedMetrics

variable {σ : Type}

/-- The task that ends where this one fails. -/
def Errand.calm : Errand σ → Errand σ
  | .done | .fail _ => .done
  | .act change next => .act change fun place s => (next place s).calm
  | .hand task rest => .hand task.calm rest.calm

def Event.isFailure : Event → Bool
  | .taskFailed _ => true
  | _ => false

namespace Workshop

def Ticket.calm (ticket : Ticket σ) : Ticket σ := { ticket with errand := ticket.errand.calm }

def Running.calm (task : Running σ) : Running σ := { task with errand := task.errand.calm }

def Call.calm : Call σ → Call σ
  | .hand ticket => .hand ticket.calm
  | .close => .close

def Outcome.calm : Outcome σ → Outcome σ
  | .refused ticket => .refused ticket.calm
  | .accepted number => .accepted number
  | .closed => .closed

def Stage.calm : Stage σ → Stage σ
  | .waiting call => .waiting call.calm
  | .inside call => .inside call.calm
  | .leaving outcome => .leaving outcome.calm
  | .refused ticket => .refused ticket.calm
  | .ready => .ready
  | .coming => .coming
  | .looking => .looking
  | .joining => .joining
  | .parting => .parting

def Thread.calm (thread : Thread σ) : Thread σ := ⟨thread.stage.calm, thread.running.map Running.calm⟩

def Request.calm : Request σ → Request σ
  | .execute errand => .execute errand.calm
  | .shutdown => .shutdown

def Move.calm : Move σ → Move σ
  | .ask request => .ask request.calm
  | .go => .go

/-- The same threads with tasks that do not fail. -/
def calm (w : Workshop σ) : Workshop σ :=
  { w with
    log := w.log.filter fun event => !event.isFailure
    threads := w.threads.map Thread.calm
    queue := w.queue.map Ticket.calm }

variable (w : Workshop σ) (i : Nat)

theorem calm_setThread (thread : Thread σ) : (w.setThread i thread).calm = w.calm.setThread i thread.calm := by
  simp only [calm, setThread, List.map_set]

theorem calm_handOver (errand : Errand σ) (running : List (Running σ)) :
    (w.handOver i errand running).calm = w.calm.handOver i errand.calm (running.map Running.calm) := by
  simp only [calm, handOver, setThread, List.map_set]
  rfl

theorem calm_start (ticket : Ticket σ) (inline : Bool) (running : List (Running σ)) :
    (w.start i ticket inline running).calm = w.calm.start i ticket.calm inline (running.map Running.calm) := by
  simp only [calm, start, setThread, List.map_set]
  rfl

theorem calm_finish (task : Running σ) (running : List (Running σ)) :
    (w.finish i task running).calm = w.calm.finish i task.calm (running.map Running.calm) := by
  simp only [calm, finish, setThread, List.map_set]
  rfl

theorem calm_accept (ticket : Ticket σ) (running : List (Running σ)) :
    (w.accept i ticket running).calm = w.calm.accept i ticket.calm (running.map Running.calm) := by
  simp only [calm, accept, setThread, List.map_set, List.map_append]
  rfl

/-- An event that is not a failure is in both logs. -/
theorem calm_emit {event : Event} (h : event.isFailure = false) :
    calm { w with log := w.log ++ [event] } = { w.calm with log := w.calm.log ++ [event] } := by
  simp [calm, h]

/-- A failure is in one log only. -/
theorem calm_emit_failure (failure : TaskFailure) :
    calm { w with log := w.log ++ [Event.taskFailed failure.message] } = w.calm := by
  simp [calm, Event.isFailure]

/-- A task that fails is finished like one that ends. -/
theorem calm_work (task : Running σ) (running : List (Running σ)) :
    (w.work i task running).calm = w.calm.work i task.calm (running.map Running.calm) := by
  obtain ⟨⟨number, errand⟩, inline⟩ := task
  cases errand with
  | done => exact calm_finish w i _ running
  | fail failure =>
    refine (calm_finish _ i _ running).trans ?_
    rw [calm_emit_failure]
    rfl
  | act change next => exact calm_setThread _ i _
  | hand errand rest => exact calm_handOver w i errand _

theorem calm_receive : w.calm.receive i = (w.receive i).map calm := by
  have hmap : w.calm.queue = w.queue.map Ticket.calm := rfl
  unfold receive
  by_cases hstopped : w.stopped = true
  · rw [if_pos hstopped, if_pos (by exact hstopped)]
    rfl
  · rw [if_neg hstopped, if_neg (by exact hstopped), hmap]
    cases hqueue : w.queue with
    | nil =>
      dsimp only [List.map_nil]
      by_cases hsender : w.sender = true
      · rw [if_pos hsender, if_pos (by exact hsender)]
        rfl
      · rw [if_neg hsender, if_neg (by exact hsender)]
        rfl
    | cons ticket queue => exact congrArg some (calm_start { w with queue } i ticket false []).symm

theorem calm_useSender (call : Call σ) (running : List (Running σ)) :
    (w.useSender i call running).calm = w.calm.useSender i call.calm (running.map Running.calm) := by
  cases call with
  | hand ticket =>
    by_cases hopen : (w.sender && !w.stopped) = true
    · have hlhs : w.useSender i (.hand ticket) running = w.accept i ticket running := if_pos hopen
      rw [hlhs, calm_accept]
      exact (if_pos (by exact hopen)).symm
    · have hlhs : w.useSender i (.hand ticket) running = w.setThread i ⟨.leaving (.refused ticket), running⟩ :=
        if_neg hopen
      rw [hlhs, calm_setThread]
      exact (if_neg (by exact hopen)).symm
  | close =>
    simp only [useSender, calm, setThread, List.map_set]
    rfl

theorem calm_leave (outcome : Outcome σ) (running : List (Running σ)) :
    (w.leave i outcome running).calm = w.calm.leave i outcome.calm (running.map Running.calm) := by
  cases outcome <;> simp only [calm, leave, setThread, List.map_set] <;> rfl

theorem calm_next (thread : Thread σ) : w.calm.next i thread.calm = (w.next i thread).map calm := by
  obtain ⟨stage, running⟩ := thread
  cases stage with
  | ready =>
    cases running with
    | nil =>
      show (if i = 0 then w.calm.receive i else none) = Option.map calm (if i = 0 then w.receive i else none)
      rw [calm_receive]
      split <;> rfl
    | cons task running => exact congrArg some (calm_work w i task running).symm
  | waiting call =>
    show (if w.senderLock = none then some _ else none) = Option.map calm (if w.senderLock = none then some _ else none)
    split
    · simp only [Option.map_some, calm, setThread, List.map_set]
      rfl
    · rfl
  | inside call => exact congrArg some (calm_useSender w i call running).symm
  | leaving outcome => exact congrArg some (calm_leave w i outcome running).symm
  | refused ticket =>
    refine congrArg some ((calm_start _ i ticket true running).trans ?_).symm
    rw [calm_emit w rfl]
    rfl
  | coming =>
    show (if w.handleLock = none then some _ else none) = Option.map calm (if w.handleLock = none then some _ else none)
    split
    · simp only [Option.map_some, calm, setThread, List.map_set]
      rfl
    · rfl
  | looking =>
    show (if w.handle = true then some _ else some _) = Option.map calm (if w.handle = true then some _ else some _)
    split <;> simp only [Option.map_some, calm, setThread, List.map_set] <;> rfl
  | joining =>
    show (if w.stopped = true then some _ else none) = Option.map calm (if w.stopped = true then some _ else none)
    split
    · exact congrArg some (calm_setThread w i ⟨.parting, running⟩).symm
    · rfl
  | parting =>
    simp only [next, Option.map_some, calm, setThread, List.map_set]
    rfl

theorem calm_go? : w.calm.go? i = (w.go? i).map calm := by
  unfold go?
  show (w.threads.map Thread.calm)[i]?.bind _ = _
  rw [List.getElem?_map]
  cases w.threads[i]? with
  | none => rfl
  | some thread => exact calm_next w i thread

theorem calm_ask (request : Request σ) : (w.ask i request).calm = w.calm.ask i request.calm := by
  unfold ask
  rw [show w.calm.threads[i]? = w.threads[i]?.map Thread.calm from List.getElem?_map]
  rcases w.threads[i]? with _ | ⟨stage, running⟩
  · rfl
  cases stage with
  | ready =>
    cases running with
    | nil =>
      show (if i = 0 then w else _).calm = if i = 0 then w.calm else _
      split
      · rfl
      · cases request with
        | execute errand => exact calm_handOver w i errand []
        | shutdown => exact calm_setThread w i _
    | cons => rfl
  | waiting | inside | leaving | refused | coming | looking | joining | parting => rfl

theorem calm_act (move : Move σ) : (w.act i move).calm = w.calm.act i move.calm := by
  cases move with
  | ask request => exact calm_ask w i request
  | go =>
    show ((w.go? i).getD w).calm = (w.calm.go? i).getD w.calm
    rw [calm_go?]
    cases w.go? i <;> rfl

/-- **Failures reach nobody**: the same moves with tasks that end where these fail come to the same, but for the
failures in the log. -/
theorem calm_run (moves : List (Nat × Move σ)) :
    (w.run moves).calm = w.calm.run (moves.map fun move => (move.1, move.2.calm)) := by
  induction moves generalizing w with
  | nil => rfl
  | cons move moves ih =>
    show ((w.act move.1 move.2).run moves).calm = _
    rw [ih, calm_act]
    rfl

end Workshop

end WindowedMetrics
