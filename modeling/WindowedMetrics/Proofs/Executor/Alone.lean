import WindowedMetrics.Proofs.Executor.Turns

/-!
# One client alone

A client that waits until the worker is through with each request sees what the executor does with the requests
in a row (`Workshop.run_alone`).
-/

namespace WindowedMetrics

variable {σ : Type}

/-- What a client asks of an executor. -/
inductive Executor.Demand (σ : Type) where
  | execute (job : Job σ)
  | shutdown

/-- What an executor does when asked, with the executor afterwards. -/
def Executor.serve (e : Executor) (s : σ) : Executor.Demand σ → Logged (σ × Executor)
  | .execute job => do
    let s ← e.execute job s
    return (s, e)
  | .shutdown => return (s, e.shutdown)

/-- What an executor does when asked for one thing after the other. -/
def Executor.serveAll (e : Executor) (s : σ) (demands : List (Executor.Demand σ)) : Logged (σ × Executor) :=
  demands.foldlM (fun p demand => p.2.serve p.1 demand) (s, e)

namespace Workshop

/-- The request that a client makes. -/
def demanded : Executor.Demand σ → Request σ
  | .execute job => .execute job.errand
  | .shutdown => .shutdown

/-- The requests among some moves, with those who make them. -/
def requests (moves : List (Nat × Move σ)) : List (Nat × Request σ) :=
  moves.filterMap fun move => match move.2 with
    | .ask request => some (move.1, request)
    | .go => none

/-- One client and the worker, with nothing to do. -/
def idle (name : String) (s : σ) (log : List Event) (running : Bool) (record : Record) : Workshop σ :=
  { name, state := s, log, threads := [⟨.ready, []⟩, ⟨.ready, []⟩], sender := running, handle := running,
    stopped := !running, record }

theorem run_append (w : Workshop σ) (moves others : List (Nat × Move σ)) :
    w.run (moves ++ others) = (w.run moves).run others := List.foldl_append

theorem act_go_of_running {w : Workshop σ} {i : Nat} {task : Running σ} {running : List (Running σ)}
    (hget : w.threads[i]? = some ⟨.ready, task :: running⟩) : w.act i .go = w.work i task running := by
  simp [act, go?, hget, next]

/-- The two steps of a job run it to its end. -/
theorem run_job {w : Workshop σ} {i number : Nat} {inline : Bool} {running : List (Running σ)} (job : Job σ)
    (hget : w.threads[i]? = some ⟨.ready, ⟨⟨number, job.errand⟩, inline⟩ :: running⟩) :
    w.run [(i, .go), (i, .go)] =
      { w with
        state := (job.runGuarded (place i) w.state).value
        log := w.log ++ (job.runGuarded (place i) w.state).events }.finish i
        ⟨⟨number, .done⟩, inline⟩ running := by
  show (w.act i .go).act i .go = _
  rw [act_go_of_running hget]
  have hnext : (w.work i ⟨⟨number, job.errand⟩, inline⟩ running).threads[i]? =
      some ⟨.ready, ⟨⟨number, .last (job (place i) w.state).2⟩, inline⟩ :: running⟩ := getElem?_set hget rfl
  rw [act_go_of_running hnext]
  unfold Job.runGuarded
  have hset : ∀ thread thread' : Thread σ, (w.threads.set i thread).set i thread' = w.threads.set i thread' :=
    fun _ _ => List.set_set ..
  rcases hjob : job (place i) w.state with ⟨s', _ | failure⟩ <;>
    simp [work, Job.errand, Errand.last, finish, setThread, hjob, hset]

variable (name : String) (s : σ) (log : List Event) (record : Record)

/-- A task that is accepted is the next that the worker begins. -/
theorem idle_begin_running (errand : Errand σ) :
    ∃ record', (idle name s log true record).run
        [(1, .ask (.execute errand)), (1, .go), (1, .go), (1, .go), (0, .go)] =
      { idle name s log true record' with
        threads := [⟨.ready, [⟨⟨record.callers.length, errand⟩, false⟩]⟩, ⟨.ready, []⟩] } :=
  ⟨_, rfl⟩

/-- A task that is refused is begun by its caller. -/
theorem idle_begin_stopped (errand : Errand σ) :
    ∃ record', (idle name s log false record).run
        [(1, .ask (.execute errand)), (1, .go), (1, .go), (1, .go), (1, .go)] =
      { idle name s (log ++ [Event.executorStopped name]) false record' with
        threads := [⟨.ready, []⟩, ⟨.ready, [⟨⟨record.callers.length, errand⟩, true⟩]⟩] } :=
  ⟨_, rfl⟩

theorem idle_execute_running (job : Job σ) :
    ∃ record', (idle name s log true record).run
        ([(1, .ask (.execute job.errand)), (1, .go), (1, .go), (1, .go), (0, .go)] ++ [(0, .go), (0, .go)]) =
      idle name (job.runGuarded .worker s).value (log ++ (job.runGuarded .worker s).events) true record' := by
  obtain ⟨record', hbegin⟩ := idle_begin_running name s log record job.errand
  rw [run_append, hbegin, run_job job rfl]
  exact ⟨_, rfl⟩

theorem idle_execute_stopped (job : Job σ) :
    ∃ record', (idle name s log false record).run
        ([(1, .ask (.execute job.errand)), (1, .go), (1, .go), (1, .go), (1, .go)] ++ [(1, .go), (1, .go)]) =
      idle name (job.runGuarded .caller s).value
        (log ++ [Event.executorStopped name] ++ (job.runGuarded .caller s).events) false record' := by
  obtain ⟨record', hbegin⟩ := idle_begin_stopped name s log record job.errand
  rw [run_append, hbegin, run_job job rfl]
  exact ⟨_, rfl⟩

theorem idle_close (running : Bool) :
    (idle name s log running record).run [(1, .ask .shutdown), (1, .go), (1, .go), (1, .go)] =
      { idle name s log running record with
        sender := false, threads := [⟨.ready, []⟩, ⟨.coming, []⟩] } := rfl

/-- The worker ends while a shutdown waits for that. -/
theorem idle_shutdown_running :
    ∃ record', (idle name s log true record).run
        ([(1, .ask .shutdown), (1, .go), (1, .go), (1, .go)] ++
          ([(1, .go), (1, .go), (0, .go)] ++ [(1, .go), (1, .go)])) =
      idle name s log false record' := by
  have hjoin : Workshop.run { idle name s log true record with
      sender := false, threads := [⟨.ready, []⟩, ⟨.coming, []⟩] } [(1, .go), (1, .go), (0, .go)] =
      { idle name s log false record with
        threads := [⟨.ready, []⟩, ⟨.joining, []⟩], handleLock := some 1 } := rfl
  rw [run_append, idle_close, run_append, hjoin]
  exact ⟨_, rfl⟩

/-- A later shutdown finds no handle. -/
theorem idle_shutdown_stopped :
    ∃ record', (idle name s log false record).run
        ([(1, .ask .shutdown), (1, .go), (1, .go), (1, .go)] ++ [(1, .go), (1, .go), (1, .go)]) =
      idle name s log false record' := by
  rw [run_append, idle_close]
  exact ⟨_, rfl⟩

/-- The steps of one request, with those of the worker, do what the executor does. -/
theorem idle_serve (running : Bool) (demand : Executor.Demand σ) :
    let out := (Executor.worker name running).serve s demand
    ∃ moves record' running', requests moves = [(1, demanded demand)] ∧ out.value.2 = .worker name running' ∧
      (idle name s log running record).run moves = idle name out.value.1 (log ++ out.events) running' record' := by
  intro out
  cases demand with
  | execute job =>
    cases running with
    | true =>
      obtain ⟨record', hrun⟩ := idle_execute_running name s log record job
      refine ⟨_, record', true, rfl, rfl, hrun.trans ?_⟩
      simp [out, Executor.serve, Executor.execute]
    | false =>
      obtain ⟨record', hrun⟩ := idle_execute_stopped name s log record job
      refine ⟨_, record', false, rfl, rfl, hrun.trans ?_⟩
      simp [out, Executor.serve, Executor.execute]
  | shutdown =>
    have hlog : log ++ out.events = log := List.append_nil log
    rw [hlog]
    cases running with
    | true =>
      obtain ⟨record', hrun⟩ := idle_shutdown_running name s log record
      exact ⟨_, record', false, rfl, rfl, hrun⟩
    | false =>
      obtain ⟨record', hrun⟩ := idle_shutdown_stopped name s log record
      exact ⟨_, record', false, rfl, rfl, hrun⟩

theorem idle_serveAll (running : Bool) (demands : List (Executor.Demand σ)) :
    let out := (Executor.worker name running).serveAll s demands
    ∃ moves record' running', requests moves = demands.map (fun demand => (1, demanded demand)) ∧
      out.value.2 = .worker name running' ∧
      (idle name s log running record).run moves = idle name out.value.1 (log ++ out.events) running' record' := by
  induction demands generalizing s log running record with
  | nil => exact ⟨[], record, running, rfl, rfl, by simp [Executor.serveAll, run]⟩
  | cons demand demands ih =>
    obtain ⟨moves, record', running', hmoves, hexecutor, hrun⟩ := idle_serve name s log record running demand
    obtain ⟨out, hout⟩ : ∃ out, out = (Executor.worker name running).serve s demand := ⟨_, rfl⟩
    rw [← hout] at hexecutor hrun
    obtain ⟨more, record'', running'', hmore, hexecutor', hrun'⟩ :=
      ih out.value.1 (log ++ out.events) record' running'
    have hall : (Executor.worker name running).serveAll s (demand :: demands) =
        out >>= fun p => p.2.serveAll p.1 demands := by
      rw [hout]
      rfl
    rw [hall]
    refine ⟨moves ++ more, record'', running'', ?_, ?_, ?_⟩
    · rw [requests, List.filterMap_append, List.map_cons]
      exact congrArg₂ _ hmoves hmore
    · rw [Logged.value_bind, hexecutor]
      exact hexecutor'
    · rw [run_append, hrun, hrun', Logged.value_bind, Logged.events_bind, hexecutor, List.append_assoc]

/-- **One client alone**: when the worker is through with each request before the client makes the next one, the
state, the log and the executor become what the requests make of them in a row. -/
theorem run_alone (demands : List (Executor.Demand σ)) :
    let out := (Executor.worker name true).serveAll s demands
    ∃ moves, requests moves = demands.map (fun demand => (1, demanded demand)) ∧
      let w := (opened name s 1).run moves
      w.state = out.value.1 ∧ w.log = out.events ∧ out.value.2 = .worker name w.sender := by
  obtain ⟨moves, record', running', hmoves, hexecutor, hrun⟩ := idle_serveAll name s [] {} true demands
  refine ⟨moves, hmoves, ?_⟩
  have hopened : opened name s 1 = idle name s [] true {} := rfl
  rw [hopened, hrun]
  exact ⟨rfl, rfl, hexecutor⟩

end Workshop

end WindowedMetrics
