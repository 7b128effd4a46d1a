import WindowedMetrics.Proofs.Executor.Alone
import WindowedMetrics.Proofs.Executor.Custody

/-!
# What the tasks that ended have done

A chronicle of what clients and tasks do, in the order of time, has who hands a task over and who changes the
shared state from what to what (`Workshop.Feat`).  Its feats account for the tasks and for the state
(`Workshop.Chronicle`): a task that has ended has gone through the errand it was handed over with, on the thread
that began it and to the end; and the changes are those of tasks that have begun, each of which finds the state as
the one before has left it.

Every move can be added to a chronicle (`Workshop.Chronicle.turn`).  As no task runs twice, the feats of a task are
those of the thread that runs it (`Workshop.Custody.apart`).
-/

namespace WindowedMetrics.Workshop

open scoped List

variable {σ : Type}

/-- What a chronicle tells of. -/
inductive Feat (σ : Type) where
  /-- A thread hands a task over: a task that it runs does, or a client. -/
  | handed (thread : Nat) (doer : Option Nat) (errand : Errand σ)
  /-- A task changes the shared state. -/
  | changed (doer : Nat) (before after : σ)

namespace Feat

/-- The number of the task that does it. -/
def doer? : Feat σ → Option Nat
  | .handed _ doer _ => doer
  | .changed doer _ _ => some doer

/-- The thread that hands a task over. -/
def caller? : Feat σ → Option Nat
  | .handed thread _ _ => some thread
  | .changed .. => none

/-- The task handed over. -/
def errand? : Feat σ → Option (Errand σ)
  | .handed _ _ errand => some errand
  | .changed .. => none

/-- The request of a client that hands a task over. -/
def request? : Feat σ → Option (Nat × Request σ)
  | .handed thread none errand => some (thread, .execute errand)
  | _ => none

end Feat

/-- The tasks handed over, which are numbered in this order. -/
def errandsIn (feats : List (Feat σ)) : List (Errand σ) := feats.filterMap Feat.errand?

/-- The feats of one task. -/
def own (number : Nat) (feats : List (Feat σ)) : List (Feat σ) := feats.filter fun feat => feat.doer? = some number

/-- What the feats of a task on some thread leave of its errand. -/
inductive Leaves (thread number : Nat) (errand : Errand σ) : List (Feat σ) → Errand σ → Prop where
  | all : Leaves thread number errand [] errand
  | act {feats : List (Feat σ)} {change : Place → σ → σ} {next : Place → σ → Errand σ} (s : σ) :
    Leaves thread number errand feats (.act change next) →
    Leaves thread number errand (feats ++ [.changed number s (change (place thread) s)]) (next (place thread) s)
  | hand {feats : List (Feat σ)} {task rest : Errand σ} : Leaves thread number errand feats (.hand task rest) →
    Leaves thread number errand (feats ++ [.handed thread (some number) task]) rest

/-- The state that changes lead to, each of which finds what the one before has left. -/
inductive Passes (s : σ) : List (Feat σ) → σ → Prop where
  | none : Passes s [] s
  | handed {feats : List (Feat σ)} {t : σ} (thread : Nat) (doer : Option Nat) (errand : Errand σ) :
    Passes s feats t → Passes s (feats ++ [.handed thread doer errand]) t
  | changed {feats : List (Feat σ)} {t : σ} (doer : Nat) (u : σ) :
    Passes s feats t → Passes s (feats ++ [.changed doer t u]) u

/-- The feats of a task are the beginning of the errand it was handed over with, and this is what is left. -/
def Did (feats : List (Feat σ)) (thread number : Nat) (rest : Errand σ) : Prop :=
  ∃ errand, (errandsIn feats)[number]? = some errand ∧ Leaves thread number errand (own number feats) rest

/-- The chronicle of a worker and its clients. -/
structure Chronicle (s : σ) (moves : List (Nat × Move σ)) (w : Workshop σ) (feats : List (Feat σ)) : Prop where
  callers : w.record.callers = feats.filterMap Feat.caller?
  /-- Clients hand over what they were asked to, in this order. -/
  asked : feats.filterMap Feat.request? <+ requests moves
  state : Passes s feats w.state
  /-- Only tasks that have begun do something. -/
  begun : ∀ feat ∈ feats, ∀ n, feat.doer? = some n → n ∈ w.record.begun.map (·.number)
  tickets : ∀ (j : Nat) (thread : Thread σ), w.threads[j]? = some thread →
    ∀ ticket ∈ thread.stage.tickets, (errandsIn feats)[ticket.number]? = some ticket.errand
  queue : ∀ ticket ∈ w.queue, (errandsIn feats)[ticket.number]? = some ticket.errand
  running : ∀ (j : Nat) (thread : Thread σ), w.threads[j]? = some thread →
    ∀ task ∈ thread.running, Did feats j task.number task.errand
  /-- The tasks that have ended have nothing left but to end or to fail. -/
  ended : ∀ deed ∈ w.record.ended, ∃ failure, Did feats deed.thread deed.number (.last failure)

variable {s : σ} {w d : Workshop σ} {i number : Nat} {move : Move σ} {moves : List (Nat × Move σ)}
  {thread thread' : Thread σ} {feats : List (Feat σ)} {feat : Feat σ} {errand rest : Errand σ}

/-! ### Feats of one task -/

theorem length_errandsIn (feats : List (Feat σ)) :
    (errandsIn feats).length = (feats.filterMap Feat.caller?).length := by
  rw [errandsIn, List.length_filterMap_eq_countP, List.length_filterMap_eq_countP]
  refine List.countP_congr fun feat _ => ?_
  cases feat <;> rfl

theorem own_concat_of_ne (h : feat.doer? ≠ some number) : own number (feats ++ [feat]) = own number feats := by
  simp [own, h]

theorem own_concat_self (h : feat.doer? = some number) :
    own number (feats ++ [feat]) = own number feats ++ [feat] := by
  simp [own, h]

theorem errandsIn_append (feats others : List (Feat σ)) :
    errandsIn (feats ++ others) = errandsIn feats ++ errandsIn others := List.filterMap_append

theorem getElem?_errandsIn_concat (h : (errandsIn feats)[number]? = some errand) (feat : Feat σ) :
    (errandsIn (feats ++ [feat]))[number]? = some errand := by
  rw [errandsIn_append, List.getElem?_append_left (List.getElem?_eq_some_iff.mp h).1]
  exact h

namespace Did

/-- Somebody else does something. -/
theorem other (h : Did feats i number rest) (hother : feat.doer? ≠ some number) :
    Did (feats ++ [feat]) i number rest := by
  obtain ⟨errand, herrand, hleaves⟩ := h
  refine ⟨errand, getElem?_errandsIn_concat herrand feat, ?_⟩
  rw [own_concat_of_ne hother]
  exact hleaves

theorem change {change : Place → σ → σ} {next : Place → σ → Errand σ} (h : Did feats i number (.act change next))
    (s : σ) : Did (feats ++ [.changed number s (change (place i) s)]) i number (next (place i) s) := by
  obtain ⟨errand, herrand, hleaves⟩ := h
  refine ⟨errand, getElem?_errandsIn_concat herrand _, ?_⟩
  rw [own_concat_self rfl]
  exact .act s hleaves

theorem hand {task : Errand σ} (h : Did feats i number (.hand task rest)) :
    Did (feats ++ [.handed i (some number) task]) i number rest := by
  obtain ⟨errand, herrand, hleaves⟩ := h
  refine ⟨errand, getElem?_errandsIn_concat herrand _, ?_⟩
  rw [own_concat_self rfl]
  exact .hand hleaves

end Did

/-! ### Tasks apart -/

/-- The task that a thread goes on with is no other one that runs or has ended. -/
theorem Custody.apart (h : w.Custody) {stage : Stage σ} {task : Running σ} {running : List (Running σ)}
    (hget : w.threads[i]? = some ⟨stage, task :: running⟩) :
    (∀ other ∈ running, other.number ≠ task.number) ∧
      (∀ j ≠ i, ∀ thread, w.threads[j]? = some thread → ∀ other ∈ thread.running, other.number ≠ task.number) ∧
      ∀ deed ∈ w.record.ended, deed.number ≠ task.number := by
  have hall := (((gather_perm_cons hget Thread.deeds).append_right w.record.ended).symm.trans h.begun).map (·.number)
  have hnodup := hall.nodup_iff.mpr h.nodup_begun
  have hfirst : ∀ deed : Deed, deed ∈ Thread.deeds i ⟨stage, running⟩ ++
      ((w.threads.mapIdx Thread.deeds).eraseIdx i).flatten ++ w.record.ended → deed.number ≠ task.number :=
    fun deed hdeed heq => (List.nodup_cons.mp hnodup).1 (List.mem_map.mpr ⟨deed, hdeed, heq⟩)
  refine ⟨fun other hother => ?_, fun j hj thread hthread other hother => ?_, fun deed hdeed => ?_⟩
  · exact hfirst ⟨other.number, i, other.inline⟩
      (List.mem_append_left _ (List.mem_append_left _ (List.mem_map_of_mem hother)))
  · have hdeed := mem_eraseIdx_gather (f := Thread.deeds) hthread hj (List.mem_map_of_mem hother)
    exact hfirst ⟨other.number, j, other.inline⟩ (List.mem_append_left _ (List.mem_append_right _ hdeed))
  · exact hfirst deed (List.mem_append_right _ hdeed)

/-- A task that runs has begun. -/
theorem Custody.mem_begun (h : w.Custody) (hget : w.threads[i]? = some thread) {task : Running σ}
    (htask : task ∈ thread.running) : task.number ∈ w.record.begun.map (·.number) := by
  have hunderway : ⟨task.number, i, task.inline⟩ ∈ w.underway := mem_gather hget (List.mem_map_of_mem htask)
  exact List.mem_map.mpr ⟨_, h.begun.mem_iff.mp (List.mem_append_left _ hunderway), rfl⟩

/-- A task in the hands of somebody, or in the queue, has not begun. -/
theorem Custody.not_mem_begun (h : w.Custody) (hnumber : number ∈ w.carried ++ w.queued) :
    number ∉ w.record.begun.map (·.number) := fun hbegun =>
  (List.nodup_append.mp (h.handed.nodup_iff.mpr List.nodup_range)).2.2 _ hnumber _ hbegun rfl

/-! ### Moves -/

namespace Chronicle

/-- Moves that come to nothing can be added. -/
theorem later (h : Chronicle s moves w feats) (more : List (Nat × Move σ)) :
    Chronicle s (moves ++ more) w feats := by
  have hrequests : requests (moves ++ more) = requests moves ++ requests more := List.filterMap_append
  exact { h with asked := hrequests ▸ h.asked.trans (List.sublist_append_left _ _) }

/-- A thread goes on, and nothing is done. -/
theorem same (h : Chronicle s moves w feats) (hget : w.threads[i]? = some thread)
    (hd : d.threads = w.threads.set i thread') (hstate : d.state = w.state)
    (hcallers : d.record.callers = w.record.callers) (hbegun : d.record.begun = w.record.begun)
    (hended : d.record.ended = w.record.ended) (hrunning : thread'.running = thread.running)
    (htickets : thread'.stage.tickets ⊆ thread.stage.tickets)
    (hqueue : ∀ ticket ∈ d.queue, ticket ∈ thread.stage.tickets ++ w.queue) : Chronicle s moves d feats where
  callers := hcallers ▸ h.callers
  asked := h.asked
  state := hstate ▸ h.state
  begun := hbegun ▸ h.begun
  tickets := forall_threads hd h.tickets fun ticket hticket => h.tickets i thread hget ticket (htickets hticket)
  queue := fun ticket hticket => (List.mem_append.mp (hqueue ticket hticket)).elim
    (h.tickets i thread hget ticket) (h.queue ticket)
  running := forall_threads hd h.running (hrunning ▸ h.running i thread hget)
  ended := hended ▸ h.ended

/-- A thread does something. -/
theorem write {moves' : List (Nat × Move σ)} (h : Chronicle s moves w feats) (feat : Feat σ)
    (hd : d.threads = w.threads.set i thread') (hstate : Passes s (feats ++ [feat]) d.state)
    (hcallers : d.record.callers = w.record.callers ++ feat.caller?.toList)
    (hasked : feats.filterMap Feat.request? ++ feat.request?.toList <+ requests moves')
    (hbegun : d.record.begun = w.record.begun) (hended : d.record.ended = w.record.ended)
    (hqueue : d.queue = w.queue) (hdoer : ∀ n, feat.doer? = some n → n ∈ w.record.begun.map (·.number))
    (hothers : ∀ j ≠ i, ∀ other, w.threads[j]? = some other →
      ∀ task ∈ other.running, feat.doer? ≠ some task.number)
    (hdeeds : ∀ deed ∈ w.record.ended, feat.doer? ≠ some deed.number)
    (hrunning : ∀ task ∈ thread'.running, Did (feats ++ [feat]) i task.number task.errand)
    (htickets : ∀ ticket ∈ thread'.stage.tickets,
      (errandsIn (feats ++ [feat]))[ticket.number]? = some ticket.errand) :
    Chronicle s moves' d (feats ++ [feat]) where
  callers := by
    rw [hcallers, h.callers, List.filterMap_append]
    cases hcaller : feat.caller? <;> simp [hcaller]
  asked := by
    rw [List.filterMap_append]
    cases hrequest : feat.request? <;> simpa [hrequest] using hasked
  state := hstate
  begun := by
    rw [hbegun]
    intro other hother n hn
    rcases List.mem_append.mp hother with hother | hother
    · exact h.begun other hother n hn
    · obtain rfl := List.mem_singleton.mp hother
      exact hdoer n hn
  tickets := forall_threads hd
    (fun j other hj ticket hticket => getElem?_errandsIn_concat (h.tickets j other hj ticket hticket) feat) htickets
  queue := hqueue ▸ fun ticket hticket => getElem?_errandsIn_concat (h.queue ticket hticket) feat
  running := by
    intro j other hj task htask
    rw [hd, List.getElem?_set] at hj
    split_ifs at hj with hij hlt
    · cases hj
      exact hij ▸ hrunning task htask
    · exact (h.running j other hj task htask).other (hothers j (Ne.symm hij) other hj task htask)
  ended := by
    rw [hended]
    intro deed hdeed
    obtain ⟨failure, hdid⟩ := h.ended deed hdeed
    exact ⟨failure, hdid.other (hdeeds deed hdeed)⟩

/-- The task that runs on a thread does something. -/
theorem goOn (h : Chronicle s moves w feats) (feat : Feat σ) (hcustody : w.Custody) {task : Running σ}
    {running : List (Running σ)} {stage stage' : Stage σ} (hget : w.threads[i]? = some ⟨stage, task :: running⟩)
    (hd : d.threads = w.threads.set i ⟨stage', { task with errand := rest } :: running⟩)
    (hdoer : feat.doer? = some task.number) (hrequest : feat.request? = none)
    (hdid : Did (feats ++ [feat]) i task.number rest) (hstate : Passes s (feats ++ [feat]) d.state)
    (hcallers : d.record.callers = w.record.callers ++ feat.caller?.toList)
    (hbegun : d.record.begun = w.record.begun) (hended : d.record.ended = w.record.ended)
    (hqueue : d.queue = w.queue) (htickets : ∀ ticket ∈ stage'.tickets,
      (errandsIn (feats ++ [feat]))[ticket.number]? = some ticket.errand) :
    Chronicle s moves d (feats ++ [feat]) := by
  obtain ⟨hbelow, hothers, hdeeds⟩ := hcustody.apart hget
  refine h.write feat hd hstate hcallers ?_ hbegun hended hqueue ?_ ?_ ?_ ?_ htickets
  · rw [hrequest, Option.toList_none, List.append_nil]
    exact h.asked
  · intro n hn
    obtain rfl := Option.some.inj (hdoer.symm.trans hn)
    exact hcustody.mem_begun hget List.mem_cons_self
  · intro j hj other hother task' htask' heq
    exact hothers j hj other hother task' htask' (Option.some.inj (heq.symm.trans hdoer))
  · intro deed hdeed heq
    exact hdeeds deed hdeed (Option.some.inj (heq.symm.trans hdoer))
  · intro task' htask'
    rcases List.mem_cons.mp htask' with rfl | htask'
    · exact hdid
    · refine (h.running i _ hget task' (List.mem_cons_of_mem _ htask')).other fun heq => ?_
      exact hbelow task' htask' (Option.some.inj (heq.symm.trans hdoer))

/-- A task that is handed over is numbered next. -/
theorem ticket_handed (h : Chronicle s moves w feats) (doer : Option Nat) (errand : Errand σ) :
    (errandsIn (feats ++ [.handed i doer errand]))[w.record.callers.length]? = some errand := by
  have hlength : w.record.callers.length = (errandsIn feats).length := by rw [h.callers, length_errandsIn]
  rw [errandsIn_append, hlength]
  exact List.getElem?_concat_length

/-- A task begins that nobody has begun on. -/
theorem start (h : Chronicle s moves w feats) (hcustody : w.Custody) (hget : w.threads[i]? = some thread)
    {ticket : Ticket σ} {inline : Bool} {running : List (Running σ)} (hrunning : thread.running = running)
    (hd : d.threads = w.threads.set i ⟨.ready, ⟨ticket, inline⟩ :: running⟩)
    (hticket : (errandsIn feats)[ticket.number]? = some ticket.errand)
    (hwaiting : ticket.number ∈ w.carried ++ w.queued) (hstate : d.state = w.state)
    (hqueue : d.queue ⊆ w.queue)
    (hrecord : d.record = { w.record with begun := w.record.begun ++ [⟨ticket.number, i, inline⟩] }) :
    Chronicle s moves d feats where
  callers := by rw [hrecord, h.callers]
  asked := h.asked
  state := hstate ▸ h.state
  begun := by
    intro feat hfeat n hn
    rw [hrecord, List.map_append]
    exact List.mem_append_left _ (h.begun feat hfeat n hn)
  tickets := forall_threads hd h.tickets (List.forall_mem_nil _)
  queue := fun ticket hticket => h.queue ticket (hqueue hticket)
  running := by
    refine forall_threads hd h.running fun task htask => ?_
    rcases List.mem_cons.mp htask with rfl | htask
    · have hnone : own ticket.number feats = [] := by
        refine List.filter_eq_nil_iff.mpr fun feat hfeat hdoer => ?_
        exact hcustody.not_mem_begun hwaiting (h.begun feat hfeat _ (by simpa using hdoer))
      exact ⟨ticket.errand, hticket, hnone ▸ .all⟩
    · exact h.running i thread hget task (hrunning ▸ htask)
  ended := by
    rw [hrecord]
    exact h.ended

/-- **Every move** can be added to the chronicle. -/
theorem turn (h : Chronicle s moves w feats) (hcustody : w.Custody) (hturn : w.Turn i move d) :
    ∃ feats', Chronicle s (moves ++ [(i, move)]) d feats' := by
  have hlater := h.later [(i, move)]
  cases hturn with
  | stay => exact ⟨feats, hlater⟩
  | stop => exact ⟨feats, { hlater with }⟩
  | shutdown hget | refuse ticket running hget | close running hget | lockHandle running hget | take running hget
  | miss running hget | join running hget | part running hget =>
    exact ⟨feats, hlater.same hget rfl rfl rfl rfl rfl rfl (by simp [Stage.tickets]) fun _ => List.mem_append_right _⟩
  | lock call running hget =>
    refine ⟨feats, hlater.same hget rfl rfl rfl rfl rfl rfl ?_ fun _ => List.mem_append_right _⟩
    cases call <;> exact List.Subset.refl _
  | leave outcome running hget =>
    cases outcome <;>
      exact ⟨feats, hlater.same hget rfl rfl rfl rfl rfl rfl (by simp [Stage.tickets])
        fun _ => List.mem_append_right _⟩
  | accept ticket running hget =>
    refine ⟨feats, hlater.same hget rfl rfl rfl rfl rfl rfl (by simp [Stage.tickets]) fun other hother => ?_⟩
    exact List.mem_append.mpr (List.mem_append.mp hother).symm
  | serve ticket queue hget hi hqueue =>
    have hmem : ticket ∈ w.queue := hqueue ▸ List.mem_cons_self
    refine ⟨feats, hlater.start hcustody hget rfl rfl (h.queue ticket hmem)
      (List.mem_append_right _ (List.mem_map_of_mem hmem)) rfl ?_ rfl⟩
    rw [hqueue]
    exact List.subset_cons_self ticket queue
  | begin ticket running log hget =>
    have hmem : ticket ∈ Stage.tickets (.refused ticket) := List.mem_singleton_self ticket
    exact ⟨feats, hlater.start hcustody hget rfl rfl (h.tickets i _ hget ticket hmem)
      (List.mem_append_left _ (mem_gather hget (List.mem_map_of_mem hmem))) rfl (List.Subset.refl _) rfl⟩
  | execute errand hget hi =>
    have hdoer : ∀ n, Feat.doer? (.handed i none errand) ≠ some n := fun n => (Option.some_ne_none n).symm
    refine ⟨_, h.write (.handed i none errand) rfl (.handed i none errand h.state) rfl ?_ rfl rfl rfl
      (fun n hn => absurd hn (hdoer n)) (fun _ _ _ _ task _ => hdoer task.number) (fun deed _ => hdoer deed.number)
      (List.forall_mem_nil _) ?_⟩
    · have hrequests : requests (moves ++ [(i, .ask (.execute errand))]) =
          requests moves ++ [(i, .execute errand)] := List.filterMap_append
      rw [hrequests]
      exact h.asked.append_right _
    · intro ticket hticket
      obtain rfl := List.mem_singleton.mp hticket
      exact h.ticket_handed none errand
  | submit task running errand rest hget herrand =>
    have hdid := h.running i _ hget task List.mem_cons_self
    rw [herrand] at hdid
    refine ⟨_, hlater.goOn (.handed i (some task.number) errand) hcustody hget rfl rfl rfl hdid.hand
      (.handed i _ errand h.state) rfl rfl rfl rfl fun ticket hticket => ?_⟩
    obtain rfl := List.mem_singleton.mp hticket
    exact h.ticket_handed _ errand
  | advance task running change next hget herrand =>
    have hdid := h.running i _ hget task List.mem_cons_self
    rw [herrand] at hdid
    exact ⟨_, hlater.goOn (.changed task.number w.state (change (place i) w.state)) hcustody hget rfl rfl rfl
      (hdid.change w.state) (.changed _ _ h.state) (List.append_nil _).symm rfl rfl rfl (List.forall_mem_nil _)⟩
  | finish task running log hget herrand =>
    refine ⟨feats, { hlater with tickets := ?_, running := ?_, ended := ?_ }⟩
    · exact forall_threads rfl h.tickets (List.forall_mem_nil _)
    · exact forall_threads rfl h.running fun other hother => h.running i _ hget other (List.mem_cons_of_mem _ hother)
    · intro deed hdeed
      rcases List.mem_append.mp hdeed with hdeed | hdeed
      · exact h.ended deed hdeed
      · obtain rfl := List.mem_singleton.mp hdeed
        have hdid := h.running i _ hget task List.mem_cons_self
        rw [herrand] at hdid
        exact ⟨_, hdid⟩

end Chronicle

theorem chronicle_opened (name : String) (s : σ) (clients : Nat) : Chronicle s [] (opened name s clients) [] where
  callers := rfl
  asked := .slnil
  state := .none
  begun := nofun
  tickets := by
    intro j thread hget
    obtain rfl := eq_of_opened hget
    exact nofun
  queue := nofun
  running := by
    intro j thread hget
    obtain rfl := eq_of_opened hget
    exact nofun
  ended := nofun

/-- **There is a chronicle of every run.** -/
theorem Chronicle.run (h : Chronicle s moves w feats) (hcustody : w.Custody) (more : List (Nat × Move σ)) :
    ∃ feats', Chronicle s (moves ++ more) (w.run more) feats' := by
  induction more generalizing w moves feats with
  | nil => exact ⟨feats, h.later []⟩
  | cons move more ih =>
    have hturn := turn_act w move.1 move.2
    obtain ⟨feats', h'⟩ := h.turn hcustody hturn
    obtain ⟨all, hall⟩ := ih h' (hcustody.turn hturn)
    rw [List.append_assoc] at hall
    exact ⟨all, hall⟩

end WindowedMetrics.Workshop
