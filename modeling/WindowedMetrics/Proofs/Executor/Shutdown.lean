import WindowedMetrics.Proofs.Executor.Line

/-!
# Shutting the worker down

Each lock is with the thread that is at a stage with the lock (`Workshop.HeldBy`), so one thread at a time uses
the sender, and one at a time the handle.  The worker ends only when the sender is gone and the queue is empty,
and a shutdown returns only when the worker has ended, whether it has taken the handle or has waited for the one
that did (`Workshop.Closing`).
-/

namespace WindowedMetrics.Workshop

variable {σ : Type} {w d : Workshop σ} {i : Nat} {move : Move σ} {thread thread' : Thread σ}

/-! ### Locks -/

namespace Stage

/-- Whether a thread has the lock of the sender. -/
def hasSender : Stage σ → Bool
  | .inside _ | .leaving _ => true
  | _ => false

/-- Whether a thread has the lock of the handle. -/
def hasHandle : Stage σ → Bool
  | .looking | .joining | .parting => true
  | _ => false

/-- Whether a thread has taken the sender away. -/
def hasClosed : Stage σ → Bool
  | .leaving .closed | .coming | .looking | .joining | .parting => true
  | _ => false

end Stage

/-- A lock is with the thread whose stage says so. -/
def HeldBy (w : Workshop σ) (has : Stage σ → Bool) (lock : Option Nat) : Prop :=
  ∀ j, lock = some j ↔ ∃ thread, w.threads[j]? = some thread ∧ has thread.stage = true

namespace HeldBy

variable {has : Stage σ → Bool} {lock : Option Nat}

/-- Whether a thread has the lock after one of them has changed. -/
theorem changed (hget : w.threads[i]? = some thread) (hd : d.threads = w.threads.set i thread') (j : Nat) :
    (∃ thread, d.threads[j]? = some thread ∧ has thread.stage = true) ↔
      if i = j then has thread'.stage = true
      else ∃ thread, w.threads[j]? = some thread ∧ has thread.stage = true := by
  by_cases hij : i = j
  · subst hij
    rw [if_pos rfl, getElem?_set hget hd]
    simp
  · rw [if_neg hij, hd, List.getElem?_set_ne hij]

theorem same (h : w.HeldBy has lock) (hget : w.threads[i]? = some thread)
    (hd : d.threads = w.threads.set i thread') (hhas : has thread'.stage = has thread.stage) :
    d.HeldBy has lock := by
  intro j
  rw [changed hget hd, h j]
  by_cases hij : i = j
  · subst hij
    rw [if_pos rfl, hget, hhas]
    simp
  · rw [if_neg hij]

theorem take (h : w.HeldBy has none) (hget : w.threads[i]? = some thread)
    (hd : d.threads = w.threads.set i thread') (hhas : has thread'.stage = true) : d.HeldBy has (some i) := by
  intro j
  rw [changed hget hd, ← h j]
  by_cases hij : i = j
  · simp [hij, hhas]
  · simp [hij]

theorem release (h : w.HeldBy has lock) (hget : w.threads[i]? = some thread)
    (hd : d.threads = w.threads.set i thread') (hhas : has thread.stage = true)
    (hhas' : has thread'.stage = false) : d.HeldBy has none := by
  intro j
  have hlock : lock = some i := (h i).mpr ⟨thread, hget, hhas⟩
  rw [changed hget hd, ← h j, hlock]
  by_cases hij : i = j <;> simp [hij, hhas']

end HeldBy

/-- One thread at a time uses the sender, and one the handle. -/
structure Locked (w : Workshop σ) : Prop where
  sender : w.HeldBy Stage.hasSender w.senderLock
  handle : w.HeldBy Stage.hasHandle w.handleLock

theorem Locked.same (h : w.Locked) (hget : w.threads[i]? = some thread)
    (hd : d.threads = w.threads.set i thread') (hsender : d.senderLock = w.senderLock)
    (hhandle : d.handleLock = w.handleLock) (hhas : thread'.stage.hasSender = thread.stage.hasSender)
    (hhas' : thread'.stage.hasHandle = thread.stage.hasHandle) : d.Locked :=
  ⟨hsender ▸ h.sender.same hget hd hhas, hhandle ▸ h.handle.same hget hd hhas'⟩

/-- **Every move** leaves the locks with those that use them. -/
theorem Locked.turn (h : w.Locked) (hturn : w.Turn i move d) : d.Locked := by
  cases hturn with
  | stay => exact h
  | stop => exact ⟨h.sender, h.handle⟩
  | execute errand hget | shutdown hget | serve ticket queue hget | finish task running log hget
  | advance task running change next hget | submit task running errand rest hget
  | accept ticket running hget | refuse ticket running hget | close running hget
  | begin ticket running log hget | take running hget | miss running hget | join running hget =>
    exact h.same hget rfl rfl rfl rfl rfl
  | lock call running hget hfree =>
    have hsender := h.sender
    rw [hfree] at hsender
    exact ⟨hsender.take hget rfl rfl, h.handle.same hget rfl rfl⟩
  | leave outcome running hget =>
    cases outcome with
    | accepted | refused | closed =>
      exact ⟨h.sender.release hget rfl rfl rfl, h.handle.same hget rfl rfl⟩
  | lockHandle running hget hfree =>
    have hhandle := h.handle
    rw [hfree] at hhandle
    exact ⟨h.sender.same hget rfl rfl, hhandle.take hget rfl rfl⟩
  | part running hget => exact ⟨h.sender.same hget rfl rfl, h.handle.release hget rfl rfl rfl⟩

theorem locked_opened (name : String) (s : σ) (clients : Nat) : (opened name s clients).Locked := by
  have hnone : ∀ has : Stage σ → Bool, has .ready = false → (opened name s clients).HeldBy has none := by
    intro has hready j
    refine ⟨nofun, ?_⟩
    rintro ⟨thread, hget, hhas⟩
    obtain rfl := eq_of_opened hget
    rw [hready] at hhas
    cases hhas
  exact ⟨hnone _ rfl, hnone _ rfl⟩

/-! ### The end of the worker -/

/-- How far the shutdowns have come. -/
structure Closing (w : Workshop σ) : Prop where
  closed : ∀ (j : Nat) (thread : Thread σ), w.threads[j]? = some thread → thread.stage.hasClosed = true →
    w.sender = false
  stopped : w.stopped = true → w.sender = false ∧ w.queue = [] ∧ w.threads[0]? = some ⟨.ready, []⟩
  gone : w.handle = false →
    w.stopped = true ∨ ∃ (j : Nat) (thread : Thread σ), w.threads[j]? = some thread ∧ thread.stage = .joining
  parting : ∀ (j : Nat) (thread : Thread σ), w.threads[j]? = some thread → thread.stage = .parting →
    w.stopped = true
  returned : 0 < w.record.shutdowns → w.stopped = true

/-- The worker that has ended does nothing. -/
theorem Closing.ne_zero (h : w.Closing) (hget : w.threads[i]? = some thread)
    (hthread : thread.stage ≠ .ready ∨ thread.running ≠ []) (hstopped : w.stopped = true) : i ≠ 0 := by
  rintro rfl
  rw [(h.stopped hstopped).2.2] at hget
  cases hget
  rcases hthread with hstage | hrunning
  · exact hstage rfl
  · exact hrunning rfl

/-- One thread goes on. -/
theorem Closing.change (h : w.Closing) (hget : w.threads[i]? = some thread)
    (hd : d.threads = w.threads.set i thread') (hstopped : d.stopped = w.stopped)
    (hworker : w.stopped = true → i ≠ 0) (hqueue : w.stopped = true → d.queue = w.queue)
    (hsender : w.sender = false → d.sender = false) (hclosed : thread'.stage.hasClosed = true → d.sender = false)
    (hgone : d.handle = false →
      w.stopped = true ∨ thread'.stage = .joining ∨ w.handle = false ∧ thread.stage ≠ .joining)
    (hparting : thread'.stage = .parting → w.stopped = true)
    (hreturned : d.record.shutdowns = w.record.shutdowns ∨ w.stopped = true) : d.Closing where
  closed := forall_threads hd (fun j thread hj hclosed => hsender (h.closed j thread hj hclosed)) hclosed
  stopped := by
    intro hended
    rw [hstopped] at hended
    obtain ⟨hgone, hempty, hidle⟩ := h.stopped hended
    refine ⟨hsender hgone, (hqueue hended).trans hempty, ?_⟩
    rw [hd, List.getElem?_set_ne (hworker hended), hidle]
  gone := by
    intro hhandle
    rw [hstopped]
    rcases hgone hhandle with hended | hjoining | ⟨hbefore, hother⟩
    · exact .inl hended
    · exact .inr ⟨i, thread', getElem?_set hget hd, hjoining⟩
    · refine (h.gone hbefore).imp_right fun ⟨j, joiner, hj, hjoining⟩ => ⟨j, joiner, ?_, hjoining⟩
      rw [hd, List.getElem?_set_ne ?_, hj]
      rintro rfl
      rw [hget] at hj
      cases hj
      exact hother hjoining
  parting := by
    rw [hstopped]
    exact forall_threads hd h.parting hparting
  returned := by
    intro hpos
    rw [hstopped]
    rcases hreturned with hsame | hended
    · exact h.returned (hsame ▸ hpos)
    · exact hended

/-- One thread goes on, and the worker, the sender and the handle are left alone. -/
theorem Closing.same (h : w.Closing) (hget : w.threads[i]? = some thread)
    (hd : d.threads = w.threads.set i thread') (hstopped : d.stopped = w.stopped)
    (hworker : w.stopped = true → i ≠ 0) (hqueue : w.stopped = true → d.queue = w.queue)
    (hsender : d.sender = w.sender) (hhandle : d.handle = w.handle)
    (hreturned : d.record.shutdowns = w.record.shutdowns)
    (hclosed : thread'.stage.hasClosed = true → w.sender = false) (hjoining : thread.stage ≠ .joining)
    (hparting : thread'.stage ≠ .parting) : d.Closing :=
  h.change hget hd hstopped hworker hqueue (fun hgone => hsender.trans hgone)
    (fun hafter => hsender.trans (hclosed hafter))
    (fun hgone => .inr (.inr ⟨hhandle.symm.trans hgone, hjoining⟩)) (fun hp => absurd hp hparting) (.inl hreturned)

/-- Who finds no handle finds the worker at its end: whoever took the handle kept the lock until then. -/
theorem Closing.stopped_of_looking (h : w.Closing) (hlocked : w.Locked)
    (hget : w.threads[i]? = some thread) (hlooking : thread.stage = .looking) (hhandle : w.handle = false) :
    w.stopped = true := by
  rcases h.gone hhandle with hended | ⟨j, joiner, hj, hjoining⟩
  · exact hended
  · have hi := (hlocked.handle i).mpr ⟨thread, hget, by rw [hlooking]; rfl⟩
    have hj' := (hlocked.handle j).mpr ⟨joiner, hj, by rw [hjoining]; rfl⟩
    rw [hi] at hj'
    cases hj'
    rw [hget] at hj
    cases hj
    rw [hlooking] at hjoining
    cases hjoining

/-- **Every move** leaves the shutdowns in order. -/
theorem Closing.turn (h : w.Closing) (hlocked : w.Locked) (hturn : w.Turn i move d) : d.Closing := by
  cases hturn with
  | stay => exact h
  | stop hget hi hqueue hsender =>
    subst hi
    exact ⟨h.closed, fun _ => ⟨hsender, hqueue, hget⟩, fun _ => .inl rfl, fun _ _ _ _ => rfl, fun _ => rfl⟩
  | execute errand hget hi | shutdown hget hi =>
    exact h.same hget rfl rfl (fun _ => hi) (fun _ => rfl) rfl rfl rfl nofun nofun nofun
  | serve ticket queue hget hi hqueue =>
    have hrunning : w.stopped ≠ true := by
      intro hstopped
      rw [(h.stopped hstopped).2.1] at hqueue
      cases hqueue
    exact h.same hget rfl rfl (fun hstopped => absurd hstopped hrunning)
      (fun hstopped => absurd hstopped hrunning) rfl rfl rfl nofun nofun nofun
  | finish task running log hget | advance task running change next hget
  | submit task running errand rest hget =>
    exact h.same hget rfl rfl (h.ne_zero hget (.inr nofun)) (fun _ => rfl) rfl rfl rfl nofun nofun nofun
  | lock call running hget | refuse ticket running hget | begin ticket running log hget =>
    exact h.same hget rfl rfl (h.ne_zero hget (.inl nofun)) (fun _ => rfl) rfl rfl rfl nofun nofun nofun
  | accept ticket running hget hsender hrunning =>
    have hrunning : w.stopped ≠ true := by simp [hrunning]
    exact h.same hget rfl rfl (h.ne_zero hget (.inl nofun)) (fun hstopped => absurd hstopped hrunning) rfl rfl rfl
      nofun nofun nofun
  | leave outcome running hget =>
    cases outcome with
    | accepted | refused =>
      exact h.same hget rfl rfl (h.ne_zero hget (.inl nofun)) (fun _ => rfl) rfl rfl rfl nofun nofun nofun
    | closed =>
      exact h.same hget rfl rfl (h.ne_zero hget (.inl nofun)) (fun _ => rfl) rfl rfl rfl
        (fun _ => h.closed i _ hget rfl) nofun nofun
  | lockHandle running hget =>
    exact h.same hget rfl rfl (h.ne_zero hget (.inl nofun)) (fun _ => rfl) rfl rfl rfl
      (fun _ => h.closed i _ hget rfl) nofun nofun
  | close running hget =>
    exact h.change hget rfl rfl (h.ne_zero hget (.inl nofun)) (fun _ => rfl) (fun _ => rfl) (fun _ => rfl)
      (fun hgone => .inr (.inr ⟨hgone, nofun⟩)) nofun (.inl rfl)
  | take running hget =>
    exact h.change hget rfl rfl (h.ne_zero hget (.inl nofun)) (fun _ => rfl) id
      (fun _ => h.closed i _ hget rfl) (fun _ => .inr (.inl rfl)) nofun (.inl rfl)
  | miss running hget hhandle =>
    have hstopped := h.stopped_of_looking hlocked hget rfl hhandle
    exact h.change hget rfl rfl (h.ne_zero hget (.inl nofun)) (fun _ => rfl) id
      (fun _ => h.closed i _ hget rfl) (fun _ => .inl hstopped) (fun _ => hstopped) (.inl rfl)
  | join running hget hstopped =>
    exact h.change hget rfl rfl (h.ne_zero hget (.inl nofun)) (fun _ => rfl) id
      (fun _ => h.closed i _ hget rfl) (fun _ => .inl hstopped) (fun _ => hstopped) (.inl rfl)
  | part running hget =>
    have hstopped := h.parting i _ hget rfl
    exact h.change hget rfl rfl (h.ne_zero hget (.inl nofun)) (fun _ => rfl) id nofun
      (fun _ => .inl hstopped) nofun (.inr hstopped)

theorem closing_opened (name : String) (s : σ) (clients : Nat) : (opened name s clients).Closing where
  closed := by
    intro j thread hget hclosed
    obtain rfl := eq_of_opened hget
    cases hclosed
  stopped := nofun
  gone := nofun
  parting := by
    intro j thread hget hparting
    obtain rfl := eq_of_opened hget
    cases hparting
  returned := nofun

end WindowedMetrics.Workshop
