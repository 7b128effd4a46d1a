import WindowedMetrics.Proofs.Executor.Turns

/-!
# What a call that returns has done

A call that hands a task over returns when the task is in the queue, or has run on the calling thread
(`Workshop.Answered`).  A task that is handed over when the sender has been taken away is not accepted, so its
call returns when it has run.
-/

namespace WindowedMetrics.Workshop

variable {σ : Type} {w d : Workshop σ} {i : Nat} {move : Move σ} {thread thread' : Thread σ}

private theorem mem_concat {β : Type} {a b : β} {l : List β} (h : a ∈ l ++ [b]) : a ∈ l ∨ a = b :=
  (List.mem_append.mp h).imp_right List.mem_singleton.mp

/-- What is known of the calls. -/
structure Answered (w : Workshop σ) : Prop where
  /-- A task is in the hands of its caller. -/
  carried : ∀ (j : Nat) (thread : Thread σ), w.threads[j]? = some thread →
    ∀ n ∈ thread.carried, w.record.callers[n]? = some j
  inline : ∀ deed ∈ w.record.begun, deed.inline = true → w.record.callers[deed.number]? = some deed.thread
  served : ∀ deed ∈ w.record.begun, deed.inline = false → deed.thread = 0
  known : ∀ n ∈ w.record.accepted, n < w.record.callers.length
  accepted : ∀ (j : Nat) (thread : Thread σ), w.threads[j]? = some thread →
    ∀ n, thread.stage = .leaving (.accepted n) → n ∈ w.record.accepted
  late : ∀ n ∈ w.record.late, n ∉ w.record.accepted
  early : w.sender = true → w.record.late = []
  returned : ∀ n ∈ w.record.returned,
    n ∈ w.record.accepted ∨ ∃ deed ∈ w.record.ended, deed.number = n ∧ deed.inline = true

/-- The fields of the record that say what calls have done. -/
def answers (w : Workshop σ) : List Nat × List Nat × List Nat × List Deed × List Deed × List Nat :=
  (w.record.callers, w.record.late, w.record.accepted, w.record.begun, w.record.ended, w.record.returned)

/-- A thread goes on, and nothing is recorded. -/
theorem Answered.same (h : w.Answered) (hget : w.threads[i]? = some thread)
    (hd : d.threads = w.threads.set i thread') (hanswers : d.answers = w.answers)
    (hsender : d.sender = true → w.sender = true) (hcarried : thread'.carried = thread.carried)
    (haccepted : ∀ n, thread'.stage ≠ .leaving (.accepted n)) : d.Answered := by
  simp only [answers, Prod.mk.injEq] at hanswers
  obtain ⟨hcallers, hlate, hacc, hbegun, hended, hreturned⟩ := hanswers
  refine ⟨?_, ?_, ?_, ?_, ?_, ?_, ?_, ?_⟩
  · rw [hcallers]
    exact forall_threads hd h.carried (hcarried ▸ h.carried i thread hget)
  · rw [hcallers, hbegun]
    exact h.inline
  · rw [hbegun]
    exact h.served
  · rw [hcallers, hacc]
    exact h.known
  · rw [hacc]
    exact forall_threads hd h.accepted fun n hn => absurd hn (haccepted n)
  · rw [hlate, hacc]
    exact h.late
  · rw [hlate]
    exact fun hopen => h.early (hsender hopen)
  · rw [hreturned, hacc, hended]
    exact h.returned

/-- A new task is in the hands of its caller, and late if the sender is gone. -/
theorem Answered.handOver (h : w.Answered) (errand : Errand σ) (running : List (Running σ)) :
    (w.handOver i errand running).Answered := by
  have hgrow : ∀ {n j : Nat}, w.record.callers[n]? = some j → (w.record.callers ++ [i])[n]? = some j := fun hn => by
    rw [List.getElem?_append_left (List.getElem?_eq_some_iff.mp hn).1, hn]
  refine ⟨?_, ?_, h.served, ?_, ?_, ?_, ?_, h.returned⟩
  · refine forall_threads rfl (fun j thread hj n hn => hgrow (h.carried j thread hj n hn)) fun n hn => ?_
    obtain rfl : n = w.record.callers.length := List.mem_singleton.mp hn
    exact List.getElem?_concat_length
  · exact fun deed hdeed hinline => hgrow (h.inline deed hdeed hinline)
  · intro n hn
    show n < (w.record.callers ++ [i]).length
    rw [List.length_append]
    exact Nat.lt_add_right _ (h.known n hn)
  · exact forall_threads rfl h.accepted nofun
  · intro n hn
    rcases List.mem_append.mp hn with hn | hn
    · exact h.late n hn
    · intro hacc
      cases hsender : w.sender with
      | true => simp [hsender] at hn
      | false =>
        obtain rfl : n = w.record.callers.length := by simpa [hsender] using hn
        exact absurd (h.known _ hacc) (Nat.lt_irrefl _)
  · intro hsender
    have hopen : w.sender = true := hsender
    show w.record.late ++ _ = []
    rw [h.early hopen, if_pos hopen, List.append_nil]

/-- **Every move** keeps what is known of the calls. -/
theorem Answered.turn (h : w.Answered) (hturn : w.Turn i move d) : d.Answered := by
  cases hturn with
  | stay => exact h
  | stop => exact ⟨h.carried, h.inline, h.served, h.known, h.accepted, h.late, h.early, h.returned⟩
  | execute errand => exact h.handOver errand _
  | submit task running errand => exact h.handOver errand _
  | shutdown hget | advance task running change next hget | refuse ticket running hget
  | lockHandle running hget | take running hget | miss running hget | join running hget | part running hget =>
    exact h.same hget rfl rfl id rfl nofun
  | close running hget => exact h.same hget rfl rfl nofun rfl nofun
  | lock call running hget => cases call <;> exact h.same hget rfl rfl id rfl nofun
  | serve ticket queue hget hi =>
    refine ⟨forall_threads rfl h.carried nofun, ?_, ?_, h.known, forall_threads rfl h.accepted nofun, h.late,
      h.early, h.returned⟩
    · intro deed hdeed hinline
      rcases mem_concat hdeed with hdeed | rfl
      · exact h.inline deed hdeed hinline
      · cases hinline
    · intro deed hdeed hserved
      rcases mem_concat hdeed with hdeed | rfl
      · exact h.served deed hdeed hserved
      · exact hi
  | begin ticket running log hget =>
    refine ⟨forall_threads rfl h.carried nofun, ?_, ?_, h.known, forall_threads rfl h.accepted nofun, h.late,
      h.early, h.returned⟩
    · intro deed hdeed hinline
      rcases mem_concat hdeed with hdeed | rfl
      · exact h.inline deed hdeed hinline
      · exact h.carried i _ hget ticket.number List.mem_cons_self
    · intro deed hdeed hserved
      rcases mem_concat hdeed with hdeed | rfl
      · exact h.served deed hdeed hserved
      · cases hserved
  | accept ticket running hget hsender =>
    have hcaller := h.carried i _ hget ticket.number List.mem_cons_self
    refine ⟨forall_threads rfl h.carried nofun, h.inline, h.served, ?_, ?_, ?_, h.early, ?_⟩
    · intro n hn
      rcases mem_concat hn with hn | rfl
      · exact h.known n hn
      · exact (List.getElem?_eq_some_iff.mp hcaller).1
    · refine forall_threads rfl (fun j thread hj n hn => List.mem_append_left _ (h.accepted j thread hj n hn)) ?_
      rintro n ⟨rfl⟩
      exact List.mem_append_right _ (List.mem_singleton_self _)
    · intro n hn
      have hearly : w.record.late = [] := h.early hsender
      rw [show (w.accept i ticket running).record.late = w.record.late from rfl, hearly] at hn
      cases hn
    · exact fun n hn => (h.returned n hn).imp_left (List.mem_append_left _)
  | leave outcome running hget =>
    cases outcome with
    | accepted number =>
      refine ⟨forall_threads rfl h.carried nofun, h.inline, h.served, h.known, forall_threads rfl h.accepted nofun,
        h.late, h.early, fun n hn => ?_⟩
      rcases mem_concat hn with hn | rfl
      · exact h.returned n hn
      · exact .inl (h.accepted i _ hget n rfl)
    | refused | closed => exact h.same hget rfl rfl id rfl nofun
  | finish task running log hget =>
    refine ⟨forall_threads rfl h.carried nofun, h.inline, h.served, h.known, forall_threads rfl h.accepted nofun,
      h.late, h.early, fun n hn => ?_⟩
    rcases List.mem_append.mp hn with hn | hn
    · exact (h.returned n hn).imp_right fun ⟨deed, hdeed, hn⟩ => ⟨deed, List.mem_append_left _ hdeed, hn⟩
    · -- only a call on this thread returns
      split at hn
      next hinline =>
        obtain rfl := List.mem_singleton.mp hn
        exact .inr ⟨_, List.mem_append_right _ (List.mem_singleton_self _), rfl, hinline⟩
      next => cases hn

theorem answered_opened (name : String) (s : σ) (clients : Nat) : (opened name s clients).Answered := by
  refine ⟨?_, nofun, nofun, nofun, ?_, nofun, fun _ => rfl, nofun⟩
  · intro j thread hget n hn
    obtain rfl := eq_of_opened hget
    cases hn
  · intro j thread hget n hn
    obtain rfl := eq_of_opened hget
    cases hn

end WindowedMetrics.Workshop
