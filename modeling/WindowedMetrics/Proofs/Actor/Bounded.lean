import WindowedMetrics.Proofs.Actor.Offspring
import WindowedMetrics.Proofs.Actor.Pace

/-!
# Drains come to an end

What is known of the drains of an actor in any state that threads can bring it to (`Crew.drains_bounded`): how
many actions one runs that has a limit, what it says at its end, what a submission leaves behind, and what a
drain without a limit runs if trees of submissions are finite.

`Journal.acc_submittedBy` is the example of finite trees: an entry has entries to submit that are smaller.
-/

namespace WindowedMetrics

open Deed

variable {S A : Type} [Action S A]

namespace Crew

variable {c d : Crew S A} {i size : Nat}

/-! ### Drains -/

/-- **A drain with a limit comes to its end**, whatever other threads do meanwhile. -/
theorem Sound.comes_unlock {limit : Nat} (h : c.Sound size) (hstage : c.stages[i]? = some .holding)
    (hholder : c.holder = some (i, .take (.release limit) 0)) :
    c.Comes i fun d => ∃ ran capped, d.holder = some (i, .unlock capped) ∧
      (ranIn d.ledger.deeds).length = (ranIn c.ledger.deeds).length + ran ∧ ran ≤ limit - 1 + size ∧
      (capped = true ↔ limit ≤ ran ∧ d.ledger.actor.pool.queueEmpty = false) := by
  have hat : c.At size i (.take (.release limit) 0) [] (ranIn c.ledger.deeds).length :=
    ⟨h, hstage, hholder, .bottom, rfl⟩
  refine hat.comes_drain (Nat.zero_le _) fun d total begun' htotal hbegun htest => ?_
  refine htest.comes rfl fun d hd => comes_of_goal ?_
  have hunlock : (d.go i).At size i (.unlock (d.ledger.endDrain limit total).1) [] begun' :=
    hd.on (w := (d.ledger.endDrain limit total).2) rfl rfl .bottom hd.begun
  refine ⟨total, (d.ledger.endDrain limit total).1, hunlock.holder, hunlock.begun.trans hbegun, htotal, ?_⟩
  have hledger : (d.go i).ledger = (d.ledger.endDrain limit total).2 := by
    rw [go_holding hd.stage hd.holder]
    rfl
  rw [hledger]
  simp [Ledger.endDrain, Actor.endDrain]

/-- **A slot that is submitted while the lock is free** comes to be queued, and its submission leaves an empty
queue behind or counts as capped. -/
theorem Sound.goes_submit_or {place n slot : Nat} (h : c.Sound size) (hstage : c.stages[i]? = some .idle)
    (hfree : c.ledger.actor.locked = false) (hx : c.held[place]? = some ⟨n, .slot slot⟩) :
    ∃ d, Goes i (c.ask i (.submit place)) d ∧ d.Between i ∧ d.ledger = c.ledger.submit ⟨n, .slot slot⟩ ∧
      ((d.ledger.actor.pool.queueEmpty = true ∧ d.ledger.actor.capHits = c.ledger.actor.capHits) ∨
        (d.ledger.actor.pool.queueEmpty = false ∧ d.ledger.actor.capHits = c.ledger.actor.capHits + 1)) := by
  obtain ⟨d, hgoes, hbetween, -, hledger⟩ := goes_submit_slot h hstage hfree hx
  -- the ledger with the slot queued and the lock taken, from which the submission drains
  obtain ⟨e, he⟩ : ∃ e, e = ((c.queue place n slot).setStage i .trying).grab i
    (.take (.release c.ledger.actor.batchSize) 0) := ⟨_, rfl⟩
  have hsound : e.Sound size := by
    have hholder : c.holder = none := h.holder_eq_none hfree
    have hqueued : ((c.queue place n slot).setStage i .trying).Sound size :=
      (h.queue hx).setStage hstage rfl rfl
    rw [he]
    exact hqueued.grab (getElem?_set_of_getElem? hstage _) rfl hholder rfl
  have hsubmit : c.ledger.submit ⟨n, .slot slot⟩ = e.ledger.drainAndRelease := by
    have hlocked : ¬ (c.ledger.schedule n slot).actor.locked = true := by
      show ¬ c.ledger.actor.locked = true
      simp [hfree]
    rw [he]
    simp only [Ledger.submit, if_neg hlocked]
    rfl
  obtain ⟨rounds, ran, hdrained, -⟩ := hsound.leads_drain (i := i) (by rw [he]; rfl)
  have hor := hdrained.release_or
  have hhits : e.ledger.actor.capHits = c.ledger.actor.capHits := by
    rw [he]
    rfl
  have hbatch : e.ledger.actor.batchSize = c.ledger.actor.batchSize := by
    rw [he]
    rfl
  refine ⟨d, hgoes, hbetween, hledger, ?_⟩
  rw [hledger, hsubmit, ← hhits, Ledger.drainAndRelease, hbatch]
  exact hor

/-- **A drain whose limit is not reached** runs what is queued and all that is submitted because of it. -/
theorem Sound.leads_all {aim : Aim A} (h : c.Sound size) (hfilled : c.ledger.Filled)
    (hholder : c.holder = some (i, .take aim 0)) (hfinite : c.ledger.brood.Finite) :
    ∃ ran w, Task.Leads (.take aim 0, c.ledger) (.test aim ran, w) ∧
      (ranIn w.deeds).length = (ranIn c.ledger.deeds).length + ran ∧ ran ≤ c.ledger.brood.ncard ∧
      (w.actor.pool.queueEmpty = true ∨ aim.limit ≤ ran) := by
  obtain ⟨n, ran, hdrained, hleads⟩ := h.leads_drain hholder
  obtain ⟨held, waiting, hledger⟩ := h.ledger_of_take hholder
  have hcount := hdrained.counted
  have hle := hledger.length_ran_le hfilled hfinite n
  exact ⟨ran, c.ledger.rounds n, hleads, hcount, by omega, hdrained.stopped⟩

/-- Trees are finite at the beginning of a drain if submitting does not go on for ever from what is queued. -/
theorem Sound.finite_tree {aim : Aim A} (h : c.Sound size) (hfilled : c.ledger.Filled)
    (hholder : c.holder = some (i, .take aim 0)) {p : Nat × A} (hp : p ∈ c.ledger.backlog)
    (hacc : Acc SubmittedBy p.2) : (c.ledger.tree p.1).Finite := by
  obtain ⟨held, waiting, hledger⟩ := h.ledger_of_take hholder
  refine hledger.finite_tree hfilled hacc 0 p.1 ?_
  show p ∈ queuedIn c.ledger.deeds
  rw [hledger.queuedIn_eq]
  exact List.mem_append_right _ hp

/-- **Drains are bounded, and say how they ended**, in any state that threads bring an actor to, and though
actions may submit others for ever.

A thread at the beginning of a drain with a limit comes to release the lock if only it goes on, whatever other
threads do in between; by then less than the limit and the size of the pool in actions have run, and the drain is
reported as capped just if the limit was reached with something in the queue.  So a slot that is submitted with
the lock free comes to be queued, its submission is over after some steps, and it leaves an empty queue, or one
that is not empty and one more capped drain in the count.

If what is queued submits finite trees only, so do the drains for exclusive access and for an overflow action:
they run no more actions than the trees have members, and the queue is empty when access is given, or when the
overflow action begins.  The limit of these drains is the largest machine word, and they would stop there. -/
theorem drains_bounded {state : S} {poolSize batchSize : Nat} {x : Actor S A}
    (h : Actor.create state poolSize batchSize = .ok x) (threads : Nat) (moves : List (Nat × Move S A)) :
    let c := run x threads moves
    (∀ i limit, c.holder = some (i, .take (.release limit) 0) →
      c.Comes i fun d => ∃ ran capped, d.holder = some (i, .unlock capped) ∧
        (ranIn d.ledger.deeds).length = (ranIn c.ledger.deeds).length + ran ∧ ran ≤ limit - 1 + poolSize ∧
        (capped = true ↔ limit ≤ ran ∧ d.ledger.actor.pool.queueEmpty = false)) ∧
    (∀ i place n slot, c.stages[i]? = some .idle → c.ledger.actor.locked = false →
      c.held[place]? = some ⟨n, .slot slot⟩ →
      ∃ d, Goes i (c.ask i (.submit place)) d ∧ d.Between i ∧ d.ledger = c.ledger.submit ⟨n, .slot slot⟩ ∧
        ((d.ledger.actor.pool.queueEmpty = true ∧ d.ledger.actor.capHits = c.ledger.actor.capHits) ∨
          (d.ledger.actor.pool.queueEmpty = false ∧ d.ledger.actor.capHits = c.ledger.actor.capHits + 1))) ∧
    ((∀ p ∈ c.ledger.backlog, (c.ledger.tree p.1).Finite) →
      (∀ i, c.holder = some (i, .take .access 0) →
        ∃ ran w, Task.Leads (.take .access 0, c.ledger) (.access, w) ∧
          (ranIn w.deeds).length = (ranIn c.ledger.deeds).length + ran ∧ ran ≤ c.ledger.brood.ncard ∧
          (w.actor.pool.queueEmpty = true ∨ maxWord ≤ ran)) ∧
      (∀ i n a, c.holder = some (i, .take (.overflow n a) 0) →
        ∃ ran w, Task.Leads (.take (.overflow n a) 0, c.ledger) (.begin n a, w) ∧
          (ranIn w.deeds).length = (ranIn c.ledger.deeds).length + ran ∧ ran ≤ c.ledger.brood.ncard ∧
          (w.actor.pool.queueEmpty = true ∨ maxWord ≤ ran))) := by
  intro c
  have hsound : c.Sound poolSize := sound_run h threads moves
  have hfilled : c.ledger.Filled := filled_run h threads moves
  refine ⟨?_, ?_, fun hfinite => ⟨?_, ?_⟩⟩
  · exact fun i limit hholder => hsound.comes_unlock (seated_run x threads moves i _ hholder) hholder
  · exact fun i place n slot hstage hfree hx => hsound.goes_submit_or hstage hfree hx
  · intro i hholder
    obtain ⟨ran, w, hleads, hcount, hle, hstop⟩ :=
      hsound.leads_all hfilled hholder (Ledger.finite_brood hfinite)
    exact ⟨ran, (w.endDrain maxWord ran).2, hleads.tail ⟨rfl, rfl⟩, hcount, hle, hstop⟩
  · intro i n a hholder
    obtain ⟨ran, w, hleads, hcount, hle, hstop⟩ :=
      hsound.leads_all hfilled hholder (Ledger.finite_brood hfinite)
    exact ⟨ran, (w.endDrain maxWord ran).2, hleads.tail ⟨rfl, rfl⟩, hcount, hle, hstop⟩

end Crew

/-! ### Entries of a journal -/

namespace Journal

/-- An entry submits its further entries. -/
theorem mem_of_submits_post {b : Entry} {es : List Entry} (h : (post es).Submits b) : b ∈ es := by
  induction es with
  | nil => cases h
  | cons e es ih =>
    cases h with
    | @acquire overflow _ _ h =>
      cases overflow with
      | true =>
        cases h with
        | discard h =>
          cases h with
          | edit h => exact List.mem_cons_of_mem _ (ih h)
      | false =>
        cases h with
        | here => exact List.mem_cons_self
        | submit h => exact List.mem_cons_of_mem _ (ih h)

/-- Submitting does not go on for ever: further entries are smaller. -/
theorem acc_submittedBy (e : Entry) : Acc SubmittedBy e := by
  refine Subrelation.accessible (r := InvImage (· < ·) (sizeOf : Entry → Nat)) ?_
    (InvImage.accessible _ (Nat.lt_wfRel.wf.apply _))
  intro b a h
  obtain ⟨v, children⟩ := a
  cases h with
  | edit h =>
    have hlt := List.sizeOf_lt_of_mem (mem_of_submits_post h)
    simp only [InvImage, Entry.mk.sizeOf_spec]
    simp only [Entry.children] at hlt
    omega

end Journal

namespace Crew

/-- An entry with a further entry, at an actor whose drains stop after one action: its submission is capped, and
exclusive access waits until the further entry is written. -/
theorem drains_bounded_journal : ∃ x : Actor Journal.Lines Journal.Entry, Actor.create [] 2 1 = .ok x ∧
    ∃ filled grabbed entering : Crew Journal.Lines Journal.Entry,
      filled = run x 1 [(0, .ask .take), (0, .ask (.fill 0 (.mk 1 [.mk 2 []])))] ∧
      grabbed = run x 1 [(0, .ask .take), (0, .ask (.fill 0 (.mk 1 [.mk 2 []]))), (0, .ask (.submit 0)), (0, .go)] ∧
      entering = run x 1 ([(0, .ask .take), (0, .ask (.fill 0 (.mk 1 [.mk 2 []]))), (0, .ask (.submit 0))] ++
        List.replicate 11 (0, .go) ++ [(0, .ask .enter), (0, .go)]) ∧
      (grabbed.Comes 0 fun d => ∃ ran capped, d.holder = some (0, .unlock capped) ∧ ran ≤ 2 ∧
        (capped = true ↔ 1 ≤ ran ∧ d.ledger.actor.pool.queueEmpty = false)) ∧
      (∃ d, Goes 0 (filled.ask 0 (.submit 0)) d ∧ d.Between 0 ∧ d.ledger.actor.pool.queueEmpty = false ∧
        d.ledger.actor.capHits = 1) ∧
      ∃ ran w, Task.Leads (.take .access 0, entering.ledger) (.access, w) ∧ ran ≤ entering.ledger.brood.ncard ∧
        (w.actor.pool.queueEmpty = true ∨ maxWord ≤ ran) := by
  have hx : Actor.create (A := Journal.Entry) [] 2 1 = .ok _ := rfl
  refine ⟨_, hx, _, _, _, rfl, rfl, rfl, ?_, ?_, ?_⟩
  · have hgrabbed := (drains_bounded hx 1 [(0, .ask .take), (0, .ask (.fill 0 (.mk 1 [.mk 2 []]))),
      (0, .ask (.submit 0)), (0, .go)]).1 0 1 rfl
    intro schedule hschedule
    obtain ⟨n, ran, capped, hholder, -, hle, hcapped⟩ := hgrabbed schedule hschedule
    exact ⟨n, ran, capped, hholder, hle, hcapped⟩
  · obtain ⟨d, hgoes, hbetween, hledger, -⟩ := (drains_bounded hx 1 [(0, .ask .take),
      (0, .ask (.fill 0 (.mk 1 [.mk 2 []])))]).2.1 0 0 0 0 rfl rfl rfl
    refine ⟨d, hgoes, hbetween, ?_⟩
    rw [hledger]
    exact ⟨by with_unfolding_all rfl, by with_unfolding_all rfl⟩
  · have hentering := (drains_bounded hx 1 ([(0, .ask .take), (0, .ask (.fill 0 (.mk 1 [.mk 2 []]))),
      (0, .ask (.submit 0))] ++ List.replicate 11 (0, .go) ++ [(0, .ask .enter), (0, .go)])).2.2
    obtain ⟨ran, w, hleads, -, hle, hstop⟩ := (hentering fun p hp =>
      (sound_run hx 1 _).finite_tree (filled_run hx 1 _) rfl hp (Journal.acc_submittedBy p.2)).1 0 rfl
    exact ⟨ran, w, hleads, hle, hstop⟩

end Crew

end WindowedMetrics
