import WindowedMetrics.Proofs.Rolling.Reads

/-!
# Reads that are repeated

A read is made for an interval, not for an instant of it: a ranking that gets there turns in the same way
(`ChunkedRanking.Tracks.advanced_congr`), and a slot of the archive is shown throughout an interval or not at
all, since what is archived expires when an interval starts (`Archived.Holds.shown?_congr`).  So a settled
ranking returns the same positions at all instants of an interval (`ChunkedRanking.Tracks.descending_congr`).

A read changes much in the ranking: it rotates, retires and moves what is pending to the totals.  But with
no offer to come before the next read, that read cannot tell (`descending_skip`).
-/

namespace WindowedMetrics

variable {I : Type}

/-! ### Instants of an interval -/

theorem Archived.Holds.shown?_congr {a : Archived I} {plan : Plan} {offers : Nat → Set (Position I)}
    {k slot s t : Nat} (h : a.Holds plan offers k slot) (hs : RunsAt plan.creation plan.interval k s)
    (ht : RunsAt plan.creation plan.interval k t) : a.shown? s = a.shown? t := by
  have hvisible : s < a.expiry ↔ t < a.expiry := by
    cases h with
    | vacant hexpiry => omega
    | filled j _ _ hexpiry =>
      rw [hexpiry]
      exact hs.lt_startOf_iff.trans ht.lt_startOf_iff.symm
  unfold Archived.shown?
  simp only [hvisible]

variable [DecidableEq I]

namespace ChunkedRanking

variable {r : ChunkedRanking I} {plan : Plan} {offers : Nat → Set (Position I)} {k k' s t : Nat}

omit [DecidableEq I] in
theorem slotShown?_eq_of_runsAt (h : ArchiveHolds r.archive plan offers k)
    (hs : RunsAt plan.creation plan.interval k s) (ht : RunsAt plan.creation plan.interval k t)
    (slot : Nat) : r.slotShown? s slot = r.slotShown? t slot := by
  unfold slotShown?
  rcases Nat.lt_or_ge slot plan.archiveSize with hlt | hge
  · obtain ⟨a, ha, hholds⟩ := h.slots slot hlt
    rw [ha]
    exact hholds.shown?_congr hs ht
  · rw [Array.getElem?_eq_none (h.size_eq.trans_le hge)]
    rfl

theorem Tracks.mergeArchive_congr (h : r.Tracks plan offers k)
    (hs : RunsAt plan.creation plan.interval k s) (ht : RunsAt plan.creation plan.interval k t) :
    r.mergeArchive s = r.mergeArchive t := by
  rw [r.mergeArchive_eq s, r.mergeArchive_eq t]
  simp only [slotShown?_eq_of_runsAt h.archive hs ht]

/-- **Throughout an interval** a settled ranking returns the same positions, also if the first to ask has to
turn it. -/
theorem Tracks.descending_congr (h : r.Tracks plan offers k) (hk : k ≤ k')
    (hs : RunsAt plan.creation plan.interval k' s) (ht : RunsAt plan.creation plan.interval k' t)
    (hbound : plan.start (k' + plan.archiveSize + 1) ≤ dormant - 1) :
    (r.descending s).value.1 = (r.descending t).value.1 := by
  have hadvanced := h.advanced hk hs hbound
  obtain ⟨hshown, -⟩ := hadvanced.readOut_eq hs
  obtain ⟨hshown', -⟩ := hadvanced.readOut_eq ht
  rw [h.descending, h.descending, h.advanced_congr hk hs ht, hadvanced.settle_eq, hshown, hshown',
    hadvanced.mergeArchive_congr hs ht]

end ChunkedRanking

/-! ### Without offers -/

omit [DecidableEq I] in
/-- A run has no offers before its next read if it has none at all. -/
theorem offersWithin_untilRead_eq_nil {creation interval first last : Nat} {ops : List (Operation I)}
    (h : ∀ t w identity, Operation.update t w identity ∉ ops) :
    offersWithin creation interval first last (untilRead ops) = [] := by
  refine List.filterMap_eq_nil_iff.mpr fun op hop => ?_
  have hmem : op ∈ ops := (List.takeWhile_sublist _).subset hop
  cases op with
  | update t w identity => exact absurd hmem (h t w identity)
  | read | runTask | dropTask => rfl

section

variable {settings : RankingSettings} {creation interval archiveSize : Nat} {ranking : ChunkedRanking I}

/-- **An operation that is no offer**, with no offers after it, makes no difference for the next read. -/
theorem descending_skip
    (hcreate : ChunkedRanking.create settings interval archiveSize creation = .ok ranking)
    (background : Background) (before after : List (Operation I)) (op : Operation I) (now : Nat)
    (hclock : (creation :: instants
      (before ++ op :: after ++ [Operation.read now])).Pairwise (· ≤ ·))
    (hbound : startOf creation interval (intervalIndex creation interval now + archiveSize + 1) ≤
      dormant - 1)
    (hquiet : ∀ t w identity, Operation.update t w identity ∉ op :: after) :
    ((({ ranking, background } : RollingRanking I).run (before ++ op :: after)).descending now).value.1 =
      ((({ ranking, background } : RollingRanking I).run (before ++ after)).descending now).value.1 := by
  cases op with
  | update t w identity => exact absurd List.mem_cons_self (hquiet t w identity)
  | read t =>
    refine descending_eq_of_quiet hcreate background before after t now hclock hbound (Or.inl ?_)
    exact offersWithin_untilRead_eq_nil fun t' w identity hmem =>
      hquiet t' w identity (List.mem_cons_of_mem _ hmem)
  | runTask | dropTask =>
    -- a task does nothing to the settled ranking
    rw [RollingRanking.descending_settle, RollingRanking.descending_settle,
      RollingRanking.settle_run_append, RollingRanking.settle_run_append]
    rfl

/-- **Any operations but offers** make no difference for the read after them. -/
theorem descending_of_quiet
    (hcreate : ChunkedRanking.create settings interval archiveSize creation = .ok ranking)
    (background : Background) (before quiet : List (Operation I)) (now : Nat)
    (hclock : (creation :: instants (before ++ quiet ++ [Operation.read now])).Pairwise (· ≤ ·))
    (hbound : startOf creation interval (intervalIndex creation interval now + archiveSize + 1) ≤
      dormant - 1)
    (hquiet : ∀ t w identity, Operation.update t w identity ∉ quiet) :
    ((({ ranking, background } : RollingRanking I).run (before ++ quiet)).descending now).value.1 =
      ((({ ranking, background } : RollingRanking I).run before).descending now).value.1 := by
  induction quiet with
  | nil => rw [List.append_nil]
  | cons op quiet ih =>
    have hsub : (before ++ quiet ++ [Operation.read now]).Sublist
        (before ++ op :: quiet ++ [Operation.read now]) :=
      ((List.Sublist.refl before).append (List.sublist_cons_self op quiet)).append (List.Sublist.refl _)
    rw [descending_skip hcreate background before quiet op now hclock hbound hquiet]
    exact ih (hclock.sublist ((instants_sublist_of_sublist hsub).cons_cons creation))
      fun t w identity hmem => hquiet t w identity (List.mem_cons_of_mem _ hmem)

/-- **In one interval** a read that comes later returns no more and no less than one that comes at once. -/
theorem descending_of_same_interval
    (hcreate : ChunkedRanking.create settings interval archiveSize creation = .ok ranking)
    (background : Background) (ops : List (Operation I)) {first second : Nat}
    (hclock : (creation :: (instants ops ++ [first])).Pairwise (· ≤ ·)) (hle : first ≤ second)
    (hbound : startOf creation interval (intervalIndex creation interval second + archiveSize + 1) ≤
      dormant - 1)
    (hsame : intervalIndex creation interval first = intervalIndex creation interval second) :
    ((({ ranking, background } : RollingRanking I).run ops).descending second).value.1 =
      ((({ ranking, background } : RollingRanking I).run ops).descending first).value.1 := by
  obtain ⟨hi, hc, k, hk, htracks⟩ := tracks_before hcreate background ops hclock (hsame ▸ hbound)
  rw [hsame] at hk
  have hfirst : RunsAt creation interval (intervalIndex creation interval second) first :=
    hsame ▸ runsAt_intervalIndex hi hc
  have hsecond := runsAt_intervalIndex hi (hc.trans hle)
  rw [RollingRanking.descending_settle, RollingRanking.descending_settle]
  exact htracks.descending_congr hk hsecond hfirst hbound

end

/-- **Reads can be repeated.**  Take any run whose clock does not go back and stays clear of the last
instant, in which two reads come in the same interval and no offers come between them.  Both return the same
positions in the same order, identities of equal weight included: whatever the first of them had to rotate or
to retire, whoever runs the tasks, and however many tasks are run or dropped and reads are made between
them. -/
theorem reads_repeat {settings : RankingSettings} {creation interval archiveSize : Nat}
    {ranking : ChunkedRanking I}
    (hcreate : ChunkedRanking.create settings interval archiveSize creation = .ok ranking)
    (background : Background) (before between : List (Operation I)) (first second : Nat)
    (hclock : (creation :: instants (before ++ Operation.read first :: between ++
      [Operation.read second])).Pairwise (· ≤ ·))
    (hbound : creation + (intervalIndex creation interval second + archiveSize + 1) * interval ≤
      dormant - 1)
    (hsame : intervalIndex creation interval first = intervalIndex creation interval second)
    (hquiet : ∀ t w identity, Operation.update t w identity ∉ between) :
    let shown := fun (ops : List (Operation I)) now =>
      ((({ ranking, background } : RollingRanking I).run ops).descending now).value.1
    shown (before ++ Operation.read first :: between) second = shown before first := by
  intro shown
  have hnone : ∀ t w identity, Operation.update t w identity ∉ Operation.read first :: between := by
    intro t w identity hmem
    rcases List.mem_cons.mp hmem with heq | hmem
    · exact absurd heq (by rintro ⟨⟩)
    · exact hquiet t w identity hmem
  have hskip := descending_of_quiet hcreate background before (Operation.read first :: between) second
    hclock hbound hnone
  obtain ⟨hfirst, hrest⟩ := clock_at_read hclock
  have hle : first ≤ second :=
    (List.pairwise_cons.mp hrest).1 second (List.mem_append_right _ List.mem_cons_self)
  calc shown (before ++ Operation.read first :: between) second
      = shown before second := hskip
    _ = shown before first :=
        descending_of_same_interval hcreate background before hfirst hle hbound hsame

/-- Tasks are kept.  The first read has to retire a phase whose task has not been run, and to rotate another
one that has expired; then the task is run, and another read is made.  The identities with the lightest
weight are not all shown, and the same one is left out again. -/
theorem reads_repeat_rotating :
    let settings : RankingSettings := { capacity := 3 }
    let before : List (Operation Nat) :=
      [.update 3 5 1, .update 4 5 2, .update 12 5 3, .update 13 9 4]
    let between : List (Operation Nat) := [.runTask 0, .read 24]
    ∃ ranking : ChunkedRanking Nat, ChunkedRanking.create settings 10 3 0 = .ok ranking ∧
      (0 :: instants (before ++ Operation.read 22 :: between ++ [Operation.read 29])).Pairwise (· ≤ ·) ∧
      0 + (intervalIndex 0 10 29 + 3 + 1) * 10 ≤ dormant - 1 ∧
      intervalIndex 0 10 22 = intervalIndex 0 10 29 ∧
      (∀ t w identity, Operation.update t w identity ∉ between) ∧
      let shown := fun (ops : List (Operation Nat)) now =>
        ((({ ranking, background := .deferred } : RollingRanking Nat).run ops).descending now).value.1
      shown before 22 = [⟨9, 4⟩, ⟨5, 2⟩, ⟨5, 1⟩] ∧
      shown (before ++ Operation.read 22 :: between) 29 = shown before 22 := by
  intro settings before between
  have hclock : (0 :: instants
      (before ++ Operation.read 22 :: between ++ [Operation.read 29])).Pairwise (· ≤ ·) := by decide
  have hbound : 0 + (intervalIndex 0 10 29 + 3 + 1) * 10 ≤ dormant - 1 := by decide
  have hsame : intervalIndex 0 10 22 = intervalIndex 0 10 29 := by decide
  have hquiet : ∀ t w identity, Operation.update t w identity ∉ between := by
    intro t w identity hmem
    simp [between] at hmem
  obtain ⟨ranking, hcreate⟩ : ∃ ranking : ChunkedRanking Nat,
      ChunkedRanking.create settings 10 3 0 = .ok ranking :=
    ChunkedRanking.exists_create (by decide) (by decide) (by decide) 3 0
  refine ⟨ranking, hcreate, hclock, hbound, hsame, hquiet, ?_, ?_⟩
  · have hruns : (ChunkedRanking.create (I := Nat) settings 10 3 0).toOption.map (fun ranking =>
        ((({ ranking, background := .deferred } : RollingRanking Nat).run before).descending 22).value.1) =
        some [⟨9, 4⟩, ⟨5, 2⟩, ⟨5, 1⟩] := by decide +kernel
    rw [hcreate] at hruns
    exact Option.some.inj hruns
  · exact reads_repeat hcreate .deferred before between 22 29 hclock hbound hsame hquiet

end WindowedMetrics
