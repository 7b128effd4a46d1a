import WindowedMetrics.Proofs.Rolling.Runs
import WindowedMetrics.Proofs.Rolling.Tracking

/-!
# The window of a rolling ranking

After any run of offers and reads, a read returns the heaviest offers of the intervals in its window, and
of no others (`descending_run`).  The run can have any length and any gaps, and its tasks can run whenever
they do; all it has to keep to is that clocks do not go back and do not come near the last instant.  All
valid settings make such a ranking (`ChunkedRanking.exists_create`).
-/

namespace WindowedMetrics

variable {I : Type}

/-! ### Clocks and offers of a run -/

/-- The instant of an access; tasks have none. -/
def Operation.instant? : Operation I → Option Nat
  | .update now _ _ | .read now => some now
  | .runTask _ | .dropTask _ => none

/-- The instants of the accesses of a run, in their order. -/
def instants (ops : List (Operation I)) : List Nat := ops.filterMap Operation.instant?

/-- The offer that an operation makes in one of the intervals from `first` to `last`. -/
def Operation.offerWithin? (creation interval first last : Nat) : Operation I → Option (Position I)
  | .update now weight identity =>
    let k := intervalIndex creation interval now
    if first ≤ k ∧ k ≤ last then some ⟨weight, identity⟩ else none
  | .read _ | .runTask _ | .dropTask _ => none

/-- The offers of a run made in the intervals from `first` to `last`. -/
def offersWithin (creation interval first last : Nat) (ops : List (Operation I)) :
    List (Position I) := ops.filterMap (Operation.offerWithin? creation interval first last)

/-- The offers of a run made in each interval. -/
def offersOf (creation interval : Nat) (ops : List (Operation I)) (k : Nat) : Set (Position I) :=
  offerSet (offersWithin creation interval k k ops)

variable {creation interval : Nat} {ops : List (Operation I)}

theorem instants_concat (op : Operation I) :
    instants (ops ++ [op]) = instants ops ++ op.instant?.toList := by
  unfold instants
  rw [List.filterMap_append]
  cases op <;> rfl

theorem offersOf_nil : offersOf creation interval ([] : List (Operation I)) = fun _ => ∅ := by
  ext k p
  simp [offersOf, offersWithin]

theorem offersWithin_concat {first last : Nat} (op : Operation I) :
    offersWithin creation interval first last (ops ++ [op]) =
      offersWithin creation interval first last ops ++
        (op.offerWithin? creation interval first last).toList := by
  unfold offersWithin
  rw [List.filterMap_append]
  cases h : op.offerWithin? creation interval first last <;> simp [h]

theorem offersOf_update {now : Nat} {w : Int64} {identity : I} (k : Nat) :
    offersOf creation interval (ops ++ [.update now w identity]) k =
      if k = intervalIndex creation interval now then
        insert ⟨w, identity⟩ (offersOf creation interval ops k)
      else offersOf creation interval ops k := by
  ext p
  unfold offersOf
  rw [offersWithin_concat]
  by_cases hk : k = intervalIndex creation interval now
  · subst hk
    simp [Operation.offerWithin?, or_comm]
  · have hne : ¬ (k ≤ intervalIndex creation interval now ∧
        intervalIndex creation interval now ≤ k) := by omega
    simp [Operation.offerWithin?, hne, hk]

theorem offersOf_of_offerless {op : Operation I}
    (h : ∀ k, op.offerWithin? creation interval k k = none) :
    offersOf creation interval (ops ++ [op]) = offersOf creation interval ops := by
  ext k p
  unfold offersOf
  rw [offersWithin_concat, h k]
  simp

theorem mem_offersWithin {first last : Nat} {p : Position I} :
    p ∈ offersWithin creation interval first last ops ↔
      ∃ k, first ≤ k ∧ k ≤ last ∧ p ∈ offersOf creation interval ops k := by
  unfold offersOf offersWithin
  simp only [Set.mem_ofPred_eq, List.mem_filterMap]
  constructor
  · rintro ⟨op, hop, hp⟩
    cases op with
    | update now w identity =>
      simp only [Operation.offerWithin?] at hp
      split_ifs at hp with hk
      refine ⟨intervalIndex creation interval now, hk.1, hk.2, _, hop, ?_⟩
      simpa [Operation.offerWithin?] using hp
    | _ => simp [Operation.offerWithin?] at hp
  · rintro ⟨k, hfirst, hlast, op, hop, hp⟩
    refine ⟨op, hop, ?_⟩
    cases op with
    | update now w identity =>
      simp only [Operation.offerWithin?] at hp ⊢
      split_ifs at hp with hk
      rw [if_pos (by omega)]
      exact hp
    | _ => simp [Operation.offerWithin?] at hp

variable [DecidableEq I]

/-! ### Runs -/

/-- **An access** brings a ranking to its instant and keeps what is known of it. -/
theorem tracks_access {s : ChunkedRanking I} {plan : Plan} {op : Operation I} {now k k' : Nat}
    (h : s.Tracks plan (offersOf plan.creation plan.interval ops) k) (hop : op.instant? = some now)
    (hk : k ≤ k') (hnow : RunsAt plan.creation plan.interval k' now)
    (hbound : plan.start (k' + plan.archiveSize + 1) ≤ dormant - 1) :
    (op.act s).Tracks plan (offersOf plan.creation plan.interval (ops ++ [op])) k' := by
  have hadvanced := h.advanced hk hnow hbound
  cases op with
  | update t w identity =>
    obtain rfl : t = now := Option.some.inj hop
    refine hadvanced.record w identity ?_ fun j hj => ?_
    · rw [offersOf_update, if_pos hnow.index_eq.symm]
    · rw [offersOf_update, if_neg (hnow.index_eq.symm ▸ hj)]
  | read t =>
    obtain rfl : t = now := Option.some.inj hop
    have hread := (hadvanced.readOut hnow).2
    rw [offersOf_of_offerless fun _ => rfl]
    show (s.descending t).value.2.settle.Tracks _ _ _
    rw [h.descending, hadvanced.settle_eq, hread.settle_eq]
    exact hread
  | runTask | dropTask => exact absurd hop (by simp [Operation.instant?])

/-- **A task** changes nothing that is known of a settled ranking. -/
theorem tracks_task {s : ChunkedRanking I} {plan : Plan} {op : Operation I} {k : Nat}
    (h : s.Tracks plan (offersOf plan.creation plan.interval ops) k) (hop : op.instant? = none) :
    (op.act s).Tracks plan (offersOf plan.creation plan.interval (ops ++ [op])) k := by
  cases op with
  | update | read => exact absurd hop (by simp [Operation.instant?])
  | runTask | dropTask =>
    rw [offersOf_of_offerless fun _ => rfl]
    exact h

/-- **The invariant holds after every run.** -/
theorem tracks_run {settings : RankingSettings} {archiveSize last : Nat} {ranking : ChunkedRanking I}
    (hcreate : ChunkedRanking.create settings interval archiveSize creation = .ok ranking)
    (background : Background) (ops : List (Operation I))
    (hclock : (creation :: instants ops).Pairwise (· ≤ ·)) (hlast : ∀ t ∈ instants ops, t ≤ last)
    (hbound : startOf creation interval (intervalIndex creation interval last + archiveSize + 1) ≤
      dormant - 1) :
    ∃ now ∈ creation :: instants ops,
      (({ ranking, background } : RollingRanking I).run ops).ranking.settle.Tracks
        ⟨settings, creation, interval, archiveSize⟩ (offersOf creation interval ops)
        (intervalIndex creation interval now) := by
  have hstart : startOf creation interval 1 ≤ dormant - 1 :=
    (startOf_mono (by omega)).trans hbound
  obtain ⟨hi, hblank⟩ := ChunkedRanking.tracks_create hcreate hstart
  induction ops using List.reverseRecOn with
  | nil =>
    refine ⟨creation, List.mem_cons_self, ?_⟩
    have hzero : intervalIndex creation interval creation = 0 := by simp [intervalIndex]
    rw [RollingRanking.run_nil, hblank.settle_eq, hzero, offersOf_nil]
    exact hblank
  | append_singleton ops op ih =>
    rw [instants_concat] at hclock hlast
    rw [← List.cons_append] at hclock
    obtain ⟨hbefore, -, hafter⟩ := List.pairwise_append.mp hclock
    obtain ⟨t, ht, htracks⟩ := ih hbefore fun t ht => hlast t (List.mem_append_left _ ht)
    rw [instants_concat, RollingRanking.run_concat, RollingRanking.settle_step]
    cases hop : op.instant? with
    | none => exact ⟨t, List.mem_append_left _ ht, tracks_task htracks hop⟩
    | some now =>
      have hmem : now ∈ op.instant?.toList := by simp [hop]
      have htnow : t ≤ now := hafter t ht now hmem
      have hindex : intervalIndex creation interval now ≤ intervalIndex creation interval last :=
        intervalIndex_mono (hlast now (List.mem_append_right _ hmem))
      have hc : creation ≤ now := hafter creation List.mem_cons_self now hmem
      have hend : startOf creation interval (intervalIndex creation interval now + archiveSize + 1) ≤
          dormant - 1 := (startOf_mono (by omega)).trans hbound
      refine ⟨now, by simp, ?_⟩
      exact tracks_access htracks hop (intervalIndex_mono htnow) (runsAt_intervalIndex hi hc) hend

/-- **Reads of a rolling ranking.**  After any run whose clock does not go back and stays clear of the last
instant, a read returns, heaviest first, positions of distinct identities, each with the best weight that
was offered for its identity in the window; their weights are the heaviest of these best weights, as many
as the ranking keeps.  The window is the running interval and the `archiveSize - 1` intervals before it;
without an archive it is the running interval alone. -/
theorem descending_run {settings : RankingSettings} {archiveSize : Nat} {ranking : ChunkedRanking I}
    (hcreate : ChunkedRanking.create settings interval archiveSize creation = .ok ranking)
    (background : Background) (ops : List (Operation I)) (now : Nat)
    (hclock : (creation :: instants (ops ++ [.read now])).Pairwise (· ≤ ·))
    (hbound : creation + (intervalIndex creation interval now + archiveSize + 1) * interval ≤
      dormant - 1) :
    let k := intervalIndex creation interval now
    let visible := offersWithin creation interval (k + 1 - max archiveSize 1) k ops
    let shown := ((({ ranking, background } : RollingRanking I).run ops).descending now).value.1
    shown.Pairwise (fun p q => q.weight ≤ p.weight) ∧ (identities shown).Nodup ∧
      shown.length ≤ settings.capacity ∧
      (∀ p ∈ shown, best? settings.threshold visible p.identity = some p.weight) ∧
      shown.map (·.weight) =
        (heaviestFirst (maxima settings.threshold visible)).take settings.capacity := by
  intro k visible shown
  rw [instants_concat, ← List.cons_append] at hclock
  obtain ⟨hbefore, -, hafter⟩ := List.pairwise_append.mp hclock
  have hle : ∀ t ∈ creation :: instants ops, t ≤ now := fun t ht => hafter t ht now (by
    simp [Operation.instant?])
  obtain ⟨t, ht, htracks⟩ := tracks_run hcreate background ops hbefore
    (fun t ht => hle t (List.mem_cons_of_mem _ ht)) hbound
  obtain ⟨hi, -⟩ := ChunkedRanking.tracks_create hcreate ((startOf_mono (by omega)).trans hbound)
  have hc : creation ≤ now := hle creation List.mem_cons_self
  have hruns := runsAt_intervalIndex hi hc
  have hadvanced := htracks.advanced (intervalIndex_mono (hle t ht)) hruns hbound
  obtain ⟨⟨merged, hmerged, hkeeps⟩, -⟩ := hadvanced.readOut hruns
  have hshown : shown = merged.descending := by
    rw [← hmerged, ← hadvanced.settle_eq, ← htracks.descending, ChunkedRanking.descending_settle]
    rfl
  have htop : IsTop settings.capacity settings.threshold (offerSet visible) merged.positions := by
    refine (hkeeps.congr fun p => ?_).top
    show (∃ j ≤ k, k < j + max archiveSize 1 ∧ p ∈ offersOf creation interval ops j) ↔ p ∈ visible
    rw [mem_offersWithin]
    constructor
    · rintro ⟨j, hj, hw, hp⟩
      exact ⟨j, by omega, hj, hp⟩
    · rintro ⟨j, hw, hj, hp⟩
      exact ⟨j, hj, by omega, hp⟩
  rw [hshown]
  unfold Ranking.descending
  refine ⟨List.pairwise_reverse.mpr htop.ascending, ?_, ?_, ?_, htop.weights_eq⟩
  · unfold identities
    rw [List.map_reverse]
    exact List.nodup_reverse.mpr htop.distinct
  · rw [List.length_reverse]
    exact htop.length_le
  · exact fun p hp => htop.best?_eq (List.mem_reverse.mp hp)

/-- An interval of the archive, a gap and two offers for one identity. -/
theorem descending_run_gap :
    let settings : RankingSettings := { capacity := 2, poolSize := 1, batchSize := 1 }
    let ops : List (Operation Nat) := [.update 3 9 1, .update 12 7 2, .read 15, .update 26 5 3,
      .update 28 6 3, .update 29 4 4]
    ∃ ranking : ChunkedRanking Nat, ChunkedRanking.create settings 10 2 0 = .ok ranking ∧
      (0 :: instants (ops ++ [.read 29])).Pairwise (· ≤ ·) ∧
      0 + (intervalIndex 0 10 29 + 2 + 1) * 10 ≤ dormant - 1 ∧
      ((({ ranking } : RollingRanking Nat).run ops).descending 29).value.1.map (·.weight) =
        [7, 6] := by
  intro settings ops
  have hclock : (0 :: instants (ops ++ [.read 29])).Pairwise (· ≤ ·) := by decide
  have hbound : 0 + (intervalIndex 0 10 29 + 2 + 1) * 10 ≤ dormant - 1 := by decide
  have hbest : maxima 0 (offersWithin 0 10 1 2 ops) = [7, 6, 4] := by decide +kernel
  have hfirst : heaviestFirst [7, 6, 4] = [7, 6, 4] := List.mergeSort_of_pairwise (by decide)
  obtain ⟨ranking, hcreate⟩ : ∃ ranking : ChunkedRanking Nat,
      ChunkedRanking.create settings 10 2 0 = .ok ranking :=
    ChunkedRanking.exists_create (by decide) (by decide) (by decide) 2 0
  refine ⟨ranking, hcreate, hclock, hbound, ?_⟩
  have hrun := (descending_run hcreate (.executed .inline) ops 29 hclock hbound).2.2.2.2
  rw [hrun]
  exact (congrArg (List.take 2) ((congrArg heaviestFirst hbest).trans hfirst))

end WindowedMetrics
