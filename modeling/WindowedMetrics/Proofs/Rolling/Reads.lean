import WindowedMetrics.Proofs.Ranking.Ties
import WindowedMetrics.Proofs.Rolling.Likeness
import WindowedMetrics.Proofs.Rolling.Window

/-!
# Reads and the reads after them

A read of a rolling ranking moves what was recorded since the last read to the totals of its phase, and
what is recorded next is merged into them later.  So it parts the offers of an interval, and positions of
equal weight stand in another order than if they had been recorded together; the last of them can be
others.  That is all that a read can change for later ones (`read_up_to_ties`), and a read that parts no
offers changes nothing (`descending_eq_of_quiet`).
-/

namespace WindowedMetrics

variable {I : Type}

/-! ### A run without one of its reads -/

theorem instants_sublist_of_sublist {ops ops' : List (Operation I)} (h : ops.Sublist ops') :
    (instants ops).Sublist (instants ops') := h.filterMap _

theorem instants_append_read (before after : List (Operation I)) (t : Nat) :
    instants (before ++ Operation.read t :: after) = instants before ++ t :: instants after := by
  unfold instants
  rw [List.filterMap_append]
  rfl

/-- The clock of a run up to one of its reads, and from it to the next. -/
theorem clock_at_read {creation t now : Nat} {before after : List (Operation I)}
    (h : (creation :: instants (before ++ Operation.read t :: after ++ [Operation.read now])).Pairwise
      (· ≤ ·)) :
    (creation :: (instants before ++ [t])).Pairwise (· ≤ ·) ∧
      (t :: instants after ++ [now]).Pairwise (· ≤ ·) := by
  rw [List.append_assoc, List.cons_append, instants_append_read, instants_concat,
    ← List.cons_append] at h
  refine ⟨?_, (List.pairwise_append.mp h).2.1⟩
  exact h.sublist ((List.Sublist.refl (creation :: instants before)).append
    (List.singleton_sublist.mpr List.mem_cons_self))

/-- A read makes no offer. -/
theorem offersWithin_skip {creation interval first last : Nat} (before after : List (Operation I))
    (t : Nat) : offersWithin creation interval first last (before ++ Operation.read t :: after) =
      offersWithin creation interval first last (before ++ after) := by
  unfold offersWithin
  rw [List.filterMap_append, List.filterMap_append, List.filterMap_cons_none rfl]

theorem ne_of_offersWithin_eq_nil {creation interval k t : Nat} {w : Int64} {identity : I}
    {ops : List (Operation I)} (h : offersWithin creation interval k k ops = [])
    (hmem : .update t w identity ∈ ops) : intervalIndex creation interval t ≠ k := by
  rintro rfl
  exact absurd (List.filterMap_eq_nil_iff.mp h _ hmem) (by simp [Operation.offerWithin?])

variable [DecidableEq I]

theorem RollingRanking.settle_run_append (r : RollingRanking I) (ops next : List (Operation I)) :
    (r.run (ops ++ next)).ranking.settle = next.foldl (fun s op => op.act s) (r.run ops).ranking.settle := by
  rw [settle_run, List.foldl_append, ← settle_run]

/-! ### What a read returns -/

theorem RollingRanking.descending_positions (r : RollingRanking I) (now : Nat) :
    (r.descending now).value.1 = (r.ranking.descending now).value.1 := by
  unfold RollingRanking.descending
  rw [Logged.value_bind, Logged.value_pure]

/-- Whoever runs the tasks, reads are those of the settled ranking. -/
theorem RollingRanking.descending_settle (r : RollingRanking I) (now : Nat) :
    (r.descending now).value.1 = (r.ranking.settle.descending now).value.1 := by
  rw [descending_positions, ChunkedRanking.descending_settle]

/-- A read, whenever it comes, returns the heaviest offers of the window. -/
theorem ChunkedRanking.Tracks.keeps_descending {s : ChunkedRanking I} {plan : Plan}
    {offers : Nat → Set (Position I)} {k k' now : Nat} (h : s.settle.Tracks plan offers k) (hk : k ≤ k')
    (hnow : RunsAt plan.creation plan.interval k' now)
    (hbound : plan.start (k' + plan.archiveSize + 1) ≤ dormant - 1) :
    ∃ merged : Ranking I, (s.descending now).value.1 = merged.descending ∧ merged.Keeps plan.settings
      {p | ∃ j ≤ k', k' < j + max plan.archiveSize 1 ∧ p ∈ offers j} := by
  have hadvanced := h.advanced hk hnow hbound
  obtain ⟨⟨merged, hmerged, hkeeps⟩, -⟩ := hadvanced.readOut hnow
  refine ⟨merged, ?_, hkeeps⟩
  rw [← hmerged, ← hadvanced.settle_eq, ← h.descending, ChunkedRanking.descending_settle]

/-- What is known before an access. -/
theorem tracks_before {settings : RankingSettings} {creation interval archiveSize : Nat}
    {ranking : ChunkedRanking I}
    (hcreate : ChunkedRanking.create settings interval archiveSize creation = .ok ranking)
    (background : Background) (ops : List (Operation I)) {now : Nat}
    (hclock : (creation :: (instants ops ++ [now])).Pairwise (· ≤ ·))
    (hbound : startOf creation interval (intervalIndex creation interval now + archiveSize + 1) ≤
      dormant - 1) :
    0 < interval ∧ creation ≤ now ∧ ∃ k ≤ intervalIndex creation interval now,
      (({ ranking, background } : RollingRanking I).run ops).ranking.settle.Tracks
        ⟨settings, creation, interval, archiveSize⟩ (offersOf creation interval ops) k := by
  rw [← List.cons_append] at hclock
  obtain ⟨hbefore, -, hafter⟩ := List.pairwise_append.mp hclock
  have hle : ∀ t ∈ creation :: instants ops, t ≤ now := fun t ht => hafter t ht now List.mem_cons_self
  obtain ⟨t, ht, htracks⟩ := tracks_run hcreate background ops hbefore
    (fun t ht => hle t (List.mem_cons_of_mem _ ht)) hbound
  obtain ⟨hi, -⟩ := ChunkedRanking.tracks_create hcreate ((startOf_mono (by omega)).trans hbound)
  exact ⟨hi, hle creation List.mem_cons_self, _, intervalIndex_mono (hle t ht), htracks⟩

theorem isTop_read {settings : RankingSettings} {creation interval archiveSize : Nat}
    {ranking : ChunkedRanking I}
    (hcreate : ChunkedRanking.create settings interval archiveSize creation = .ok ranking)
    (background : Background) (ops : List (Operation I)) (now : Nat)
    (hclock : (creation :: instants (ops ++ [.read now])).Pairwise (· ≤ ·))
    (hbound : startOf creation interval (intervalIndex creation interval now + archiveSize + 1) ≤
      dormant - 1) :
    ∃ positions, ((({ ranking, background } : RollingRanking I).run ops).descending now).value.1 =
        positions.reverse ∧
      IsTop settings.capacity settings.threshold (offerSet (offersWithin creation interval
        (intervalIndex creation interval now + 1 - max archiveSize 1)
        (intervalIndex creation interval now) ops)) positions := by
  rw [instants_concat] at hclock
  obtain ⟨hi, hc, k, hk, htracks⟩ := tracks_before hcreate background ops hclock hbound
  obtain ⟨merged, hmerged, hkeeps⟩ :=
    htracks.keeps_descending hk (runsAt_intervalIndex hi hc) hbound
  refine ⟨merged.positions, ?_, (hkeeps.congr fun p => ?_).top⟩
  · rw [RollingRanking.descending_positions, hmerged]
    rfl
  show (∃ j ≤ _, _ ∧ p ∈ offersOf creation interval ops j) ↔ p ∈ offersWithin _ _ _ _ ops
  rw [mem_offersWithin]
  constructor
  · rintro ⟨j, hj, hw, hp⟩
    exact ⟨j, by dsimp only at hw; omega, hj, hp⟩
  · rintro ⟨j, hw, hj, hp⟩
    exact ⟨j, hj, by dsimp only; omega, hp⟩

/-- What a read does with a settled ranking. -/
theorem ChunkedRanking.Tracks.act_read {s : ChunkedRanking I} {plan : Plan}
    {offers : Nat → Set (Position I)} {k k' now : Nat} (h : s.Tracks plan offers k) (hk : k ≤ k')
    (hnow : RunsAt plan.creation plan.interval k' now)
    (hbound : plan.start (k' + plan.archiveSize + 1) ≤ dormant - 1) :
    (Operation.read now).act s = ((s.advanced now).readOut now).2 := by
  have hadvanced := h.advanced hk hnow hbound
  show (s.descending now).value.2.settle = _
  rw [h.descending, hadvanced.settle_eq, (hadvanced.readOut hnow).2.settle_eq]

/-! ### Runs side by side -/

/-- Whether an operation is a read. -/
def Operation.isRead : Operation I → Bool
  | .read _ => true
  | .update .. | .runTask _ | .dropTask _ => false

/-- The operations before the first read. -/
def untilRead (ops : List (Operation I)) : List (Operation I) := ops.takeWhile fun op => !op.isRead

omit [DecidableEq I] in
theorem untilRead_cons {op : Operation I} {ops : List (Operation I)} (h : op.isRead = false) :
    untilRead (op :: ops) = op :: untilRead ops := List.takeWhile_cons_of_pos (by rw [h]; rfl)

omit [DecidableEq I] in
theorem isRead_of_task {op : Operation I} (h : op.instant? = none) : op.isRead = false := by
  cases op with
  | update | read => exact absurd h (by simp [Operation.instant?])
  | runTask | dropTask => rfl

/-- Two settled rankings after the same offers that read alike at every instant from `since` on.  In the
intervals that are `stocked` they have the same stock, too. -/
structure Abreast (s s' : ChunkedRanking I) (plan : Plan) (offers : Nat → Set (Position I)) (since : Nat)
    (stocked : Nat → Prop) : Prop where
  left : ∃ k, s.Tracks plan offers k
  right : ∃ k, s'.Tracks plan offers k
  later : ∀ now k, since ≤ now → RunsAt plan.creation plan.interval k now →
    plan.start (k + plan.archiveSize + 1) ≤ dormant - 1 →
    ChunkedRanking.Paired (s.advanced now) (s'.advanced now) plan offers k ∧
      (stocked k → ChunkedRanking.SameStock (s.advanced now) (s'.advanced now))

section Abreast

variable {s s' : ChunkedRanking I} {plan : Plan} {offers : Nat → Set (Position I)} {k since now : Nat}
  {stocked : Nat → Prop} {ops : List (Operation I)}

theorem ChunkedRanking.Paired.abreast (h : Paired s s' plan offers k) (hstock : SameStock s s')
    (hruns : RunsAt plan.creation plan.interval k since) : Abreast s s' plan offers since fun _ => True where
  left := ⟨k, h.left⟩
  right := ⟨k, h.right⟩
  later := fun now k' hle hnow hbound => by
    obtain ⟨hpaired, hstocked⟩ := h.advanced (hruns.mono hnow hle) hnow hbound
    exact ⟨hpaired, fun _ => hstocked (Or.inr hstock)⟩

/-- **A read that is left out**: the ranking that makes it and the one that does not are abreast. -/
theorem ChunkedRanking.Tracks.abreast_read {k' : Nat} (h : s.Tracks plan offers k) (hk : k ≤ k')
    (hruns : RunsAt plan.creation plan.interval k' since)
    (hbound : plan.start (k' + plan.archiveSize + 1) ≤ dormant - 1) :
    Abreast ((Operation.read since).act s) s plan offers since fun j => k' < j ∨
      (s.advanced since).pending = Ranking.blank plan.settings.capacity plan.settings.threshold := by
  have hstop := h.advanced hk hruns hbound
  obtain ⟨hpaired, hstock⟩ := hstop.paired_readOut hruns
  rw [h.act_read hk hruns hbound]
  refine ⟨⟨k', hpaired.left⟩, ⟨k, h⟩, fun now j hle hnow hbound => ?_⟩
  have hj : k' ≤ j := hruns.mono hnow hle
  obtain ⟨hmade, hmadeStock⟩ := hpaired.advanced hj hnow hbound
  obtain ⟨hskipped, hskippedStock⟩ := h.paired_advanced_advanced hk hj hruns hnow hbound
  exact ⟨hmade.trans hskipped, fun hj => (hmadeStock (hj.imp_right hstock)).trans hskippedStock⟩

/-- An access that both make leaves them abreast, if it is not an offer that finds another stock. -/
theorem Abreast.act {op : Operation I}
    (h : Abreast s s' plan (offersOf plan.creation plan.interval ops) since stocked)
    (hop : op.instant? = some now) (hle : since ≤ now)
    (hnow : RunsAt plan.creation plan.interval k now)
    (hbound : plan.start (k + plan.archiveSize + 1) ≤ dormant - 1)
    (hstocked : op.isRead ∨ stocked k) :
    Abreast (op.act s) (op.act s') plan (offersOf plan.creation plan.interval (ops ++ [op])) now
      fun _ => True := by
  obtain ⟨hpaired, hstock⟩ := h.later now k hle hnow hbound
  cases op with
  | update t w identity =>
    obtain rfl : t = now := Option.some.inj hop
    have hk : offersOf plan.creation plan.interval (ops ++ [.update t w identity]) k =
        insert ⟨w, identity⟩ (offersOf plan.creation plan.interval ops k) := by
      rw [offersOf_update, if_pos hnow.index_eq.symm]
    have hne : ∀ j, j ≠ k → offersOf plan.creation plan.interval (ops ++ [.update t w identity]) j =
        offersOf plan.creation plan.interval ops j := fun j hj => by
      rw [offersOf_update, if_neg (hnow.index_eq.symm ▸ hj)]
    obtain ⟨hrecord, hrecordStock⟩ :=
      hpaired.record (hstock (hstocked.resolve_left Bool.false_ne_true)) w identity hk hne
    exact hrecord.abreast hrecordStock hnow
  | read t =>
    obtain rfl : t = now := Option.some.inj hop
    obtain ⟨_, hleft⟩ := h.left
    obtain ⟨_, hright⟩ := h.right
    obtain ⟨-, hread, hreadStock⟩ := hpaired.readOut hnow
    rw [offersOf_of_offerless fun _ => rfl]
    show Abreast (s.descending t).value.2.settle (s'.descending t).value.2.settle _ _ _ _
    rw [hleft.descending, hright.descending, hpaired.left.settle_eq, hpaired.right.settle_eq,
      hread.left.settle_eq, hread.right.settle_eq]
    exact hread.abreast hreadStock hnow
  | runTask | dropTask => exact absurd hop (by simp [Operation.instant?])

/-- A task leaves them abreast. -/
theorem Abreast.act_task {op : Operation I}
    (h : Abreast s s' plan (offersOf plan.creation plan.interval ops) since stocked)
    (hop : op.instant? = none) :
    Abreast (op.act s) (op.act s') plan (offersOf plan.creation plan.interval (ops ++ [op])) since
      stocked := by
  cases op with
  | update | read => exact absurd hop (by simp [Operation.instant?])
  | runTask | dropTask =>
    rw [offersOf_of_offerless fun _ => rfl]
    exact h

/-- **Runs side by side**: the same operations leave them abreast, if no offer before the first read finds
another stock. -/
theorem Abreast.fold (h : Abreast s s' plan (offersOf plan.creation plan.interval ops) since stocked)
    (hi : 0 < plan.interval) (hc : plan.creation ≤ since) (next : List (Operation I))
    (hclock : (since :: instants next).Pairwise (· ≤ ·))
    (hbound : ∀ t ∈ instants next, plan.start (intervalIndex plan.creation plan.interval t +
      plan.archiveSize + 1) ≤ dormant - 1)
    (hstocked : ∀ t w identity, .update t w identity ∈ untilRead next →
      stocked (intervalIndex plan.creation plan.interval t)) :
    ∃ since' ∈ since :: instants next, ∃ stocked' : Nat → Prop,
      Abreast (next.foldl (fun s op => op.act s) s) (next.foldl (fun s op => op.act s) s') plan
        (offersOf plan.creation plan.interval (ops ++ next)) since' stocked' := by
  induction next generalizing s s' ops since stocked with
  | nil => exact ⟨since, List.mem_cons_self, stocked, by rwa [List.append_nil]⟩
  | cons op next ih =>
    rw [List.append_cons, List.foldl_cons, List.foldl_cons]
    cases hop : op.instant? with
    | none =>
      rw [instants, List.filterMap_cons_none hop] at hclock hbound ⊢
      refine ih (h.act_task hop) hc hclock hbound fun t w identity hmem => hstocked t w identity ?_
      rw [untilRead_cons (isRead_of_task hop)]
      exact List.mem_cons_of_mem op hmem
    | some now =>
      rw [instants, List.filterMap_cons_some hop] at hclock hbound ⊢
      obtain ⟨hfirst, hrest⟩ := List.pairwise_cons.mp hclock
      have hle := hfirst now List.mem_cons_self
      have hnow := runsAt_intervalIndex hi (hc.trans hle)
      have hfirstStocked : op.isRead ∨ stocked (intervalIndex plan.creation plan.interval now) := by
        cases op with
        | update t w identity =>
          obtain rfl : t = now := Option.some.inj hop
          refine Or.inr (hstocked t w identity ?_)
          rw [untilRead_cons rfl]
          exact List.mem_cons_self
        | read t => exact Or.inl rfl
        | runTask | dropTask => exact absurd hop (by simp [Operation.instant?])
      have hact := h.act hop hle hnow (hbound now List.mem_cons_self) hfirstStocked
      obtain ⟨since', hmem, hafter⟩ := ih hact (hc.trans hle) hrest
        (fun t ht => hbound t (List.mem_cons_of_mem _ ht)) fun _ _ _ _ => trivial
      exact ⟨since', List.mem_cons_of_mem _ hmem, hafter⟩

/-- They return the same positions. -/
theorem Abreast.descending_eq (h : Abreast s s' plan offers since stocked) (hle : since ≤ now)
    (hnow : RunsAt plan.creation plan.interval k now)
    (hbound : plan.start (k + plan.archiveSize + 1) ≤ dormant - 1) :
    (s.descending now).value.1 = (s'.descending now).value.1 := by
  obtain ⟨_, hleft⟩ := h.left
  obtain ⟨_, hright⟩ := h.right
  obtain ⟨hpaired, -⟩ := h.later now k hle hnow hbound
  rw [hleft.descending, hright.descending, hpaired.left.settle_eq, hpaired.right.settle_eq]
  exact (hpaired.readOut hnow).1

end Abreast

/-! ### Runs with and without a read -/

section

variable {settings : RankingSettings} {creation interval archiveSize : Nat} {ranking : ChunkedRanking I}

/-- Nothing is pending in an interval if it has no offers after the last read. -/
theorem pending_of_quiet
    (hcreate : ChunkedRanking.create settings interval archiveSize creation = .ok ranking)
    (background : Background) (ops : List (Operation I)) (last : Nat)
    (hclock : (creation :: instants ops).Pairwise (· ≤ ·)) (hlast : ∀ t ∈ instants ops, t ≤ last)
    (hbound : startOf creation interval (intervalIndex creation interval last + archiveSize + 1) ≤
      dormant - 1) {k : Nat}
    (h : (({ ranking, background } : RollingRanking I).run ops).ranking.settle.Tracks
      ⟨settings, creation, interval, archiveSize⟩ (offersOf creation interval ops) k)
    (hquiet : offersWithin creation interval k k (untilRead ops.reverse) = []) :
    (({ ranking, background } : RollingRanking I).run ops).ranking.settle.pending =
      Ranking.blank settings.capacity settings.threshold := by
  induction ops using List.reverseRecOn with
  | nil => exact (h.stock_of_empty (by simp [offersOf, offersWithin, offerSet])).1
  | append_singleton ops op ih =>
    rw [instants_concat] at hclock hlast
    rw [List.reverse_append, List.reverse_singleton, List.singleton_append] at hquiet
    rw [RollingRanking.run_concat, RollingRanking.settle_step] at h ⊢
    have hend : ∀ now ∈ op.instant?, startOf creation interval
        (intervalIndex creation interval now + archiveSize + 1) ≤ dormant - 1 := fun now hnow =>
      startOf_intervalIndex_le hbound (hlast now (List.mem_append_right _ (Option.mem_toList.mpr hnow)))
    cases op with
    | runTask | dropTask =>
      rw [offersOf_of_offerless fun _ => rfl] at h
      rw [untilRead_cons rfl] at hquiet
      exact ih (hclock.sublist ((List.sublist_append_left _ _).cons_cons creation))
        (fun t ht => hlast t (List.mem_append_left _ ht)) h hquiet
    | update now w identity =>
      obtain ⟨hi, hc, j, hj, htracks⟩ := tracks_before hcreate background ops hclock (hend now rfl)
      have hop : (Operation.update now w identity).instant? = some now := rfl
      have hafter := tracks_access htracks hop hj (runsAt_intervalIndex hi hc) (hend now rfl)
      have hk : k = intervalIndex creation interval now :=
        h.interval_eq.symm.trans hafter.interval_eq
      rw [untilRead_cons rfl] at hquiet
      simp [offersWithin, Operation.offerWithin?, hk] at hquiet
    | read now =>
      obtain ⟨hi, hc, j, hj, htracks⟩ := tracks_before hcreate background ops hclock (hend now rfl)
      have hruns := runsAt_intervalIndex hi hc
      rw [htracks.act_read hj hruns (hend now rfl)]
      exact ((htracks.advanced hj hruns (hend now rfl)).readOut_eq hruns).2.2.2

/-- A read has nothing to take if its interval has no offers after the last read. -/
theorem pending_at_read
    (hcreate : ChunkedRanking.create settings interval archiveSize creation = .ok ranking)
    (background : Background) (ops : List (Operation I)) {now : Nat}
    (hclock : (creation :: (instants ops ++ [now])).Pairwise (· ≤ ·))
    (hbound : startOf creation interval (intervalIndex creation interval now + archiveSize + 1) ≤
      dormant - 1)
    (hquiet : offersWithin creation interval (intervalIndex creation interval now)
      (intervalIndex creation interval now) (untilRead ops.reverse) = []) :
    ((({ ranking, background } : RollingRanking I).run ops).ranking.settle.advanced now).pending =
      Ranking.blank settings.capacity settings.threshold := by
  obtain ⟨hi, hc, k, hk, htracks⟩ := tracks_before hcreate background ops hclock hbound
  have hruns := runsAt_intervalIndex hi hc
  rcases Nat.lt_or_eq_of_le hk with hlt | rfl
  · have hadvanced := htracks.advanced hk hruns hbound
    exact (hadvanced.stock_of_empty (htracks.later _ hlt)).1
  · rw [htracks.advanced_eq_self hruns]
    obtain ⟨hbefore, -, hle⟩ := List.pairwise_append.mp (List.cons_append ▸ hclock)
    exact pending_of_quiet hcreate background ops now hbefore
      (fun t ht => hle t (List.mem_cons_of_mem _ ht) now List.mem_cons_self) hbound htracks hquiet

/-- **A read that does not part the offers** of its interval changes nothing for later ones: if there are
none between it and the next read, or none between the last read and it. -/
theorem descending_eq_of_quiet
    (hcreate : ChunkedRanking.create settings interval archiveSize creation = .ok ranking)
    (background : Background) (before after : List (Operation I)) (skipped now : Nat)
    (hclock : (creation :: instants
      (before ++ Operation.read skipped :: after ++ [Operation.read now])).Pairwise (· ≤ ·))
    (hbound : startOf creation interval (intervalIndex creation interval now + archiveSize + 1) ≤
      dormant - 1)
    (hquiet : offersWithin creation interval (intervalIndex creation interval skipped)
        (intervalIndex creation interval skipped) (untilRead after) = [] ∨
      offersWithin creation interval (intervalIndex creation interval skipped)
        (intervalIndex creation interval skipped) (untilRead before.reverse) = []) :
    ((({ ranking, background } : RollingRanking I).run
        (before ++ Operation.read skipped :: after)).descending now).value.1 =
      ((({ ranking, background } : RollingRanking I).run (before ++ after)).descending now).value.1 := by
  obtain ⟨hbefore, hafter⟩ := clock_at_read hclock
  obtain ⟨hnext, -, hle⟩ := List.pairwise_append.mp hafter
  have hlater : ∀ t ∈ skipped :: instants after, t ≤ now := fun t ht => hle t ht now List.mem_cons_self
  have hend : ∀ t ≤ now, startOf creation interval (intervalIndex creation interval t + archiveSize + 1) ≤
      dormant - 1 := fun t ht => startOf_intervalIndex_le hbound ht
  have hendSkipped := hend skipped (hlater skipped List.mem_cons_self)
  obtain ⟨hi, hc, k, hk, htracks⟩ := tracks_before hcreate background before hbefore hendSkipped
  have hruns := runsAt_intervalIndex hi hc
  have habreast := htracks.abreast_read hk hruns hendSkipped
  have hstocked : ∀ t w identity, .update t w identity ∈ untilRead after →
      intervalIndex creation interval skipped < intervalIndex creation interval t ∨
        ((({ ranking, background } : RollingRanking I).run before).ranking.settle.advanced
          skipped).pending = Ranking.blank settings.capacity settings.threshold := by
    intro t w identity hmem
    rcases hquiet with hquiet | hquiet
    · have hinstant : t ∈ instants after := List.mem_filterMap.mpr
        ⟨_, (List.takeWhile_sublist _).subset hmem, rfl⟩
      have hindex : intervalIndex creation interval skipped ≤ intervalIndex creation interval t :=
        intervalIndex_mono ((List.pairwise_cons.mp hnext).1 t hinstant)
      exact Or.inl (Nat.lt_of_le_of_ne hindex (ne_of_offersWithin_eq_nil hquiet hmem).symm)
    · exact Or.inr (pending_at_read hcreate background before hbefore hendSkipped hquiet)
  obtain ⟨since, hsince, stocked, hfold⟩ := habreast.fold hi hc after hnext
    (fun t ht => hend t (hlater t (List.mem_cons_of_mem _ ht))) hstocked
  have hnow := hlater skipped List.mem_cons_self
  rw [RollingRanking.descending_settle, RollingRanking.descending_settle,
    RollingRanking.settle_run_append, RollingRanking.settle_run_append, List.foldl_cons]
  exact hfold.descending_eq (hlater since hsince) (runsAt_intervalIndex hi (hc.trans hnow))
    (hend now (Nat.le_refl now))

end

/-- **A read changes other reads in ties only.**  Take any run whose clock does not go back and stays clear
of the last instant, and leave out one of its reads, wherever it stands.  Earlier reads are reads of the
same run.  Every later read returns the same weights in the same order.  It returns the same positions,
too, but for one case: identities with the same best weight in the window, which is the lightest that is
returned, and no room for all of them.  If no two identities have the same best weight in the window, the
same positions are returned in the same order.  And so they are, ties or not, if the read does not part the
offers of its interval: if there are none between it and the next read, or none between the last read and
it. -/
theorem read_up_to_ties {settings : RankingSettings} {creation interval archiveSize : Nat}
    {ranking : ChunkedRanking I}
    (hcreate : ChunkedRanking.create settings interval archiveSize creation = .ok ranking)
    (background : Background) (before after : List (Operation I)) (skipped now : Nat)
    (hclock : (creation :: instants
      (before ++ Operation.read skipped :: after ++ [Operation.read now])).Pairwise (· ≤ ·))
    (hbound : creation + (intervalIndex creation interval now + archiveSize + 1) * interval ≤
      dormant - 1) :
    let k := intervalIndex creation interval now
    let visible := offersWithin creation interval (k + 1 - max archiveSize 1) k (before ++ after)
    let shown := fun ops : List (Operation I) =>
      ((({ ranking, background } : RollingRanking I).run ops).descending now).value.1
    let parted := fun ops : List (Operation I) => offersWithin creation interval
      (intervalIndex creation interval skipped) (intervalIndex creation interval skipped) (untilRead ops)
    Agree settings.threshold visible (shown (before ++ Operation.read skipped :: after))
        (shown (before ++ after)) ∧
      (parted after = [] ∨ parted before.reverse = [] →
        shown (before ++ Operation.read skipped :: after) = shown (before ++ after)) := by
  intro k visible shown parted
  have hsub : (before ++ after ++ [Operation.read now]).Sublist
      (before ++ Operation.read skipped :: after ++ [Operation.read now]) :=
    ((List.Sublist.refl before).append (List.sublist_cons_self _ after)).append (List.Sublist.refl _)
  have hclock' := hclock.sublist ((instants_sublist_of_sublist hsub).cons_cons creation)
  obtain ⟨positions, hshown, htop⟩ := isTop_read hcreate background _ now hclock hbound
  obtain ⟨positions', hshown', htop'⟩ := isTop_read hcreate background _ now hclock' hbound
  rw [offersWithin_skip] at htop
  refine ⟨?_, fun hquiet => ?_⟩
  · show Agree _ _ (RollingRanking.descending _ now).value.1 (RollingRanking.descending _ now).value.1
    rw [hshown, hshown']
    exact htop.agree htop'
  · exact descending_eq_of_quiet hcreate background before after skipped now hclock hbound hquiet

/-- Three identities of the same weight and a read after the first of them: other positions are returned,
in another order. -/
theorem read_parts_ties :
    let settings : RankingSettings := { capacity := 2 }
    let before : List (Operation Nat) := [.update 0 5 1]
    let after : List (Operation Nat) := [.update 0 5 2, .update 0 5 3]
    ∃ ranking : ChunkedRanking Nat, ChunkedRanking.create settings 1000 3 0 = .ok ranking ∧
      (0 :: instants (before ++ Operation.read 0 :: after ++ [Operation.read 0])).Pairwise (· ≤ ·) ∧
      0 + (intervalIndex 0 1000 0 + 3 + 1) * 1000 ≤ dormant - 1 ∧
      ((({ ranking } : RollingRanking Nat).run (before ++ Operation.read 0 :: after)).descending 0).value.1 =
        [⟨5, 1⟩, ⟨5, 3⟩] ∧
      ((({ ranking } : RollingRanking Nat).run (before ++ after)).descending 0).value.1 =
        [⟨5, 2⟩, ⟨5, 1⟩] := by
  intro settings before after
  obtain ⟨ranking, hcreate⟩ : ∃ ranking : ChunkedRanking Nat,
      ChunkedRanking.create settings 1000 3 0 = .ok ranking :=
    ChunkedRanking.exists_create (by decide) (by decide) (by decide) 3 0
  refine ⟨ranking, hcreate, by decide, by decide, ?_⟩
  have hruns : (ChunkedRanking.create (I := Nat) settings 1000 3 0).toOption.map (fun ranking =>
      (((({ ranking } : RollingRanking Nat).run (before ++ Operation.read 0 :: after)).descending 0).value.1,
        ((({ ranking } : RollingRanking Nat).run (before ++ after)).descending 0).value.1)) =
      some ([⟨5, 1⟩, ⟨5, 3⟩], [⟨5, 2⟩, ⟨5, 1⟩]) := by decide +kernel
  rw [hcreate] at hruns
  exact Prod.mk.inj (Option.some.inj hruns)

/-- Distinct weights, and a read between two offers of an interval. -/
theorem read_up_to_ties_distinct :
    let settings : RankingSettings := { capacity := 2 }
    let before : List (Operation Nat) := [.update 3 9 1, .update 12 7 2]
    let after : List (Operation Nat) := [.update 16 8 3, .read 17, .update 26 4 4]
    ∃ ranking : ChunkedRanking Nat, ChunkedRanking.create settings 10 3 0 = .ok ranking ∧
      (0 :: instants (before ++ Operation.read 15 :: after ++ [Operation.read 29])).Pairwise (· ≤ ·) ∧
      0 + (intervalIndex 0 10 29 + 3 + 1) * 10 ≤ dormant - 1 ∧
      ((({ ranking } : RollingRanking Nat).run (before ++ Operation.read 15 :: after)).descending 29).value.1 =
        ((({ ranking } : RollingRanking Nat).run (before ++ after)).descending 29).value.1 := by
  intro settings before after
  have hclock : (0 :: instants
      (before ++ Operation.read 15 :: after ++ [Operation.read 29])).Pairwise (· ≤ ·) := by decide
  have hbound : 0 + (intervalIndex 0 10 29 + 3 + 1) * 10 ≤ dormant - 1 := by decide
  have hdistinct : (maxima 0 (offersWithin 0 10 0 2 (before ++ after))).Nodup := by decide +kernel
  obtain ⟨ranking, hcreate⟩ : ∃ ranking : ChunkedRanking Nat,
      ChunkedRanking.create settings 10 3 0 = .ok ranking :=
    ChunkedRanking.exists_create (by decide) (by decide) (by decide) 3 0
  refine ⟨ranking, hcreate, hclock, hbound, ?_⟩
  exact (read_up_to_ties hcreate (.executed .inline) before after 15 29 hclock
    hbound).1.eq_of_nodup hdistinct

end WindowedMetrics
