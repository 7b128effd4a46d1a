import WindowedMetrics.Counter
import WindowedMetrics.HitRatio.Basic
import WindowedMetrics.Proofs.Ranking.Taken
import WindowedMetrics.Ranking.Retained

/-!
# Cached reads

A read of an aggregate can change it, so it matters which reads a cache lets through.  They are those that
are due: the first one, and every one that comes a whole caching time after the latest that was let through
(`isDue`).  `thinned` is a run without the others.

The cached aggregate follows the plain one through the thinned run: it has the same state and the same
replies, and keeps what the latest read let through has returned (`Decorated.follows_run`).  An aggregate
that starts anew with every read loses nothing by it: each write is returned by the first read let through
after it, and by no other (`Aggregate.StartsAnew.coversOnce`).
-/

namespace WindowedMetrics

/-! ### Reads that are due -/

section Thinned

variable {W : Type}

/-- The instant of the latest read of a run. -/
def latestRead? (run : List (Access W)) : Option Nat := (run.filterMap Access.read?).getLast?

/-- Whether a read at `now` is due: there was none before, or the latest was `duration` ago. -/
def isDue (duration : Nat) (latest : Option Nat) (now : Nat) : Bool :=
  latest.all fun computed => satAdd computed duration ≤ now

/-- An access after a thinned run, if it is not a read that is not due. -/
def thin (duration : Nat) (run : List (Access W)) : Access W → List (Access W)
  | .write now w => run ++ [.write now w]
  | .read now => if isDue duration (latestRead? run) now then run ++ [.read now] else run

/-- A run without the reads that are not due. -/
def thinned (duration : Nat) (run : List (Access W)) : List (Access W) := run.foldl (thin duration) []

theorem thinned_concat (duration : Nat) (run : List (Access W)) (access : Access W) :
    thinned duration (run ++ [access]) = thin duration (thinned duration run) access := by
  simp [thinned]

theorem thin_of_isDue {duration now : Nat} {run : List (Access W)}
    (h : isDue duration (latestRead? run) now) : thin duration run (.read now) = run ++ [.read now] :=
  if_pos h

theorem thin_of_not_isDue {duration now : Nat} {run : List (Access W)}
    (h : ¬ isDue duration (latestRead? run) now) : thin duration run (.read now) = run := if_neg h

theorem thinned_sublist (duration : Nat) (run : List (Access W)) : (thinned duration run).Sublist run := by
  induction run using List.reverseRecOn with
  | nil => exact List.Sublist.refl _
  | append_singleton run access ih =>
    rw [thinned_concat]
    cases access with
    | write now w => exact ih.append (List.Sublist.refl _)
    | read now =>
      by_cases hdue : isDue duration (latestRead? (thinned duration run)) now
      · rw [thin_of_isDue hdue]
        exact ih.append (List.Sublist.refl _)
      · rw [thin_of_not_isDue hdue]
        exact ih.trans (List.sublist_append_left _ _)

/-- No write is thinned out. -/
theorem writesOf_thinned (duration : Nat) (run : List (Access W)) :
    writesOf (thinned duration run) = writesOf run := by
  induction run using List.reverseRecOn with
  | nil => rfl
  | append_singleton run access ih =>
    rw [thinned_concat, writesOf_concat, ← ih]
    cases access with
    | write now w => exact writesOf_concat _ _
    | read now =>
      by_cases hdue : isDue duration (latestRead? (thinned duration run)) now
      · rw [thin_of_isDue hdue]
        exact writesOf_concat _ _
      · rw [thin_of_not_isDue hdue]
        exact (List.append_nil _).symm

theorem isDue_of_none (duration now : Nat) : isDue duration none now := rfl

theorem isDue_some {duration computed now : Nat} :
    isDue duration (some computed) now ↔ satAdd computed duration ≤ now := by simp [isDue]

end Thinned

namespace Aggregate

variable {σ W R V : Type} [Aggregate σ W R V]

theorem latestRead?_eq (s : σ) (run : List (Access W)) :
    latestRead? run = (datedReadings s run).getLast?.map (·.2) := by
  induction run using List.reverseRecOn generalizing s with
  | nil => rfl
  | append_singleton run access ih =>
    rw [datedReadings_append]
    unfold latestRead?
    rw [List.filterMap_append]
    cases access with
    | write now w =>
      simp only [List.filterMap_cons, List.filterMap_nil, Access.read?, List.append_nil, datedReadings]
      exact ih s
    | read now => simp [Access.read?, datedReadings]

end Aggregate

/-! ### Cached aggregates -/

namespace Decorated

variable {σ W R V : Type} [Aggregate σ W R V]

/-- A cached aggregate against the plain one after a thinned run. -/
structure Follows (d : Decorated σ V) (s : σ) (duration : Nat) (inner : List (Access W)) : Prop where
  inner_eq : d.inner = Aggregate.after s inner
  cache_eq : d.cache = some ⟨duration, (Aggregate.datedReadings s inner).getLast?⟩

variable {d : Decorated σ V} {s : σ} {duration : Nat} {inner : List (Access W)}

/-- A read that is due goes through to the aggregate. -/
theorem Follows.read_of_isDue (h : d.Follows s duration inner) {now : Nat}
    (hdue : isDue duration (latestRead? inner) now) :
    Aggregate.read d now = Aggregate.read (Aggregate.after s inner) now >>= fun out =>
      pure (out.1, ⟨out.2, some ⟨duration, some (out.1, now)⟩⟩) := by
  have hfresh : (⟨duration, (Aggregate.datedReadings s inner).getLast?⟩ : Cache V).fresh? now = none := by
    rw [Aggregate.latestRead?_eq s] at hdue
    unfold Cache.fresh?
    cases hlast : (Aggregate.datedReadings s inner).getLast? with
    | none => rfl
    | some entry =>
      rw [hlast] at hdue
      exact if_neg (Nat.not_lt.mpr (isDue_some.mp hdue))
  show d.read now = _
  unfold Decorated.read
  rw [h.cache_eq]
  dsimp only
  rw [hfresh, h.inner_eq]
  rfl

/-- Another read returns what the latest one let through has returned, and changes nothing. -/
theorem Follows.read_of_not_isDue (h : d.Follows s duration inner) {now : Nat}
    (hdue : ¬ isDue duration (latestRead? inner) now) :
    ∃ v computed, (Aggregate.datedReadings s inner).getLast? = some (v, computed) ∧
      now < satAdd computed duration ∧ Aggregate.read d now = pure (v, d) := by
  rw [Aggregate.latestRead?_eq s] at hdue
  cases hlast : (Aggregate.datedReadings s inner).getLast? with
  | none =>
    rw [hlast] at hdue
    exact absurd (isDue_of_none duration now) hdue
  | some entry =>
    obtain ⟨v, computed⟩ := entry
    rw [hlast] at hdue
    have hlt : now < satAdd computed duration := Nat.not_le.mp fun hle => hdue (isDue_some.mpr hle)
    have hfresh : (⟨duration, some (v, computed)⟩ : Cache V).fresh? now = some v := if_pos hlt
    refine ⟨v, computed, rfl, hlt, ?_⟩
    show d.read now = _
    unfold Decorated.read
    rw [h.cache_eq, hlast]
    dsimp only
    rw [hfresh]

/-- Every access goes on following. -/
theorem Follows.step (h : d.Follows s duration inner) (access : Access W) :
    (Aggregate.step d access : Decorated σ V).Follows s duration (thin duration inner access) := by
  cases access with
  | write now w =>
    have hinner : Aggregate.after s (inner ++ [.write now w]) =
        (Aggregate.write d.inner now w).value.2 := by
      rw [h.inner_eq]
      exact Aggregate.after_concat s inner _
    refine ⟨hinner.symm, ?_⟩
    show d.cache = _
    rw [h.cache_eq]
    unfold thin
    rw [Aggregate.datedReadings_append]
    simp [Aggregate.datedReadings]
  | read now =>
    by_cases hdue : isDue duration (latestRead? inner) now
    · have hread := congrArg Logged.value (h.read_of_isDue hdue)
      rw [thin_of_isDue hdue]
      refine ⟨?_, ?_⟩
      · rw [Aggregate.after_concat]
        exact congrArg (fun out => out.2.inner) hread
      · rw [Aggregate.datedReadings_append]
        simp only [Aggregate.datedReadings, List.getLast?_append, List.getLast?_singleton, Option.some_or]
        exact congrArg (fun out => out.2.cache) hread
    · obtain ⟨v, computed, -, -, hread⟩ := h.read_of_not_isDue hdue
      have hd : Aggregate.step d (Access.read now : Access W) = d :=
        congrArg (fun out => out.value.2) hread
      rw [hd, thin_of_not_isDue hdue]
      exact h

theorem follows_run (s : σ) (caching : Duration) (run : List (Access W)) :
    (Aggregate.after (Decorated.create s (some caching) : Decorated σ V) run).Follows s
      caching.cappedMillis (thinned caching.cappedMillis run) := by
  induction run using List.reverseRecOn with
  | nil => exact ⟨rfl, rfl⟩
  | append_singleton run access ih =>
    rw [Aggregate.after_concat, thinned_concat]
    exact ih.step access

/-- What a cached aggregate does at `now`, against the plain one after the accesses let through. -/
structure ReadsThinned (d : Decorated σ V) (s : σ) (duration : Nat) (inner : List (Access W))
    (now : Nat) : Prop where
  inner_eq : d.inner = Aggregate.after s inner
  reply_eq : ∀ w, (Aggregate.write d now w).value.1 =
    (Aggregate.write (Aggregate.after s inner) now w).value.1
  /-- A read that is due is one of the aggregate inside. -/
  due : isDue duration (latestRead? inner) now →
    Aggregate.read d now = Aggregate.read (Aggregate.after s inner) now >>= fun out =>
      pure (out.1, ⟨out.2, some ⟨duration, some (out.1, now)⟩⟩)
  /-- Another one repeats the latest and changes nothing. -/
  kept : ¬ isDue duration (latestRead? inner) now →
    ∃ v, (Aggregate.readings s inner).getLast? = some v ∧ Aggregate.read d now = pure (v, d)
  /-- What is returned was computed at an instant that is not yet a whole caching time ago. -/
  recent : ∃ computed ≤ now, (1 ≤ duration → now < computed + duration) ∧
    (Aggregate.datedReadings s (thin duration inner (.read now))).getLast? =
      some ((Aggregate.read d now).value.1, computed)

theorem Follows.readsThinned (h : d.Follows s duration inner) {now : Nat}
    (hclock : ∀ t ∈ latestRead? inner, t ≤ now) : d.ReadsThinned s duration inner now := by
  refine ⟨h.inner_eq, fun w => ?_, h.read_of_isDue, fun hdue => ?_, ?_⟩
  · rw [← h.inner_eq]
    rfl
  · obtain ⟨v, computed, hlast, -, hread⟩ := h.read_of_not_isDue hdue
    refine ⟨v, ?_, hread⟩
    rw [Aggregate.readings, List.getLast?_map, hlast]
    rfl
  · by_cases hdue : isDue duration (latestRead? inner) now
    · have hread := congrArg (fun out => out.value.1) (h.read_of_isDue hdue)
      refine ⟨now, Nat.le_refl now, fun hd => Nat.lt_add_of_pos_right hd, ?_⟩
      rw [thin_of_isDue hdue, Aggregate.datedReadings_append, List.getLast?_append, hread]
      rfl
    · obtain ⟨v, computed, hlast, hlt, hread⟩ := h.read_of_not_isDue hdue
      rw [Aggregate.latestRead?_eq s, hlast] at hclock
      refine ⟨computed, hclock computed rfl, fun _ => ?_, ?_⟩
      · -- a sum that stops early is not above the sum
        exact Nat.lt_of_lt_of_le hlt (Nat.min_le_left _ _)
      · rw [thin_of_not_isDue hdue, hlast, hread]
        rfl

end Decorated

/-! ### Aggregates that start anew with every read -/

namespace Aggregate

variable {σ W R V : Type} [Aggregate σ W R V]

/-- Of the writes of a run each belongs to one read let through, the first one after it, and that returns
their `content`; or no read let through has followed it. -/
def CoversOnce (s : σ) (content : List (Nat × W) → V) (duration : Nat) (run : List (Access W)) : Prop :=
  let inner := thinned duration run
  readings s inner = (batches Access.write? [] inner).map content ∧
    (batches Access.write? [] inner).flatten ++ sinceRead Access.write? [] inner = writesOf run

theorem StartsAnew.coversOnce {Holds : σ → List (Nat × W) → Prop} {content : List (Nat × W) → V}
    {s : σ} (h : StartsAnew Holds content) (hs : Holds s []) (duration : Nat) (run : List (Access W)) :
    CoversOnce s content duration run := by
  refine ⟨h.readings_eq hs _, ?_⟩
  rw [flatten_batches, List.nil_append]
  exact writesOf_thinned duration run

end Aggregate

/-- The sum of the deltas of some writes. -/
def Counter.sumOf (batch : List (Nat × Int64)) : Int64 := batch.foldl (fun sum x => sum + x.2) 0

theorem Counter.startsAnew :
    Aggregate.StartsAnew (fun c batch => c = Counter.resetOnSnapshot (sumOf batch)) sumOf where
  write := by
    rintro _ pending rfl now w
    show Counter.resetOnSnapshot (sumOf pending + w) = Counter.resetOnSnapshot (sumOf (pending ++ [(now, w)]))
    simp [sumOf]
  read := by
    rintro _ pending rfl now
    exact ⟨rfl, rfl⟩

/-- The counts after some writes, of which those with more hits than attempts are refused. -/
def HitRatio.countsOf (batch : List (Nat × UInt32 × UInt32)) : HitCounts :=
  batch.foldl (fun c x => if x.2.2 < x.2.1 then c else c.add x.2.1 x.2.2) .zero

theorem HitRatio.startsAnew :
    Aggregate.StartsAnew (fun r batch => r = HitRatio.resetOnSnapshot (countsOf batch))
      fun batch => ofCounts (countsOf batch) where
  write := by
    rintro _ pending rfl now ⟨hits, total⟩
    show (HitRatio.update _ now hits total).value.2 = _
    unfold HitRatio.update countsOf
    rw [List.foldl_append]
    by_cases h : total < hits
    · rw [if_pos h, List.foldl_cons, List.foldl_nil, if_pos h]
      rfl
    · rw [if_neg h, List.foldl_cons, List.foldl_nil, if_neg h]
      rfl
  read := by
    rintro _ pending rfl now
    exact ⟨rfl, rfl⟩

theorem RetainedRanking.startsAnew {I : Type} [DecidableEq I] (settings : RankingSettings) :
    Aggregate.StartsAnew
      (fun (r : RetainedRanking I) batch => ∃ s : SnapshotRanking I, r = .resetOnSnapshot s ∧
        s.recorder.Holds settings (settings.rankingOf (SnapshotRanking.offered batch)))
      fun batch => (settings.rankingOf (SnapshotRanking.offered batch)).descending where
  write := by
    rintro _ pending ⟨s, rfl, hs⟩ now w
    exact ⟨_, rfl, (SnapshotRanking.startsAnew settings).write hs now w⟩
  read := by
    rintro _ pending ⟨s, rfl, hs⟩ now
    obtain ⟨hvalue, hrest⟩ := (SnapshotRanking.startsAnew settings).read hs now
    exact ⟨hvalue, _, rfl, hrest⟩

/-- **A cache only thins out reads.**  Whatever is cached, and for however long,
* an aggregate in a cache is at any time what it would be without the cache and without the reads that are
  not due; reads that are due go through to it, the others repeat the latest one, and what is returned was
  computed less than the caching time ago;
* if the aggregate starts anew with every read, each write is returned by one read of it, the first after
  the write. -/
theorem cached_reads (caching : Duration) :
    (∀ (σ W R V : Type) [Aggregate σ W R V] (s : σ) (run : List (Access W)) (now : Nat),
      (run.map Access.instant ++ [now]).Pairwise (· ≤ ·) →
        (Aggregate.after (Decorated.create s (some caching) : Decorated σ V) run).ReadsThinned s
          caching.cappedMillis (thinned caching.cappedMillis run) now) ∧
    (∀ run, Aggregate.CoversOnce (Counter.resetOnSnapshot 0) Counter.sumOf caching.cappedMillis run) ∧
    (∀ run, Aggregate.CoversOnce (HitRatio.resetOnSnapshot .zero)
      (fun batch => HitRatio.ofCounts (HitRatio.countsOf batch)) caching.cappedMillis run) ∧
    ∀ (I : Type) [DecidableEq I] (settings : RankingSettings) (r : RetainedRanking I),
      RetainedRanking.createSnapshot settings = .ok r →
        ∀ run, Aggregate.CoversOnce r
          (fun batch => (settings.rankingOf (SnapshotRanking.offered batch)).descending)
          caching.cappedMillis run := by
  refine ⟨?_, ?_, ?_, ?_⟩
  · intro σ W R V _ s run now hclock
    refine (Decorated.follows_run s caching run).readsThinned fun t ht => ?_
    have hmem : t ∈ (thinned caching.cappedMillis run).filterMap Access.read? := List.mem_of_getLast? ht
    obtain ⟨access, haccess, hread⟩ := List.mem_filterMap.mp hmem
    have hinstant : access.instant = t := by
      cases access with
      | write => cases hread
      | read => exact Option.some.inj hread
    refine (List.pairwise_append.mp hclock).2.2 t ?_ now List.mem_cons_self
    exact List.mem_map.mpr ⟨access, (thinned_sublist _ run).subset haccess, hinstant⟩
  · exact fun run => Counter.startsAnew.coversOnce rfl _ run
  · exact fun run => HitRatio.startsAnew.coversOnce rfl _ run
  · intro I _ settings r hcreate run
    obtain ⟨s, hs, hr⟩ := exists_ok_of_map hcreate
    exact (RetainedRanking.startsAnew settings).coversOnce
      ⟨s, hr.symm, SnapshotRanking.holds_create hs⟩ _ run

/-- A counter is read twice within the caching time, and again at its end. -/
theorem cached_reads_twice :
    let caching : Duration := ⟨0, 5000000⟩
    let settings : RankingSettings := { capacity := 1, poolSize := 1, batchSize := 1 }
    let run : List (Access Int64) := [.write 0 3, .read 1, .write 2 4, .read 4, .write 5 8]
    let cached : Decorated Counter Int64 :=
      Aggregate.after (Decorated.create (.resetOnSnapshot 0) (some caching)) run
    ((run.map Access.instant ++ [6]).Pairwise (· ≤ ·) ∧
      thinned 5 run = [.write 0 3, .read 1, .write 2 4, .write 5 8] ∧
      (Aggregate.read cached 5).value.1 = 3 ∧ (Aggregate.read cached 6).value.1 = 12 ∧
      cached.ReadsThinned (.resetOnSnapshot 0) 5 (thinned 5 run) 6) ∧
    ∃ r : RetainedRanking Nat, RetainedRanking.createSnapshot settings = .ok r ∧
      ∀ run, Aggregate.CoversOnce r
        (fun batch => (settings.rankingOf (SnapshotRanking.offered batch)).descending) 5 run := by
  intro caching settings run cached
  obtain ⟨hreads, -, -, hranking⟩ := cached_reads caching
  have hmillis : caching.cappedMillis = 5 := by decide
  rw [hmillis] at hreads hranking
  have hclock : (run.map Access.instant ++ [6]).Pairwise (· ≤ ·) := by decide
  obtain ⟨s, hs⟩ : ∃ s : SnapshotRanking Nat, SnapshotRanking.create settings = .ok s :=
    SnapshotRanking.exists_create (by decide) (by decide)
  have hcreate : RetainedRanking.createSnapshot settings = .ok (.resetOnSnapshot s) := by
    unfold RetainedRanking.createSnapshot
    rw [hs]
    rfl
  refine ⟨⟨hclock, rfl, by decide, by decide, ?_⟩, _, hcreate, hranking Nat settings _ hcreate⟩
  exact hreads Counter Int64 Unit Int64 (.resetOnSnapshot 0) run 6 hclock

end WindowedMetrics
