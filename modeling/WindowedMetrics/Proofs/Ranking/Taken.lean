import WindowedMetrics.Proofs.Batches
import WindowedMetrics.Proofs.Ranking.Offers
import WindowedMetrics.Proofs.Ranking.Recording

/-!
# Intervals taken from a recorder

The two rankings of a recorder swap their parts with every interval taken, and the buffer that is handed
back may come from anywhere.  What is handed out does not tell: it is a blank ranking with the offers made
since the interval before, and both rankings are blank after it, with their floors at the threshold
(`intervals_start_anew`).  Reads of a ranking that starts anew with every read are such intervals.
-/

namespace WindowedMetrics

variable {I : Type} [DecidableEq I]

/-- A ranking of the sizes of the settings that has been offered some positions, one by one. -/
def RankingSettings.rankingOf (s : RankingSettings) (offers : List (Position I)) : Ranking I :=
  (Ranking.blank s.capacity s.threshold).addAll offers

namespace RankingSettings

variable (s : RankingSettings)

theorem rankingOf_concat (offers : List (Position I)) (w : Int64) (identity : I) :
    s.rankingOf (offers ++ [⟨w, identity⟩]) = (s.rankingOf offers).add w identity :=
  Ranking.addAll_concat _ offers ⟨w, identity⟩

theorem ascending_rankingOf (offers : List (Position I)) : Ascending (s.rankingOf offers).positions :=
  Ranking.ascending_addAll (r := Ranking.blank s.capacity s.threshold) List.Pairwise.nil offers

@[simp] theorem capacity_rankingOf (offers : List (Position I)) :
    (s.rankingOf offers).capacity = s.capacity := Ranking.capacity_addAll ..

@[simp] theorem threshold_rankingOf (offers : List (Position I)) :
    (s.rankingOf offers).threshold = s.threshold := Ranking.threshold_addAll ..

end RankingSettings

/-! ### Calls of a recorder -/

namespace Recorder

/-- An offer, or an interval taken and another one handed back for it. -/
inductive Call (I : Type) where
  | offer (weight : Int64) (identity : I)
  | take (recycled : Option (Interval I))

omit [DecidableEq I] in
def Call.offer? : Call I → Option (Position I)
  | .offer weight identity => some ⟨weight, identity⟩
  | .take _ => none

/-- The recorder after a call. -/
def call (r : Recorder I) : Call I → Recorder I
  | .offer weight identity => (r.update weight identity).value
  | .take recycled => (r.takeInterval recycled).value.2

/-- The recorder after some calls. -/
def after (r : Recorder I) (calls : List (Call I)) : Recorder I := calls.foldl call r

/-- The intervals that some calls have taken, the first one in front. -/
def intervals (r : Recorder I) : List (Call I) → List (Interval I)
  | [] => []
  | .offer weight identity :: calls => (r.call (.offer weight identity)).intervals calls
  | .take recycled :: calls =>
    (r.takeInterval recycled).value.1 :: (r.call (.take recycled)).intervals calls

omit [DecidableEq I] in
/-- Both rankings are blank, nothing is queued for them, and writers see the threshold as floor. -/
def Cleared (r : Recorder I) (settings : RankingSettings) : Prop :=
  ∀ side, (r.rankings.get side).actor.pool.queueTop = none ∧
    (r.rankings.get side).actor.state =
      ⟨Ranking.blank settings.capacity settings.threshold, settings.threshold⟩

variable {r : Recorder I} {settings : RankingSettings} {pending : List (Position I)}

omit [DecidableEq I] in
theorem Holds.cleared (h : r.Holds settings (Ranking.blank settings.capacity settings.threshold)) :
    r.Cleared settings := by
  intro side
  rcases Side.eq_or_eq_other r.active side with rfl | rfl
  · exact ⟨h.active.idle.queue, h.active.state⟩
  · exact ⟨h.inactive.idle.queue, h.inactive.state⟩

/-- An offer comes to the ones that are pending. -/
theorem Holds.offer (h : r.Holds settings (settings.rankingOf pending)) (w : Int64) (identity : I) :
    (r.update w identity).value.Holds settings (settings.rankingOf (pending ++ [⟨w, identity⟩])) := by
  rw [settings.rankingOf_concat]
  exact h.update (settings.ascending_rankingOf pending) w identity

/-- An interval takes all that is pending. -/
theorem Holds.take (h : r.Holds settings (settings.rankingOf pending)) (recycled : Option (Interval I)) :
    (r.takeInterval recycled).value.1 = ⟨settings.rankingOf pending⟩ ∧
      (r.takeInterval recycled).value.2.Holds settings (settings.rankingOf []) :=
  h.takeInterval recycled

theorem Holds.after (h : r.Holds settings (settings.rankingOf pending)) (calls : List (Call I)) :
    (r.after calls).Holds settings (settings.rankingOf (sinceRead Call.offer? pending calls)) := by
  induction calls generalizing r pending with
  | nil => exact h
  | cons c calls ih =>
    cases c with
    | offer w identity => exact ih (h.offer w identity)
    | take recycled => exact ih (h.take recycled).2

theorem Holds.intervals_eq (h : r.Holds settings (settings.rankingOf pending)) (calls : List (Call I)) :
    r.intervals calls =
      (batches Call.offer? pending calls).map fun offers => ⟨settings.rankingOf offers⟩ := by
  induction calls generalizing r pending with
  | nil => rfl
  | cons c calls ih =>
    cases c with
    | offer w identity => exact ih (h.offer w identity)
    | take recycled =>
      obtain ⟨htaken, hrest⟩ := h.take recycled
      show (r.takeInterval recycled).value.1 :: (r.call (.take recycled)).intervals calls =
        ⟨settings.rankingOf pending⟩ :: (batches Call.offer? [] calls).map _
      rw [htaken]
      exact congrArg (List.cons _) (ih hrest)

end Recorder

/-! ### Rankings that start anew with every read -/

namespace SnapshotRanking

/-- A ranking that starts anew with every read has no use for the clock. -/
instance : Aggregate (SnapshotRanking I) (Int64 × I) Unit (List (Position I)) where
  write r _ offer := do
    let r ← r.update offer.1 offer.2
    return ((), r)
  read r _ := r.descending

omit [DecidableEq I] in
/-- The positions offered by some writes. -/
def offered (batch : List (Nat × Int64 × I)) : List (Position I) := batch.map fun x => ⟨x.2.1, x.2.2⟩

theorem startsAnew (settings : RankingSettings) :
    Aggregate.StartsAnew
      (fun (s : SnapshotRanking I) batch =>
        s.recorder.Holds settings (settings.rankingOf (offered batch)))
      fun batch => (settings.rankingOf (offered batch)).descending where
  write := by
    intro s pending h now w
    have hw := h.offer w.1 w.2
    unfold offered at hw ⊢
    rw [List.map_append]
    exact hw
  read := by
    intro s pending h now
    obtain ⟨htaken, hrest⟩ := h.take s.spare
    exact ⟨congrArg (fun i => i.ranking.descending) htaken, hrest⟩

theorem exists_create {settings : RankingSettings} (hv : settings.validate = .ok ())
    (hp : settings.poolSize < Limits.poolSizeBound) : ∃ s : SnapshotRanking I, create settings = .ok s := by
  obtain ⟨recorder, hrec⟩ : ∃ recorder : Recorder I, Recorder.create settings = .ok recorder :=
    Recorder.exists_create hv hp
  unfold create
  rw [hrec]
  exact ⟨_, rfl⟩

theorem holds_create {settings : RankingSettings} {s : SnapshotRanking I}
    (h : create settings = .ok s) : s.recorder.Holds settings (settings.rankingOf (offered [])) := by
  obtain ⟨recorder, hrec, h⟩ := exists_ok_of_bind h
  obtain rfl := Except.ok.inj h
  exact Recorder.holds_create hrec

end SnapshotRanking

/-- **Every interval starts anew.**  Whatever calls are made, and whatever is handed back to be filled
again,
* each interval has the sizes of the settings and is a blank ranking with the offers since the interval
  before, in their order;
* after each interval both rankings of the recorder are blank, and their floors are at the threshold.

The same holds of the successive reads of a ranking that starts anew with every read. -/
theorem intervals_start_anew (settings : RankingSettings) :
    (∀ r : Recorder I, Recorder.create settings = .ok r → ∀ calls : List (Recorder.Call I),
      r.intervals calls = ((batches Recorder.Call.offer? [] calls).map fun offers =>
        ⟨settings.rankingOf offers⟩) ∧
      (∀ i ∈ r.intervals calls, i.ranking.capacity = settings.capacity ∧
        i.ranking.threshold = settings.threshold) ∧
      ∀ recycled, ((r.after calls).takeInterval recycled).value.2.Cleared settings) ∧
    ∀ s : SnapshotRanking I, SnapshotRanking.create settings = .ok s →
      ∀ run : List (Access (Int64 × I)),
        Aggregate.readings s run = ((batches Access.write? [] run).map fun batch =>
          (settings.rankingOf (SnapshotRanking.offered batch)).descending) ∧
        ∀ now, (Aggregate.step (Aggregate.after s run) (.read now)).recorder.Cleared settings := by
  constructor
  · intro r hcreate calls
    have hr : r.Holds settings (settings.rankingOf []) := Recorder.holds_create hcreate
    have hintervals := hr.intervals_eq calls
    refine ⟨hintervals, fun i hi => ?_, fun recycled => ?_⟩
    · rw [hintervals] at hi
      obtain ⟨offers, -, rfl⟩ := List.mem_map.mp hi
      exact ⟨settings.capacity_rankingOf offers, settings.threshold_rankingOf offers⟩
    · exact ((hr.after calls).take recycled).2.cleared
  · intro s hcreate run
    have hs := SnapshotRanking.holds_create hcreate
    have hanew := SnapshotRanking.startsAnew (I := I) settings
    refine ⟨hanew.readings_eq hs run, fun now => ?_⟩
    exact (hanew.read (hanew.holds_after hs run) now).2.cleared

/-- An interval of another recorder is handed back, and the floor of a full ranking does not stay. -/
theorem intervals_start_anew_foreign :
    let settings : RankingSettings := { capacity := 1, threshold := 2, poolSize := 1, batchSize := 1 }
    let foreign : Interval Nat := ⟨⟨5, 0, [⟨1, 7⟩, ⟨9, 8⟩]⟩⟩
    let calls : List (Recorder.Call Nat) := [.offer 9 1, .take (some foreign), .offer 1 2, .offer 3 3,
      .take (some ⟨⟨1, 2, [⟨9, 1⟩]⟩⟩), .offer 4 4, .take none]
    let run : List (Access (Int64 × Nat)) := [.write 0 (9, 1), .read 1, .write 1 (3, 3), .read 2, .read 2]
    (∃ r : Recorder Nat, Recorder.create settings = .ok r ∧
      r.intervals calls = [⟨⟨1, 2, [⟨9, 1⟩]⟩⟩, ⟨⟨1, 2, [⟨3, 3⟩]⟩⟩, ⟨⟨1, 2, [⟨4, 4⟩]⟩⟩]) ∧
    ∃ s : SnapshotRanking Nat, SnapshotRanking.create settings = .ok s ∧
      Aggregate.readings s run = [[⟨9, 1⟩], [⟨3, 3⟩], []] := by
  intro settings foreign calls run
  obtain ⟨r, hr⟩ : ∃ r : Recorder Nat, Recorder.create settings = .ok r :=
    Recorder.exists_create (by decide) (by decide)
  obtain ⟨s, hs⟩ : ∃ s : SnapshotRanking Nat, SnapshotRanking.create settings = .ok s :=
    SnapshotRanking.exists_create (by decide) (by decide)
  obtain ⟨hrecorder, hsnapshot⟩ := intervals_start_anew (I := Nat) settings
  refine ⟨⟨r, hr, (hrecorder r hr calls).1.trans ?_⟩, s, hs, (hsnapshot s hs run).1.trans ?_⟩
  · decide
  · decide

end WindowedMetrics
