import WindowedMetrics.Proofs.Ranking.Recording
import WindowedMetrics.Proofs.Rolling.Archive
import WindowedMetrics.Proofs.Rolling.Settle

/-!
# What a settled rolling ranking has of its offers

`Tracks plan offers k`: interval `k` is current and its offers are in the current phase, in the recorder
or in the totals that reads have taken from it; the intervals before are in the archive; the other phase
is dormant and has nothing.

An instant of a later interval turns the ranking and archives interval `k`, whether a writer or a reader
comes first, and however many intervals have passed without either (`Tracks.advanced`).  Offers and reads
of the running interval keep the invariant (`Tracks.record`, `Tracks.readOut`), and what a read returns are
the heaviest offers of the window.
-/

namespace WindowedMetrics

variable {I : Type} [DecidableEq I]

/-! ### Phases -/

/-- A recorder, and the totals taken from it before, have the heaviest of some offers. -/
def Collects (settings : RankingSettings) (offers : Set (Position I)) (recorder : Recorder I)
    (totals : Ranking I) : Prop :=
  ∃ content taken pending, recorder.Holds settings content ∧ content.Keeps settings pending ∧
    totals.Keeps settings taken ∧ ∀ p, p ∈ offers ↔ p ∈ taken ∨ p ∈ pending

namespace Collects

variable {settings : RankingSettings} {offers : Set (Position I)} {recorder : Recorder I}
  {totals : Ranking I}

omit [DecidableEq I] in
theorem blank (h : recorder.Holds settings (Ranking.blank settings.capacity settings.threshold))
    (ht : totals.Keeps settings offers) : Collects settings offers recorder totals :=
  ⟨_, offers, ∅, h, Ranking.keeps_blank settings, ht, fun p => by simp⟩

theorem update (h : Collects settings offers recorder totals) (w : Int64) (identity : I) :
    Collects settings (insert ⟨w, identity⟩ offers) (recorder.update w identity).value totals := by
  obtain ⟨content, taken, pending, hrec, hcontent, htotals, hoffers⟩ := h
  refine ⟨_, taken, _, hrec.update hcontent.top.ascending w identity,
    hcontent.add w identity, htotals, fun p => ?_⟩
  rw [Set.mem_insert_iff, Set.mem_insert_iff, hoffers p]
  tauto

/-- Taking an interval moves all offers to the totals. -/
theorem take (h : Collects settings offers recorder totals) (spare : Option (Interval I)) :
    ((recorder.takeInterval spare).value.1.ranking.mergeInto totals).Keeps settings offers ∧
      (recorder.takeInterval spare).value.2.Holds settings
        (Ranking.blank settings.capacity settings.threshold) := by
  obtain ⟨content, taken, pending, hrec, hcontent, htotals, hoffers⟩ := h
  obtain ⟨htaken, hrest⟩ := hrec.takeInterval spare
  refine ⟨?_, hrest⟩
  rw [htaken]
  exact (hcontent.mergeInto htotals).congr fun p => (hoffers p).symm

end Collects

namespace ChunkedRanking

/-! ### The invariant -/

/-- What is known of a settled ranking while interval `k` is current.  `offers j` are the offers made in
interval `j`. -/
structure Tracks (r : ChunkedRanking I) (plan : Plan) (offers : Nat → Set (Position I)) (k : Nat) :
    Prop where
  settings_eq : r.settings = plan.settings
  creation_eq : r.creation = plan.creation
  length_eq : r.interval = plan.interval
  interval_eq : (r.phase r.current).interval = k
  invalidation_eq : (r.phase r.current).invalidation = plan.start (k + 1)
  scheduled : plan.start (k + 1) ≤ dormant - 1
  collects : Collects plan.settings (offers k) (r.phase r.current).recorder (r.totals.get r.current)
  dormant_eq : (r.phase r.current.other).invalidation = dormant
  empty : Collects plan.settings ∅ (r.phase r.current.other).recorder (r.totals.get r.current.other)
  archive : ArchiveHolds r.archive plan offers k
  collector_eq : r.collector.reset = Ranking.blank plan.settings.capacity plan.settings.threshold
  later : ∀ j, k < j → offers j = ∅

variable {r : ChunkedRanking I} {plan : Plan} {offers : Nat → Set (Position I)} {k now : Nat}

omit [DecidableEq I] in
theorem Tracks.invalidation_ne (h : r.Tracks plan offers k) :
    (r.phase r.current).invalidation ≠ dormant := by
  have hs := h.scheduled
  have := maxWord_eq
  rw [h.invalidation_eq]
  unfold dormant at *
  omega

theorem Tracks.settle_eq (h : r.Tracks plan offers k) : r.settle = r :=
  retire_of_not_isOver (by simp [isOver, h.dormant_eq])

/-- Valid settings make a ranking, if its actors can number their slots. -/
theorem exists_create {settings : RankingSettings} {interval : Nat} (hv : settings.validate = .ok ())
    (hp : settings.poolSize < Limits.poolSizeBound) (hi : 0 < interval) (archiveSize creation : Nat) :
    ∃ r : ChunkedRanking I, create settings interval archiveSize creation = .ok r := by
  obtain ⟨recorder, hrec⟩ : ∃ recorder : Recorder I, Recorder.create settings = .ok recorder :=
    Recorder.exists_create hv hp
  unfold create
  rw [hv, hrec]
  exact ⟨_, if_neg (Nat.ne_of_gt hi)⟩

/-- A ranking starts in the first interval, without offers. -/
theorem tracks_create {settings : RankingSettings} {interval archiveSize creation : Nat}
    (h : create settings interval archiveSize creation = .ok r)
    (hbound : startOf creation interval 1 ≤ dormant - 1) :
    0 < interval ∧ r.Tracks ⟨settings, creation, interval, archiveSize⟩ (fun _ => ∅) 0 := by
  obtain ⟨-, -, h⟩ := exists_ok_of_bind h
  split at h
  · exact absurd h (by rintro ⟨⟩)
  rename_i hne
  obtain ⟨first, hfirst, h⟩ := exists_ok_of_bind h
  obtain ⟨second, hsecond, h⟩ := exists_ok_of_bind h
  obtain rfl := Except.ok.inj h
  refine ⟨Nat.pos_of_ne_zero hne, ?_⟩
  constructor
  case settings_eq | creation_eq | length_eq | interval_eq | dormant_eq | collector_eq => rfl
  case invalidation_eq => exact boundary_eq_startOf hbound
  case scheduled => exact hbound
  case collects => exact .blank (Recorder.holds_create hfirst) (Ranking.keeps_blank settings)
  case empty => exact .blank (Recorder.holds_create hsecond) (Ranking.keeps_blank settings)
  case archive => exact ArchiveHolds.create ⟨settings, creation, interval, archiveSize⟩ _
  case later => exact fun _ _ => rfl

/-! ### Offers -/

/-- **An offer** to the current phase is one of its interval. -/
theorem Tracks.record (h : r.Tracks plan offers k) (w : Int64) (identity : I)
    {offers' : Nat → Set (Position I)} (hk : offers' k = insert ⟨w, identity⟩ (offers k))
    (hne : ∀ j, j ≠ k → offers' j = offers j) : (r.record w identity).Tracks plan offers' k := by
  have hcollects := h.collects.update w identity
  rw [← hk] at hcollects
  obtain ⟨recorder, hrec⟩ : ∃ recorder,
      recorder = ((r.phase r.current).recorder.update w identity).value := ⟨_, rfl⟩
  rw [← hrec] at hcollects
  have hself : (r.record w identity).phase r.current = { r.phase r.current with recorder } := by
    rw [hrec]
    exact Twin.get_set_self _ _ _
  have hother : (r.record w identity).phase r.current.other = r.phase r.current.other :=
    Twin.get_set_other _ _ _
  constructor
  case settings_eq => exact h.settings_eq
  case creation_eq => exact h.creation_eq
  case length_eq => exact h.length_eq
  case interval_eq => exact (congrArg RankingPhase.interval hself).trans h.interval_eq
  case invalidation_eq => exact (congrArg RankingPhase.invalidation hself).trans h.invalidation_eq
  case scheduled => exact h.scheduled
  case collects => exact (congrArg RankingPhase.recorder hself) ▸ hcollects
  case dormant_eq => exact (congrArg RankingPhase.invalidation hother).trans h.dormant_eq
  case empty => exact (congrArg RankingPhase.recorder hother) ▸ h.empty
  case archive => exact h.archive.congr fun j hj => hne j (Nat.ne_of_lt hj)
  case collector_eq => exact h.collector_eq
  case later => exact fun j hj => (hne j (Nat.ne_of_gt hj)).trans (h.later j hj)

/-! ### Turning -/

omit [DecidableEq I] in
/-- Totals that are stored are archived as their interval, and leave nothing behind. -/
theorem archiveHolds_stored {side : Side} {totals : Ranking I} (h : ArchiveHolds r.archive plan offers k)
    (hlength : r.interval = plan.interval) (hk : (r.phase side).interval = k)
    (hinv : (r.phase side).invalidation = plan.start (k + 1))
    (hbound : plan.start (k + plan.archiveSize) ≤ dormant - 1)
    (ht : totals.Keeps plan.settings (offers k)) :
    ArchiveHolds (r.stored side totals).1 plan offers (k + 1) ∧
      (r.stored side totals).2.Keeps plan.settings ∅ := by
  unfold stored
  rw [hk, hinv, hlength]
  by_cases he : r.archive.isEmpty
  · rw [if_pos he]
    have hsize : plan.archiveSize = 0 := h.size_eq.symm.trans (Array.isEmpty_iff_size_eq_zero.mp he)
    refine ⟨⟨h.size_eq, fun slot hslot => by omega⟩, ?_⟩
    show totals.reset.Keeps plan.settings ∅
    rw [ht.reset_eq]
    exact Ranking.keeps_blank plan.settings
  · rw [if_neg he, h.size_eq]
    have hpos : 0 < plan.archiveSize := by
      refine Nat.pos_of_ne_zero fun h0 => he ?_
      exact Array.isEmpty_iff_size_eq_zero.mpr (h.size_eq.trans h0)
    have hround : plan.start (k + 1) + (plan.archiveSize - 1) * plan.interval =
        plan.start (k + plan.archiveSize) := by
      rw [show k + plan.archiveSize = k + 1 + (plan.archiveSize - 1) by omega]
      exact (startOf_add _ _).symm
    have hexpiry : boundary (plan.start (k + 1)) (plan.archiveSize - 1) plan.interval =
        plan.start (k + plan.archiveSize) :=
      (boundary_eq (hround.symm ▸ hbound)).trans hround
    obtain ⟨a, ha, hholds⟩ := h.slot_mod hpos k
    rw [hexpiry, ha]
    refine ⟨h.store ht, ?_⟩
    show a.ranking.reset.Keeps plan.settings ∅
    rw [hholds.reset_eq]
    exact Ranking.keeps_blank plan.settings

/-- Turning a settled ranking and retiring the phase that was current. -/
theorem settle_turn (hd : (r.phase r.current).invalidation ≠ dormant) (now : Nat) :
    (r.turn now).settle =
      let taken := ((r.phase r.current).recorder.takeInterval r.spare).value
      let stored := r.stored r.current (taken.1.ranking.mergeInto (r.totals.get r.current))
      { r with
        current := r.current.other
        phases := (r.phases.set r.current.other { r.phase r.current.other with
          interval := r.intervalOf now
          invalidation := boundary r.creation (r.intervalOf now + 1) r.interval }).set r.current
            { r.phase r.current with recorder := taken.2, invalidation := dormant }
        archive := stored.1
        totals := r.totals.set r.current stored.2
        spare := some taken.1 } := by
  obtain ⟨settings, creation, interval, phases, current, totals, archive, collector, spare⟩ := r
  cases current with
  | first =>
    rw [settle_of_isOver]
    · rfl
    · simp only [isOver, Bool.and_eq_true, decide_eq_true_eq]
      exact ⟨hd, Side.other_ne .first⟩
  | second =>
    rw [settle_of_isOver]
    · rfl
    · simp only [isOver, Bool.and_eq_true, decide_eq_true_eq]
      exact ⟨hd, Side.other_ne .second⟩

/-- **The next interval**, or a later one: the interval that was current is in the archive. -/
theorem Tracks.turn {k' : Nat} (h : r.Tracks plan offers k) (hk : k < k')
    (hnow : RunsAt plan.creation plan.interval k' now)
    (harchive : plan.start (k + plan.archiveSize) ≤ dormant - 1)
    (hbound : plan.start (k' + 1) ≤ dormant - 1) : (r.turn now).settle.Tracks plan offers k' := by
  obtain ⟨hkeeps, hrest⟩ := h.collects.take r.spare
  obtain ⟨hstored, hleft⟩ := archiveHolds_stored h.archive h.length_eq h.interval_eq h.invalidation_eq
    harchive hkeeps
  rw [settle_turn h.invalidation_ne]
  have hnew : ∀ (a b : RankingPhase I),
      ((r.phases.set r.current.other a).set r.current b).get r.current.other = a := fun a b => by
    rw [Twin.get_set_other, Twin.get_set_self]
  have hindex : r.intervalOf now = k' := by
    unfold intervalOf
    rw [h.creation_eq, h.length_eq, hnow.index_eq]
  constructor
  case settings_eq => exact h.settings_eq
  case creation_eq => exact h.creation_eq
  case length_eq => exact h.length_eq
  case interval_eq => simp only [phase, hnew, hindex]
  case invalidation_eq =>
    simp only [phase, hnew, hindex, h.creation_eq, h.length_eq]
    exact boundary_eq_startOf hbound
  case scheduled => exact hbound
  case collects =>
    simp only [phase, hnew, Twin.get_set_other, h.later k' hk]
    exact h.empty
  case dormant_eq => simp only [phase, Side.other_other, Twin.get_set_self]
  case empty =>
    simp only [phase, Side.other_other, Twin.get_set_self]
    exact .blank hrest hleft
  case archive => exact hstored.idle hk fun i hki _ => h.later i hki
  case collector_eq => exact h.collector_eq
  case later => exact fun j hj => h.later j (hk.trans hj)

/-- **At an instant** its interval is current, whether it was before or not. -/
theorem Tracks.advanced {k' : Nat} (h : r.Tracks plan offers k) (hk : k ≤ k')
    (hnow : RunsAt plan.creation plan.interval k' now)
    (hbound : plan.start (k' + plan.archiveSize + 1) ≤ dormant - 1) :
    (r.advanced now).Tracks plan offers k' := by
  have hexpired : r.expired now ↔ plan.start (k + 1) ≤ now := by
    rw [expired, h.invalidation_eq, decide_eq_true_iff]
  unfold ChunkedRanking.advanced
  by_cases hlt : k < k'
  · rw [if_pos (hexpired.mpr ((plan.start_mono hlt).trans hnow.start_le))]
    refine h.turn hlt hnow ?_ ?_
    · exact (plan.start_mono (by omega)).trans hbound
    · exact (plan.start_mono (by omega)).trans hbound
  · obtain rfl : k = k' := by omega
    rw [if_neg fun he => Nat.not_lt.mpr (hexpired.mp he) hnow.lt_end]
    exact h

/-! ### Reads -/

theorem readOut_of_lt (h : now < (r.phase r.current).invalidation) :
    r.readOut now =
      let taken := ((r.phase r.current).recorder.takeInterval r.spare).value
      let totals := taken.1.ranking.mergeInto (r.totals.get r.current)
      let merged := totals.mergeInto (r.mergeArchive now)
      (merged.descending, { r with
        phases := r.phases.set r.current { r.phase r.current with recorder := taken.2 }
        totals := r.totals.set r.current totals
        spare := some taken.1
        collector := merged }) := by
  unfold readOut
  rw [if_pos h]
  have htotals : ((r.collect r.current).value.totals).get r.current =
      ((r.phase r.current).recorder.takeInterval r.spare).value.1.ranking.mergeInto
        (r.totals.get r.current) := Twin.get_set_self _ _ _
  simp only [htotals]
  rfl

/-- **What a read returns** are the heaviest offers of the window, and it changes nothing that is known of
the ranking. -/
theorem Tracks.readOut (h : r.Tracks plan offers k) (hnow : RunsAt plan.creation plan.interval k now) :
    (∃ merged : Ranking I, (r.readOut now).1 = merged.descending ∧ merged.Keeps plan.settings
      {p | ∃ j ≤ k, k < j + max plan.archiveSize 1 ∧ p ∈ offers j}) ∧
    (r.readOut now).2.Tracks plan offers k := by
  obtain ⟨hkeeps, hrest⟩ := h.collects.take r.spare
  have harchive := keeps_mergeArchive h.archive h.interval_eq h.collector_eq hnow
  have hmerged := hkeeps.mergeInto harchive
  rw [readOut_of_lt (h.invalidation_eq.symm ▸ hnow.lt_end)]
  refine ⟨⟨_, rfl, hmerged.congr fun p => ?_⟩, ?_⟩
  · simp only [Set.mem_union, Set.mem_ofPred_eq]
    constructor
    · rintro (⟨j, hj, hw, hp⟩ | hp)
      · exact ⟨j, Nat.le_of_lt hj, by omega, hp⟩
      · exact ⟨k, Nat.le_refl k, by omega, hp⟩
    · rintro ⟨j, hj, hw, hp⟩
      by_cases hjk : j = k
      · exact Or.inr (hjk ▸ hp)
      · exact Or.inl ⟨j, by omega, by omega, hp⟩
  · have hself : ∀ a : RankingPhase I, (r.phases.set r.current a).get r.current = a :=
      fun _ => Twin.get_set_self _ _ _
    have hother : ∀ a : RankingPhase I,
        (r.phases.set r.current a).get r.current.other = r.phase r.current.other :=
      fun _ => Twin.get_set_other _ _ _
    constructor
    case settings_eq => exact h.settings_eq
    case creation_eq => exact h.creation_eq
    case length_eq => exact h.length_eq
    case interval_eq => simpa only [phase, hself] using h.interval_eq
    case invalidation_eq => simpa only [phase, hself] using h.invalidation_eq
    case scheduled => exact h.scheduled
    case collects =>
      simp only [phase, Twin.get_set_self]
      exact .blank hrest hkeeps
    case dormant_eq => simpa only [phase, hother] using h.dormant_eq
    case empty =>
      simp only [phase, hother, Twin.get_set_other]
      exact h.empty
    case archive => exact h.archive
    case collector_eq => exact hmerged.reset_eq
    case later => exact h.later

/-- A read of a settled ranking turns it first, if the current phase has expired. -/
theorem Tracks.descending (h : r.Tracks plan offers k) (now : Nat) :
    (r.descending now).value =
      ((r.advanced now).settle.readOut now) := by
  rw [descending_value]
  unfold rotated ChunkedRanking.advanced
  by_cases he : r.expired now
  · have hle : (r.phase r.current).invalidation ≤ now := by simpa [expired] using he
    rw [if_pos ⟨h.invalidation_ne, hle⟩, if_pos he, h.settle_eq, settle_settle]
  · have hle : ¬ (r.phase r.current).invalidation ≤ now := by simpa [expired] using he
    rw [if_neg fun hr => hle hr.2, if_neg he]

end ChunkedRanking

end WindowedMetrics
