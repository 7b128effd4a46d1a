import WindowedMetrics.Proofs.Rolling.Likeness
import WindowedMetrics.Proofs.Rolling.Marks
import WindowedMetrics.Proofs.Rolling.Window

/-!
# The representation of a rolling ranking

`Tracks` speaks of settled rankings.  Between a rotation and the retirement that follows, or does not follow,
a ranking is not settled: its other phase still has an interval that is over, and the archive ends before this
interval (`Pending`).  `Represents` says of every ranking, settled or not, what its phases and its archive are,
and of its log that no slot was overwritten too early.

Slots are guarded by where the archive ends: while `j` is not archived, only intervals before `j` are.  So the
slot of `j` has expired when `j` begins (`Archived.Holds.expiry_le`), and the phase of `j` is rotated out after
the end of `j` (`Pending.guarded`).

`Stands` is what a run carries along: the settled ranking, the pending phase and the marks.  Writers, readers
and tasks each keep it (`Stands.update`, `Stands.read`, `Stands.retire`), so it holds after every run
(`stands_run`).
-/

namespace WindowedMetrics

variable {I : Type}

/-- While only intervals before `j` are archived, the slot of `j` has expired when `j` begins. -/
theorem Archived.Holds.expiry_le {a : Archived I} {plan : Plan} {offers : Nat → Set (Position I)} {j : Nat}
    (h : a.Holds plan offers j (j % plan.archiveSize)) : a.expiry ≤ plan.start j := by
  cases h with
  | vacant hexpiry => exact hexpiry ▸ Nat.zero_le _
  | filled i hlt hslot hexpiry => exact hexpiry ▸ plan.start_mono (Nat.ModEq.add_le_of_lt hslot hlt)

variable [DecidableEq I]

namespace ChunkedRanking

/-! ### The invariant -/

/-- The marks tell the expiries of an archive. -/
def Marked (archive : Array (Archived I)) (marks : List PhaseMark) : Prop :=
  ∀ slot a, archive[slot]? = some a → PhaseMark.slotExpiry archive.size slot marks = a.expiry

/-- An interval before those of the phases that are not dormant. -/
def Past (r : ChunkedRanking I) (i : Nat) : Prop :=
  ∀ side, (r.phase side).invalidation ≠ dormant → i < (r.phase side).interval

/-- **The representation invariant** while interval `k` is current, with the offers made in each interval and the
marks left so far. -/
structure Represents (r : ChunkedRanking I) (plan : Plan) (offers : Nat → Set (Position I)) (k : Nat)
    (marks : List PhaseMark) : Prop where
  interval_eq : (r.phase r.current).interval = k
  current_mark : PhaseMark.currentIn marks = k
  invalidation_ne : (r.phase r.current).invalidation ≠ dormant
  /-- A phase that is not dormant is scheduled up to the end of its interval. -/
  invalidation_eq : ∀ side, (r.phase side).invalidation ≠ dormant →
    (r.phase side).invalidation = plan.start ((r.phase side).interval + 1)
  /-- A phase that is not dormant has the offers of its interval. -/
  collects : ∀ side, (r.phase side).invalidation ≠ dormant →
    Collects plan.settings (offers (r.phase side).interval) (r.phase side).recorder (r.totals.get side)
  /-- The other phase is dormant and blank, or it still has an earlier interval. -/
  other : ((r.phase r.current.other).invalidation = dormant ∧
      (r.phase r.current.other).recorder.Holds plan.settings
        (Ranking.blank plan.settings.capacity plan.settings.threshold) ∧
      r.totals.get r.current.other = Ranking.blank plan.settings.capacity plan.settings.threshold) ∨
    ((r.phase r.current.other).invalidation ≠ dormant ∧ (r.phase r.current.other).interval < k)
  size_eq : r.archive.size = plan.archiveSize
  /-- A slot of the archive is vacant or has one interval; the past intervals of this slot that come after have
  seen no offers. -/
  slots : ∀ slot a, r.archive[slot]? = some a →
    (a.expiry = 0 ∧ a.ranking = Ranking.blank plan.settings.capacity plan.settings.threshold ∧
      ∀ i, r.Past i → i % plan.archiveSize = slot → offers i = ∅) ∨
    ∃ j, r.Past j ∧ j % plan.archiveSize = slot ∧ a.expiry = plan.start (j + plan.archiveSize) ∧
      a.ranking.Keeps plan.settings (offers j) ∧
      ∀ i, j < i → r.Past i → i % plan.archiveSize = slot → offers i = ∅
  marked : Marked r.archive marks
  /-- No slot was overwritten too early. -/
  guarded : PhaseMark.Guarded plan.archiveSize marks

/-- The other phase has interval `j`, which is over: it was rotated out after its end, and only intervals
before it are in the archive. -/
structure Pending (r : ChunkedRanking I) (plan : Plan) (offers : Nat → Set (Position I)) (j : Nat)
    (marks : List PhaseMark) : Prop where
  interval_eq : (r.phase r.current.other).interval = j
  invalidation_eq : (r.phase r.current.other).invalidation = plan.start (j + 1)
  collects : Collects plan.settings (offers j) (r.phase r.current.other).recorder
    (r.totals.get r.current.other)
  archive : ArchiveHolds r.archive plan offers j
  rotated : ∃ past now i, marks = past ++ [.rotated now i] ∧ PhaseMark.currentIn past = j ∧ j < i ∧
    plan.start (j + 1) ≤ now

/-- What is known of a ranking, settled or not, while interval `k` is current. -/
structure Stands (r : ChunkedRanking I) (plan : Plan) (offers : Nat → Set (Position I)) (k : Nat)
    (marks : List PhaseMark) : Prop where
  tracks : r.settle.Tracks plan offers k
  pending : (r.phase r.current.other).invalidation ≠ dormant → ∃ j < k, r.Pending plan offers j marks
  current_mark : PhaseMark.currentIn marks = k
  marked : Marked r.archive marks
  guarded : PhaseMark.Guarded plan.archiveSize marks

variable {r : ChunkedRanking I} {plan : Plan} {offers : Nat → Set (Position I)} {marks : List PhaseMark}
  {j k k' now : Nat}

theorem Stands.interval_eq (h : r.Stands plan offers k marks) : (r.phase r.current).interval = k := by
  have hk := h.tracks.interval_eq
  rwa [current_settle, phase_settle] at hk

theorem Stands.invalidation_eq (h : r.Stands plan offers k marks) :
    (r.phase r.current).invalidation = plan.start (k + 1) := by
  have hk := h.tracks.invalidation_eq
  rwa [current_settle, phase_settle] at hk

theorem Stands.invalidation_ne (h : r.Stands plan offers k marks) :
    (r.phase r.current).invalidation ≠ dormant := by
  have hk := h.tracks.invalidation_ne
  rwa [current_settle, phase_settle] at hk

/-- The current phase has expired if and only if a later interval runs. -/
theorem Stands.expired_iff (h : r.Stands plan offers k marks)
    (hnow : RunsAt plan.creation plan.interval k' now) : r.expired now ↔ k < k' := by
  have hend : now < plan.start (k + 1) ↔ k' < k + 1 := hnow.lt_startOf_iff
  rw [expired, decide_eq_true_iff, h.invalidation_eq]
  omega

omit [DecidableEq I] in
theorem isOver_other_iff : r.isOver r.current.other ↔ (r.phase r.current.other).invalidation ≠ dormant := by
  simp [isOver, (Side.other_ne r.current).symm]

theorem settle_of_dormant (h : (r.phase r.current.other).invalidation = dormant) : r.settle = r :=
  retire_of_not_isOver fun hover => isOver_other_iff.mp hover h

theorem totals_settle (r : ChunkedRanking I) :
    r.settle.totals.get r.current = r.totals.get r.current := by
  by_cases hover : r.isOver r.current.other
  · rw [settle_of_isOver hover]
    exact Twin.get_set_of_other _ _ _
  · rw [settle, retire_of_not_isOver hover]

theorem Stands.collects (h : r.Stands plan offers k marks) :
    Collects plan.settings (offers k) (r.phase r.current).recorder (r.totals.get r.current) := by
  have hcollects := h.tracks.collects
  rwa [current_settle, phase_settle, totals_settle] at hcollects

/-- The archive ends where the past does. -/
theorem Stands.archive (h : r.Stands plan offers k marks) :
    ∃ m, ArchiveHolds r.archive plan offers m ∧ ∀ i, r.Past i ↔ i < m := by
  by_cases hd : (r.phase r.current.other).invalidation = dormant
  · refine ⟨k, (settle_of_dormant hd ▸ h.tracks).archive, fun i => ⟨fun hi => ?_, fun hi side hside => ?_⟩⟩
    · exact h.interval_eq ▸ hi r.current h.invalidation_ne
    · rcases Side.eq_or_eq_other r.current side with rfl | rfl
      · exact h.interval_eq.symm ▸ hi
      · exact absurd hd hside
  · obtain ⟨j, hj, hpending⟩ := h.pending hd
    refine ⟨j, hpending.archive, fun i => ⟨fun hi => ?_, fun hi side hside => ?_⟩⟩
    · exact hpending.interval_eq ▸ hi r.current.other hd
    · rcases Side.eq_or_eq_other r.current side with rfl | rfl
      · exact h.interval_eq.symm ▸ hi.trans hj
      · exact hpending.interval_eq.symm ▸ hi

theorem Stands.represents (h : r.Stands plan offers k marks) : r.Represents plan offers k marks := by
  obtain ⟨m, harchive, hpast⟩ := h.archive
  constructor
  case interval_eq => exact h.interval_eq
  case current_mark => exact h.current_mark
  case invalidation_ne => exact h.invalidation_ne
  case invalidation_eq =>
    intro side hside
    rcases Side.eq_or_eq_other r.current side with rfl | rfl
    · rw [h.interval_eq, h.invalidation_eq]
    · obtain ⟨j, hj, hpending⟩ := h.pending hside
      rw [hpending.interval_eq, hpending.invalidation_eq]
  case collects =>
    intro side hside
    rcases Side.eq_or_eq_other r.current side with rfl | rfl
    · rw [h.interval_eq]
      exact h.collects
    · obtain ⟨j, hj, hpending⟩ := h.pending hside
      rw [hpending.interval_eq]
      exact hpending.collects
  case other =>
    by_cases hd : (r.phase r.current.other).invalidation = dormant
    · exact .inl ⟨hd, (settle_of_dormant hd ▸ h.tracks).empty.eq_blank⟩
    · obtain ⟨j, hj, hpending⟩ := h.pending hd
      exact .inr ⟨hd, hpending.interval_eq.symm ▸ hj⟩
  case size_eq => exact harchive.size_eq
  case slots =>
    intro slot a ha
    cases harchive.holds_of_getElem? ha with
    | vacant hexpiry hkeeps hnone =>
      exact .inl ⟨hexpiry, hkeeps.eq_blank, fun i hi => hnone i ((hpast i).mp hi)⟩
    | filled j hlt hslot hexpiry hkeeps hnone =>
      exact .inr ⟨j, (hpast j).mpr hlt, hslot, hexpiry, hkeeps, fun i hji hi => hnone i hji ((hpast i).mp hi)⟩
  case marked => exact h.marked
  case guarded => exact h.guarded

/-! ### Retiring -/

omit [DecidableEq I] in
theorem currentIn_archiveMarks (side : Side) :
    PhaseMark.currentIn (marks ++ r.archiveMarks side) = PhaseMark.currentIn marks := by
  unfold archiveMarks
  split_ifs
  · rw [List.append_nil]
  · exact PhaseMark.currentIn_archived _ _ _

omit [DecidableEq I] in
/-- Storing totals in a slot is marked. -/
theorem Marked.stored (h : Marked r.archive marks) (side : Side) (totals : Ranking I) :
    Marked (r.stored side totals).1 (marks ++ r.archiveMarks side) := by
  unfold ChunkedRanking.stored archiveMarks
  by_cases he : r.archive.isEmpty
  · rw [if_pos he, if_pos he, List.append_nil]
    exact h
  · rw [if_neg he, if_neg he]
    intro slot a ha
    rw [Array.size_setIfInBounds, PhaseMark.slotExpiry_archived]
    split_ifs with hslot
    · rw [hslot, Array.getElem?_setIfInBounds_self] at ha
      split_ifs at ha
      rw [← Option.some.inj ha]
    · rw [Array.getElem?_setIfInBounds_ne hslot] at ha
      exact h slot a ha

omit [DecidableEq I] in
/-- **The slot of a phase that is over has expired** by the time this phase was rotated out. -/
theorem Pending.guarded (h : r.Pending plan offers j marks) (hmarked : Marked r.archive marks)
    (hguarded : PhaseMark.Guarded plan.archiveSize marks) :
    PhaseMark.Guarded plan.archiveSize (marks ++ r.archiveMarks r.current.other) := by
  unfold archiveMarks
  split_ifs with he
  · rwa [List.append_nil]
  · have hpos : 0 < plan.archiveSize := by
      refine Nat.pos_of_ne_zero fun hzero => he ?_
      exact Array.isEmpty_iff_size_eq_zero.mpr (h.archive.size_eq.trans hzero)
    obtain ⟨a, ha, hholds⟩ := h.archive.slot_mod hpos j
    obtain ⟨past, now, i, hsplit, hcurrent, hji, hnow⟩ := h.rotated
    have hexpiry := hmarked _ a ha
    rw [h.archive.size_eq] at hexpiry
    have hexpired : a.expiry ≤ now :=
      hholds.expiry_le.trans ((plan.start_mono (Nat.le_succ j)).trans hnow)
    rw [h.interval_eq]
    exact hguarded.archived _ ⟨past, now, i, hsplit, hcurrent, hji, hexpiry ▸ hexpired⟩

theorem Stands.settled (h : r.Stands plan offers k marks) :
    r.settle.Stands plan offers k (marks ++ (r.retire r.current.other).marks) := by
  by_cases hover : r.isOver r.current.other
  · obtain ⟨j, hj, hpending⟩ := h.pending (isOver_other_iff.mp hover)
    rw [marks_retire_of_isOver hover]
    constructor
    case tracks =>
      rw [settle_settle]
      exact h.tracks
    case pending => exact fun hne => absurd h.tracks.dormant_eq hne
    case current_mark => rw [currentIn_archiveMarks, h.current_mark]
    case marked =>
      rw [settle_of_isOver hover]
      exact h.marked.stored _ _
    case guarded => exact hpending.guarded h.marked h.guarded
  · rw [settle, retire_of_not_isOver hover, marks_retire_of_not_isOver hover, List.append_nil]
    exact h

/-- **Retiring a phase**, by whomever and whichever it is. -/
theorem Stands.retire (h : r.Stands plan offers k marks) (side : Side) :
    (r.retire side).value.Stands plan offers k (marks ++ (r.retire side).marks) := by
  rcases Side.eq_or_eq_other r.current side with rfl | rfl
  · rw [retire_of_not_isOver r.isOver_current, marks_retire_of_not_isOver r.isOver_current,
      List.append_nil]
    exact h
  · exact h.settled

/-! ### Rotating -/

omit [DecidableEq I] in
theorem phase_turn_other (now : Nat) :
    (r.turn now).phase (r.turn now).current.other = r.phase r.current := by
  show (r.phases.set r.current.other _).get r.current.other.other = _
  rw [Side.other_other, Twin.get_set_of_other]
  rfl

/-- **A rotation** leaves the phase that was current with its interval, which has ended. -/
theorem Stands.turn (h : r.Stands plan offers k marks) (hsettle : r.settle = r) (hk : k < k')
    (hnow : RunsAt plan.creation plan.interval k' now)
    (hbound : plan.start (k' + max (plan.archiveSize - 1) 1) ≤ dormant - 1) :
    (r.turn now).Stands plan offers k' (marks ++ [.rotated now k']) := by
  have htracks := h.tracks
  rw [hsettle] at htracks
  constructor
  case tracks =>
    refine htracks.turn hk hnow ?_ ?_
    · exact (plan.start_mono (by omega)).trans hbound
    · exact (plan.start_mono (by omega)).trans hbound
  case pending =>
    -- the phase that was current is pending now, whatever became of the one before it
    refine fun _ => ⟨k, hk, ?_⟩
    constructor
    case interval_eq => rw [phase_turn_other, h.interval_eq]
    case invalidation_eq => rw [phase_turn_other, h.invalidation_eq]
    case collects =>
      rw [phase_turn_other]
      show Collects _ _ _ (r.totals.get r.current.other.other)
      rw [Side.other_other]
      exact h.collects
    case archive => exact htracks.archive
    case rotated =>
      exact ⟨marks, now, k', rfl, h.current_mark, hk, (plan.start_mono hk).trans hnow.start_le⟩
  case current_mark => exact PhaseMark.currentIn_rotated _ _ _
  case marked =>
    intro slot a ha
    rw [PhaseMark.slotExpiry_rotated]
    exact h.marked slot a ha
  case guarded => exact h.guarded.rotated now k'

/-- A rotation settles the ranking first. -/
theorem Stands.rotate (h : r.Stands plan offers k marks) (hk : k < k')
    (hnow : RunsAt plan.creation plan.interval k' now)
    (hbound : plan.start (k' + max (plan.archiveSize - 1) 1) ≤ dormant - 1) :
    (r.settle.turn now).Stands plan offers k'
      (marks ++ ((r.retire r.current.other).marks ++ [.rotated now (r.intervalOf now)])) := by
  have hindex : r.intervalOf now = k' := by
    rw [← r.intervalOf_retire r.current.other]
    show intervalIndex r.settle.creation r.settle.interval now = k'
    rw [h.tracks.creation_eq, h.tracks.length_eq, hnow.index_eq]
  rw [hindex, ← List.append_assoc]
  exact h.settled.turn r.settle_settle hk hnow hbound

/-! ### Offers -/

theorem Stands.record (h : r.Stands plan offers k marks) (w : Int64) (identity : I)
    {offers' : Nat → Set (Position I)} (hk : offers' k = insert ⟨w, identity⟩ (offers k))
    (hne : ∀ i, i ≠ k → offers' i = offers i) : (r.record w identity).Stands plan offers' k marks := by
  have hother : (r.record w identity).phase (r.record w identity).current.other =
      r.phase r.current.other := Twin.get_set_other _ _ _
  constructor
  case tracks =>
    rw [settle_record]
    exact h.tracks.record w identity hk hne
  case pending =>
    rw [hother]
    intro hd
    obtain ⟨j, hj, hpending⟩ := h.pending hd
    refine ⟨j, hj, ?_⟩
    constructor
    case interval_eq => rw [hother, hpending.interval_eq]
    case invalidation_eq => rw [hother, hpending.invalidation_eq]
    case collects =>
      rw [hother, hne j (Nat.ne_of_lt hj)]
      exact hpending.collects
    case archive => exact hpending.archive.congr fun i hi => hne i (by omega)
    case rotated => exact hpending.rotated
  case current_mark => exact h.current_mark
  case marked => exact h.marked
  case guarded => exact h.guarded

/-- **An offer** at an instant of the current interval or of a later one. -/
theorem Stands.update (h : r.Stands plan offers k marks) (hk : k ≤ k')
    (hnow : RunsAt plan.creation plan.interval k' now)
    (hbound : plan.start (k' + max (plan.archiveSize - 1) 1) ≤ dormant - 1) (w : Int64) (identity : I)
    {offers' : Nat → Set (Position I)} (hk' : offers' k' = insert ⟨w, identity⟩ (offers k'))
    (hne : ∀ i, i ≠ k' → offers' i = offers i) :
    (r.update now w identity).value.2.Stands plan offers' k'
      (marks ++ (r.update now w identity).marks) := by
  by_cases he : r.expired now
  · rw [update_of_le he, marks_update_of_le he]
    exact (h.rotate ((h.expired_iff hnow).mp he) hnow hbound).record w identity hk' hne
  · obtain rfl : k = k' := hk.antisymm (Nat.not_lt.mp fun hlt => he ((h.expired_iff hnow).mpr hlt))
    rw [update_of_lt he, marks_update_of_lt he, List.append_nil]
    exact h.record w identity hk' hne

/-! ### Reads -/

theorem Stands.rotated (h : r.Stands plan offers k marks) (hk : k ≤ k')
    (hnow : RunsAt plan.creation plan.interval k' now)
    (hbound : plan.start (k' + max (plan.archiveSize - 1) 1) ≤ dormant - 1) :
    (r.rotated now).Stands plan offers k' (marks ++ (r.rotateExpired now).marks) := by
  have hexpired : (r.phase r.current).invalidation ≠ dormant ∧ (r.phase r.current).invalidation ≤ now ↔
      k < k' := by
    rw [← h.expired_iff hnow, expired, decide_eq_true_iff]
    exact and_iff_right h.invalidation_ne
  rw [marks_rotateExpired]
  unfold ChunkedRanking.rotated
  by_cases hlt : k < k'
  · rw [if_pos (hexpired.mpr hlt), if_pos (hexpired.mpr hlt)]
    exact h.rotate hlt hnow hbound
  · obtain rfl : k = k' := hk.antisymm (Nat.not_lt.mp hlt)
    rw [if_neg fun he => hlt (hexpired.mp he), if_neg fun he => hlt (hexpired.mp he), List.append_nil]
    exact h

theorem Stands.readOut (h : r.Stands plan offers k marks) (hsettle : r.settle = r)
    (hnow : RunsAt plan.creation plan.interval k now) :
    (r.readOut now).2.Stands plan offers k marks := by
  have htracks := h.tracks
  rw [hsettle] at htracks
  have hread := (htracks.readOut hnow).2
  have harchive : (r.readOut now).2.archive = r.archive := by
    unfold ChunkedRanking.readOut
    split_ifs <;> rfl
  constructor
  case tracks =>
    rw [hread.settle_eq]
    exact hread
  case pending => exact fun hne => absurd hread.dormant_eq hne
  case current_mark => exact h.current_mark
  case marked =>
    rw [harchive]
    exact h.marked
  case guarded => exact h.guarded

/-- **A read** at an instant of the current interval or of a later one. -/
theorem Stands.read (h : r.Stands plan offers k marks) (hk : k ≤ k')
    (hnow : RunsAt plan.creation plan.interval k' now)
    (hbound : plan.start (k' + max (plan.archiveSize - 1) 1) ≤ dormant - 1) :
    (r.descending now).value.2.Stands plan offers k' (marks ++ (r.descending now).marks) := by
  rw [descending_value, marks_descending, ← List.append_assoc]
  exact (h.rotated hk hnow hbound).settled.readOut (settle_settle _) hnow

end ChunkedRanking

/-! ### Runs -/

omit [DecidableEq I] in
/-- The instant of the latest access of a run, or that of creation. -/
def latestInstant (creation : Nat) (ops : List (Operation I)) : Nat := (instants ops).getLast?.getD creation

omit [DecidableEq I] in
theorem latestInstant_concat (creation : Nat) (ops : List (Operation I)) (op : Operation I) :
    latestInstant creation (ops ++ [op]) = op.instant?.getD (latestInstant creation ops) := by
  unfold latestInstant
  rw [instants_concat]
  cases op.instant? <;> simp

omit [DecidableEq I] in
theorem latestInstant_mem (creation : Nat) (ops : List (Operation I)) :
    latestInstant creation ops ∈ creation :: instants ops := by
  unfold latestInstant
  cases h : (instants ops).getLast? with
  | none => exact List.mem_cons_self
  | some t => exact List.mem_cons_of_mem _ (List.mem_of_getLast? h)

namespace RollingRanking

variable {plan : Plan} {offers : Nat → Set (Position I)} {marks : List PhaseMark} {k k' now : Nat}
  {ops : List (Operation I)} {op : Operation I}

/-- A task changes nothing that is known of a ranking, whether it is run at once or kept. -/
theorem stands_handOver {r : RollingRanking I} (h : r.ranking.Stands plan offers k marks)
    (task : Option Side) :
    (r.handOver task).value.ranking.Stands plan offers k (marks ++ (r.handOver task).marks) := by
  cases task with
  | none =>
    rw [handOver, Logged.marks_pure, List.append_nil]
    exact h
  | some side =>
    unfold handOver
    cases r.background with
    | executed =>
      dsimp only
      rw [Logged.marks_bind, Logged.marks_pure, List.append_nil]
      exact h.retire side
    | deferred =>
      dsimp only
      rw [Logged.marks_pure, List.append_nil]
      exact h

/-- **An access** brings a ranking to its instant. -/
theorem stands_access {r : RollingRanking I}
    (h : r.ranking.Stands plan (offersOf plan.creation plan.interval ops) k marks)
    (hop : op.instant? = some now) (hk : k ≤ k') (hnow : RunsAt plan.creation plan.interval k' now)
    (hbound : plan.start (k' + max (plan.archiveSize - 1) 1) ≤ dormant - 1) :
    (r.step op).ranking.Stands plan (offersOf plan.creation plan.interval (ops ++ [op])) k'
      (marks ++ (r.report op).filterMap Event.mark?) := by
  cases op with
  | update t w identity =>
    obtain rfl : t = now := Option.some.inj hop
    have hupdate := h.update hk hnow hbound w identity
      (offersOf_update k' |>.trans (if_pos hnow.index_eq.symm))
      fun i hi => (offersOf_update i).trans (if_neg (hnow.index_eq.symm ▸ hi))
    have hmarks : (r.report (.update t w identity)).filterMap Event.mark? =
        (r.ranking.update t w identity).marks ++
          ({ r with ranking := (r.ranking.update t w identity).value.2 }.handOver
            (r.ranking.update t w identity).value.1).marks := Logged.marks_bind _ _
    rw [hmarks, ← List.append_assoc]
    exact stands_handOver (r := { r with ranking := (r.ranking.update t w identity).value.2 }) hupdate _
  | read t =>
    obtain rfl : t = now := Option.some.inj hop
    have hmarks : (r.report (.read t)).filterMap Event.mark? = (r.ranking.descending t).marks := by
      show (r.descending t).marks = _
      rw [descending, Logged.marks_bind, Logged.marks_pure, List.append_nil]
    rw [offersOf_of_offerless fun _ => rfl, hmarks]
    exact h.read hk hnow hbound
  | runTask | dropTask => exact absurd hop (by simp [Operation.instant?])

/-- **A task** that is run or dropped. -/
theorem stands_task {r : RollingRanking I}
    (h : r.ranking.Stands plan (offersOf plan.creation plan.interval ops) k marks)
    (hop : op.instant? = none) :
    (r.step op).ranking.Stands plan (offersOf plan.creation plan.interval (ops ++ [op])) k
      (marks ++ (r.report op).filterMap Event.mark?) := by
  cases op with
  | update | read => exact absurd hop (by simp [Operation.instant?])
  | runTask number =>
    rw [offersOf_of_offerless fun _ => rfl]
    show (r.runTask number).value.2.ranking.Stands _ _ _ (marks ++ (r.runTask number).marks)
    unfold runTask
    cases r.tasks[number]? with
    | none =>
      dsimp only
      rw [Logged.marks_pure, List.append_nil]
      exact h
    | some side =>
      dsimp only
      rw [Logged.marks_bind, Logged.marks_pure, List.append_nil]
      exact h.retire side
  | dropTask number =>
    rw [offersOf_of_offerless fun _ => rfl]
    show r.ranking.Stands _ _ _ (marks ++ [])
    rwa [List.append_nil]

/-- A new ranking is settled, and its slots are vacant. -/
theorem stands_create {settings : RankingSettings} {creation interval archiveSize : Nat}
    {ranking : ChunkedRanking I}
    (hcreate : ChunkedRanking.create settings interval archiveSize creation = .ok ranking)
    (hbound : startOf creation interval 1 ≤ dormant - 1) :
    0 < interval ∧ ranking.Stands ⟨settings, creation, interval, archiveSize⟩
      (offersOf creation interval []) 0 [] := by
  obtain ⟨hi, htracks⟩ := ChunkedRanking.tracks_create hcreate hbound
  refine ⟨hi, ?_⟩
  rw [offersOf_nil]
  constructor
  case tracks =>
    rw [htracks.settle_eq]
    exact htracks
  case pending => exact fun hne => absurd htracks.dormant_eq hne
  case current_mark => rfl
  case marked =>
    intro slot a ha
    cases htracks.archive.holds_of_getElem? ha with
    | vacant hexpiry => exact hexpiry.symm
    | filled j hlt => exact absurd hlt (Nat.not_lt_zero j)
  case guarded => exact PhaseMark.guarded_nil archiveSize

/-- **What is known of a ranking after every run.** -/
theorem stands_run {settings : RankingSettings} {creation interval archiveSize : Nat}
    {ranking : ChunkedRanking I}
    (hcreate : ChunkedRanking.create settings interval archiveSize creation = .ok ranking)
    (background : Background) (ops : List (Operation I))
    (hclock : (creation :: instants ops).Pairwise (· ≤ ·))
    (hbound : ∀ t ∈ creation :: instants ops,
      creation + (intervalIndex creation interval t + max (archiveSize - 1) 1) * interval ≤ dormant - 1) :
    (({ ranking, background } : RollingRanking I).run ops).ranking.Stands
      ⟨settings, creation, interval, archiveSize⟩ (offersOf creation interval ops)
      (intervalIndex creation interval (latestInstant creation ops))
      (({ ranking, background } : RollingRanking I).marks ops) := by
  have hstart : startOf creation interval 1 ≤ dormant - 1 :=
    (startOf_mono (by omega)).trans (hbound creation List.mem_cons_self)
  obtain ⟨hi, hnew⟩ := stands_create hcreate hstart
  induction ops using List.reverseRecOn with
  | nil =>
    have hzero : intervalIndex creation interval (latestInstant creation ([] : List (Operation I))) = 0 := by
      simp [latestInstant, instants, intervalIndex]
    exact hzero.symm ▸ hnew
  | append_singleton ops op ih =>
    rw [instants_concat, ← List.cons_append] at hclock hbound
    obtain ⟨hbefore, -, hafter⟩ := List.pairwise_append.mp hclock
    have hstands := ih hbefore fun t ht => hbound t (List.mem_append_left _ ht)
    rw [run_concat, marks_concat, latestInstant_concat]
    cases hop : op.instant? with
    | none => exact stands_task hstands hop
    | some now =>
      have hmem : now ∈ op.instant?.toList := by simp [hop]
      exact stands_access hstands hop
        (intervalIndex_mono (hafter _ (latestInstant_mem creation ops) now hmem))
        (runsAt_intervalIndex hi (hafter creation List.mem_cons_self now hmem))
        (hbound now (List.mem_append_right _ hmem))

/-- **The representation invariant holds after every run**, and the interval of the latest access is current:
with offers, reads, and tasks run at once, late or not at all, with gaps of any length, as long as clocks do not
go back and no boundary saturates.  The boundaries are the end of the current interval and the expiries of the
intervals before it. -/
theorem represents_run {settings : RankingSettings} {creation interval archiveSize : Nat}
    {ranking : ChunkedRanking I}
    (hcreate : ChunkedRanking.create settings interval archiveSize creation = .ok ranking)
    (background : Background) (ops : List (Operation I))
    (hclock : (creation :: instants ops).Pairwise (· ≤ ·))
    (hbound : ∀ t ∈ creation :: instants ops,
      creation + (intervalIndex creation interval t + max (archiveSize - 1) 1) * interval ≤ dormant - 1) :
    (({ ranking, background } : RollingRanking I).run ops).ranking.Represents
      ⟨settings, creation, interval, archiveSize⟩ (offersOf creation interval ops)
      (intervalIndex creation interval (latestInstant creation ops))
      (({ ranking, background } : RollingRanking I).marks ops) :=
  (stands_run hcreate background ops hclock hbound).represents

/-- The first task finds its phase current again, the second one is dropped after a reader has retired its phase,
and the last offer overwrites the slot of interval 1, which had expired when interval 3 was rotated out. -/
theorem represents_run_late :
    let settings : RankingSettings := { capacity := 2, poolSize := 1, batchSize := 1 }
    let ops : List (Operation Nat) := [.update 3 9 1, .update 12 7 2, .update 35 5 3, .runTask 0,
      .read 36, .update 41 6 3, .dropTask 0, .update 52 8 1]
    ∃ ranking : ChunkedRanking Nat, ChunkedRanking.create settings 10 2 0 = .ok ranking ∧
      (0 :: instants ops).Pairwise (· ≤ ·) ∧
      (∀ t ∈ 0 :: instants ops, 0 + (intervalIndex 0 10 t + max (2 - 1) 1) * 10 ≤ dormant - 1) ∧
      (({ ranking, background := .deferred } : RollingRanking Nat).run ops).ranking.Represents
        ⟨settings, 0, 10, 2⟩ (offersOf 0 10 ops) 5
        (({ ranking, background := .deferred } : RollingRanking Nat).marks ops) := by
  intro settings ops
  have hclock : (0 :: instants ops).Pairwise (· ≤ ·) := by decide
  have hbound : ∀ t ∈ 0 :: instants ops,
      0 + (intervalIndex 0 10 t + max (2 - 1) 1) * 10 ≤ dormant - 1 := by decide
  obtain ⟨ranking, hcreate⟩ : ∃ ranking : ChunkedRanking Nat,
      ChunkedRanking.create settings 10 2 0 = .ok ranking :=
    ChunkedRanking.exists_create (by decide) (by decide) (by decide) 2 0
  have hindex : intervalIndex 0 10 (latestInstant 0 ops) = 5 := by decide
  have hrun := represents_run hcreate .deferred ops hclock hbound
  rw [hindex] at hrun
  exact ⟨ranking, hcreate, hclock, hbound, hrun⟩

end RollingRanking

end WindowedMetrics
