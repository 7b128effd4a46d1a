import Mathlib.Tactic.SplitIfs
import WindowedMetrics.Ranking.Rolling

/-!
# Settled rolling rankings

A rotation leaves a phase to be retired, and somebody retires it later: its task, a reader, or a writer
that needs the phase.  `settle` retires it at once.  Nothing that happens between a rotation and the
retirement can tell whether the phase has been retired already:

* an offer within an interval goes to the other phase (`settle_record`),
* a rotation, and a read, retire the phase first (`update_of_le`, `descending_settle`),
* retiring a second time, or a phase that is not over, does nothing (`settle_retire`).

So a ranking can be followed through its settled states alone.
-/

namespace WindowedMetrics.ChunkedRanking

variable {I : Type} [DecidableEq I]

/-- With the phase retired that is not current, if it is over. -/
def settle (r : ChunkedRanking I) : ChunkedRanking I := (r.retire r.current.other).value

/-- An offer to the current phase. -/
def record (r : ChunkedRanking I) (weight : Int64) (identity : I) : ChunkedRanking I :=
  r.setRecorder r.current ((r.phase r.current).recorder.update weight identity).value

omit [DecidableEq I] in
/-- The other phase made current for the interval of `now`. -/
def turn (r : ChunkedRanking I) (now : Nat) : ChunkedRanking I :=
  (r.activate r.current.other now).value

omit [DecidableEq I] in
/-- Whether the current phase has expired at `now`. -/
def expired (r : ChunkedRanking I) (now : Nat) : Bool := (r.phase r.current).invalidation ≤ now

/-- A settled ranking at an instant: turned and settled again, if the current phase has expired. -/
def advanced (r : ChunkedRanking I) (now : Nat) : ChunkedRanking I :=
  if r.expired now then (r.turn now).settle else r

/-- Rotated as a reader does. -/
def rotated (r : ChunkedRanking I) (now : Nat) : ChunkedRanking I :=
  if (r.phase r.current).invalidation ≠ dormant ∧ (r.phase r.current).invalidation ≤ now then
    r.settle.turn now
  else r

omit [DecidableEq I] in
/-- The archive after the totals of a phase are put into it, and what they leave behind. -/
def stored (r : ChunkedRanking I) (side : Side) (totals : Ranking I) : Array (Archived I) × Ranking I :=
  if r.archive.isEmpty then (r.archive, totals.reset)
  else
    (r.archive.setIfInBounds ((r.phase side).interval % r.archive.size)
      { ranking := totals
        expiry := boundary (r.phase side).invalidation (r.archive.size - 1) r.interval },
      ((r.archive[(r.phase side).interval % r.archive.size]?).elim totals (·.ranking)).reset)

/-- What a read does with a ranking that is rotated and settled. -/
def readOut (r : ChunkedRanking I) (now : Nat) : List (Position I) × ChunkedRanking I :=
  if now < (r.phase r.current).invalidation then
    let r' := (r.collect r.current).value
    let merged := (r'.totals.get r.current).mergeInto (r.mergeArchive now)
    (merged.descending, { r' with collector := merged })
  else ((r.mergeArchive now).descending, { r with collector := r.mergeArchive now })

/-! ### Retiring a phase -/

omit [DecidableEq I] in
theorem isOver_current (r : ChunkedRanking I) : ¬ r.isOver r.current := by simp [isOver]

theorem retire_of_isOver {r : ChunkedRanking I} {side : Side} (h : r.isOver side) :
    (r.retire side).value =
      ((r.take side).value.2.retireTaken side (r.take side).value.1).value := by
  unfold retire
  rw [if_pos h]
  rfl

theorem retire_of_not_isOver {r : ChunkedRanking I} {side : Side} (h : ¬ r.isOver side) :
    (r.retire side).value = r := by
  unfold retire
  rw [if_neg h]
  rfl

/-- Retiring either phase settles a ranking or leaves it as it is. -/
theorem retire_eq (r : ChunkedRanking I) (side : Side) :
    (r.retire side).value = if side = r.current then r else r.settle := by
  split_ifs with h
  · exact h ▸ retire_of_not_isOver r.isOver_current
  · rw [(Side.eq_or_eq_other r.current side).resolve_left h]
    rfl

omit [DecidableEq I] in
theorem store_value (r : ChunkedRanking I) (side : Side) :
    (r.store side).value =
      let stored := r.stored side (r.totals.get side)
      { r with archive := stored.1, totals := r.totals.set side stored.2 } := by
  unfold store stored
  by_cases h : r.archive.isEmpty
  · rw [if_pos h]
    simp only [h, if_true]
    rfl
  · rw [if_neg h]
    simp only [h]
    rfl

@[simp] theorem current_retireTaken (r : ChunkedRanking I) (side : Side) (taken : Interval I) :
    (r.retireTaken side taken).value.current = r.current := by
  simp only [retireTaken, Logged.value_bind, Logged.value_pure, store_value]
  rfl

@[simp] theorem current_settle (r : ChunkedRanking I) : r.settle.current = r.current := by
  unfold settle
  by_cases h : r.isOver r.current.other
  · rw [retire_of_isOver h, current_retireTaken]
    rfl
  · rw [retire_of_not_isOver h]

theorem phase_retireTaken_self (r : ChunkedRanking I) (side : Side) (taken : Interval I) :
    ((r.retireTaken side taken).value.phase side).invalidation = dormant := by
  simp [retireTaken, phase, setPhase]

/-- A settled ranking has no phase to retire. -/
theorem not_isOver_settle (r : ChunkedRanking I) : ¬ r.settle.isOver r.current.other := by
  unfold settle
  by_cases h : r.isOver r.current.other
  · rw [retire_of_isOver h]
    simp [isOver, phase_retireTaken_self]
  · rwa [retire_of_not_isOver h]

@[simp] theorem settle_settle (r : ChunkedRanking I) : r.settle.settle = r.settle := by
  rw [settle, current_settle]
  exact retire_of_not_isOver r.not_isOver_settle

/-- A task that retires a phase leads to the same settled state, whenever it runs. -/
@[simp] theorem settle_retire (r : ChunkedRanking I) (side : Side) :
    (r.retire side).value.settle = r.settle := by
  rw [retire_eq]
  split_ifs
  · rfl
  · exact settle_settle r

/-! ### Retiring one phase and the recorder of the other -/

omit [DecidableEq I] in
theorem isOver_setRecorder (r : ChunkedRanking I) (side other : Side) (recorder : Recorder I) :
    (r.setRecorder other recorder).isOver side = r.isOver side := by
  cases side <;> cases other <;> rfl

theorem take_setRecorder_other (r : ChunkedRanking I) (side : Side) (recorder : Recorder I) :
    ((r.setRecorder side.other recorder).take side).value =
      ((r.take side).value.1, (r.take side).value.2.setRecorder side.other recorder) := by
  cases side <;> rfl

omit [DecidableEq I] in
theorem store_setRecorder (r : ChunkedRanking I) (side other : Side) (recorder : Recorder I) :
    ((r.setRecorder other recorder).store side).value =
      (r.store side).value.setRecorder other recorder := by
  have hp : ((r.setRecorder other recorder).phase side).invalidation = (r.phase side).invalidation ∧
      ((r.setRecorder other recorder).phase side).interval = (r.phase side).interval := by
    cases side <;> cases other <;> exact ⟨rfl, rfl⟩
  unfold store
  dsimp only
  rw [hp.1, hp.2]
  by_cases h : r.archive.isEmpty
  · rw [if_pos h, if_pos (by exact h)]
    rfl
  · rw [if_neg h, if_neg (by exact h)]
    rfl

theorem retireTaken_setRecorder_other (r : ChunkedRanking I) (side : Side) (taken : Interval I)
    (recorder : Recorder I) :
    ((r.setRecorder side.other recorder).retireTaken side taken).value =
      (r.retireTaken side taken).value.setRecorder side.other recorder := by
  have hs := store_setRecorder (r.credit side taken) side side.other recorder
  have hc : (r.setRecorder side.other recorder).credit side taken =
      (r.credit side taken).setRecorder side.other recorder := rfl
  simp only [retireTaken, Logged.value_bind, Logged.value_pure, hc, hs]
  cases side <;> rfl

theorem retire_setRecorder_other (r : ChunkedRanking I) (side : Side) (recorder : Recorder I) :
    ((r.setRecorder side.other recorder).retire side).value =
      (r.retire side).value.setRecorder side.other recorder := by
  by_cases h : r.isOver side
  · rw [retire_of_isOver h, retire_of_isOver (by rwa [isOver_setRecorder]),
      take_setRecorder_other, retireTaken_setRecorder_other]
  · rw [retire_of_not_isOver h, retire_of_not_isOver (by rwa [isOver_setRecorder])]

theorem phase_retire_other (r : ChunkedRanking I) (side : Side) :
    (r.retire side).value.phase side.other = r.phase side.other := by
  by_cases h : r.isOver side
  · rw [retire_of_isOver h]
    simp only [retireTaken, Logged.value_bind, Logged.value_pure, store_value]
    cases side <;> rfl
  · rw [retire_of_not_isOver h]

/-- Settling leaves the current phase alone. -/
@[simp] theorem phase_settle (r : ChunkedRanking I) : r.settle.phase r.current = r.phase r.current := by
  have h := r.phase_retire_other r.current.other
  rwa [Side.other_other] at h

@[simp] theorem expired_settle (r : ChunkedRanking I) (now : Nat) :
    r.settle.expired now = r.expired now := by
  unfold expired
  rw [current_settle, phase_settle]

/-- Settling in one piece: the phase that is over is emptied into its totals, and these into the
archive. -/
theorem settle_of_isOver {r : ChunkedRanking I} (h : r.isOver r.current.other) :
    r.settle =
      let side := r.current.other
      let taken := ((r.phase side).recorder.takeInterval r.spare).value
      let stored := r.stored side (taken.1.ranking.mergeInto (r.totals.get side))
      { r with
        phases := r.phases.set side { r.phase side with recorder := taken.2, invalidation := dormant }
        archive := stored.1
        totals := r.totals.set side stored.2
        spare := some taken.1 } := by
  unfold settle
  rw [retire_of_isOver h]
  simp only [retireTaken, Logged.value_bind, Logged.value_pure, store_value]
  obtain ⟨settings, creation, interval, phases, current, totals, archive, collector, spare⟩ := r
  cases current with
  | first => rfl
  | second => rfl

omit [DecidableEq I] in
@[simp] theorem current_setRecorder (r : ChunkedRanking I) (side : Side) (recorder : Recorder I) :
    (r.setRecorder side recorder).current = r.current := rfl

/-- **Recording does not notice** whether the other phase has been retired. -/
theorem settle_record (r : ChunkedRanking I) (weight : Int64) (identity : I) :
    (r.record weight identity).settle = r.settle.record weight identity := by
  have h := r.retire_setRecorder_other r.current.other
    ((r.phase r.current).recorder.update weight identity).value
  rw [Side.other_other] at h
  rw [record, settle, current_setRecorder, h]
  unfold record
  rw [current_settle, phase_settle]
  rfl

/-! ### Offers and reads -/

theorem update_of_lt {r : ChunkedRanking I} {now : Nat} (h : ¬ r.expired now) (weight : Int64)
    (identity : I) : (r.update now weight identity).value = (none, r.record weight identity) := by
  have hlt : now < (r.phase r.current).invalidation := by simpa [expired] using h
  unfold update
  simp only [if_pos hlt]
  rfl

/-- A rotation settles the ranking, turns it, and offers to the phase that is current now. -/
theorem update_of_le {r : ChunkedRanking I} {now : Nat} (h : r.expired now) (weight : Int64)
    (identity : I) :
    (r.update now weight identity).value =
      (some r.current, (r.settle.turn now).record weight identity) := by
  have hle : ¬ now < (r.phase r.current).invalidation := by simpa [expired] using h
  have hs : (r.retire r.current.other).value = r.settle := rfl
  unfold update
  simp only [if_neg hle, Logged.value_bind, Logged.value_pure, hs, Prod.mk.injEq, true_and]
  unfold turn
  rw [current_settle]
  generalize r.settle = s
  cases r.current <;> rfl

theorem rotateExpired_value (r : ChunkedRanking I) (now : Nat) :
    (r.rotateExpired now).value = r.rotated now := by
  unfold rotateExpired rotated
  dsimp only
  split_ifs
  · rw [turn, current_settle]
    rfl
  · rfl

/-- Two phases to retire, of which one is current. -/
theorem retire_both (r : ChunkedRanking I) :
    (((r.retire .first).value).retire .second).value = r.settle := by
  rw [retire_eq r .first]
  split_ifs with h
  · rw [retire_eq, if_neg (by rw [← h]; decide)]
  · rw [retire_eq, current_settle]
    split_ifs
    · rfl
    · exact settle_settle r

theorem descending_value (r : ChunkedRanking I) (now : Nat) :
    (r.descending now).value = (r.rotated now).settle.readOut now := by
  unfold descending readOut
  simp only [Logged.value_bind, rotateExpired_value, retire_both]
  split_ifs
  · rfl
  · rfl

/-- **Reading does not notice** whether a phase has been retired. -/
theorem descending_settle (r : ChunkedRanking I) (now : Nat) :
    (r.settle.descending now).value = (r.descending now).value := by
  have hr : (r.settle.rotated now).settle = (r.rotated now).settle := by
    unfold rotated
    rw [current_settle, phase_settle, settle_settle]
    split_ifs
    · rfl
    · exact settle_settle r
  rw [descending_value, descending_value, hr]

end WindowedMetrics.ChunkedRanking
