import WindowedMetrics.Proofs.Checked.Policies

/-!
# Settings that can be constructed

Settings are checked in two places: all of them by `RankingSettings.validate`, and the sizes of an actor
once more where the actor is made.  The two differ in one point: slots are numbered by 32-bit words, so a
pool can be too large for an actor, and `validate` does not say so.

`RankingSettings.admission` asks both.  It is what every ranking that is made from settings goes by, with the
fault it reports (`settings_admitted`), and it is `validate` for all settings whose pool can be numbered.
-/

namespace WindowedMetrics

/-- Whether something can be made, and if not, the fault. -/
def outcome {ε α : Type} (x : Except ε α) : Except ε Unit := x.map fun _ => ()

/-- Whether settings can be used: they are valid, and the slots of the pool can be numbered. -/
def RankingSettings.admission (s : RankingSettings) : Except ConfigFault Unit := do
  s.validate
  if Limits.poolSizeBound ≤ s.poolSize then .error (.invalidSizing .poolSize) else .ok ()

section Outcome

variable {ε α β : Type}

theorem outcome_eq_ok_iff {x : Except ε α} : outcome x = .ok () ↔ ∃ a, x = .ok a := by
  cases x with
  | error e => exact ⟨by rintro ⟨⟩, by rintro ⟨a, ⟨⟩⟩⟩
  | ok a => exact ⟨fun _ => ⟨a, rfl⟩, fun _ => rfl⟩

theorem outcome_map (f : α → β) (x : Except ε α) : outcome (f <$> x) = outcome x := by
  cases x <;> rfl

/-- The last step of a construction cannot fail. -/
theorem outcome_bind_ok (x : Except ε α) (f : α → β) : outcome (x >>= fun a => .ok (f a)) = outcome x := by
  cases x <;> rfl

/-- A construction that is repeated has the same outcome. -/
theorem outcome_twice (x : Except ε α) (f : α → α → β) :
    outcome (x >>= fun a => x >>= fun b => .ok (f a b)) = outcome x := by
  cases x <;> rfl

/-- A construction after a check. -/
theorem outcome_check (check : Except ε Unit) (f : Unit → Except ε α) :
    outcome (check >>= f) = check >>= fun _ => outcome (f ()) := by
  cases check <;> rfl

end Outcome

variable {I : Type} [DecidableEq I] (s : RankingSettings)

theorem RankingSettings.admission_eq_ok_iff :
    s.admission = .ok () ↔ s.validate = .ok () ∧ s.poolSize < Limits.poolSizeBound := by
  unfold admission
  cases h : s.validate with
  | error fault => exact ⟨by rintro ⟨⟩, by rintro ⟨⟨⟩, -⟩⟩
  | ok =>
    show (if Limits.poolSizeBound ≤ s.poolSize then _ else _) = _ ↔ _
    split_ifs with hp
    · exact ⟨by rintro ⟨⟩, fun hs => absurd hp (Nat.not_le.mpr hs.2)⟩
    · exact ⟨fun _ => ⟨rfl, Nat.not_le.mp hp⟩, fun _ => rfl⟩

/-- **The two checks agree** except on valid settings with a pool that cannot be numbered. -/
theorem RankingSettings.admission_eq_validate_iff :
    s.admission = s.validate ↔ (s.validate = .ok () → s.poolSize < Limits.poolSizeBound) := by
  cases h : s.validate with
  | error fault =>
    have hfault : s.admission = .error fault := by
      unfold admission
      rw [h]
      rfl
    exact ⟨fun _ => by rintro ⟨⟩, fun _ => hfault⟩
  | ok =>
    rw [s.admission_eq_ok_iff, h]
    exact ⟨fun hs _ => hs.2, fun hs => ⟨rfl, hs rfl⟩⟩

/-! ### Outcomes of the constructions -/

/-- The actor of valid settings. -/
theorem Actor.outcome_create {S A : Type} [Action S A] (state : S) (h : s.validate = .ok ()) :
    outcome (Actor.create state s.poolSize s.batchSize : Except ConfigFault (Actor S A)) = s.admission := by
  obtain ⟨hpool, hbatch⟩ := RankingSettings.sizes_pos h
  unfold Actor.create RankingSettings.admission
  rw [h]
  by_cases hp : Limits.poolSizeBound ≤ s.poolSize
  · rw [if_pos (Or.inr hp)]
    show _ = if Limits.poolSizeBound ≤ s.poolSize then _ else _
    rw [if_pos hp]
    rfl
  · rw [if_neg (not_or.mpr ⟨hpool, hp⟩), if_neg hbatch]
    show _ = if Limits.poolSizeBound ≤ s.poolSize then _ else _
    rw [if_neg hp]
    rfl

theorem RankingSettings.validate_bind_admission : (s.validate >>= fun _ => s.admission) = s.admission := by
  unfold admission
  cases s.validate <;> rfl

theorem SharedRanking.outcome_create :
    outcome (SharedRanking.create s : Except ConfigFault (SharedRanking I)) = s.admission := by
  unfold SharedRanking.create
  rw [outcome_check]
  cases h : s.validate with
  | error fault =>
    unfold RankingSettings.admission
    rw [h]
    rfl
  | ok => exact (outcome_bind_ok _ _).trans (Actor.outcome_create s _ h)

theorem Recorder.outcome_create :
    outcome (Recorder.create s : Except ConfigFault (Recorder I)) = s.admission :=
  (outcome_twice _ _).trans (SharedRanking.outcome_create s)

theorem SnapshotRanking.outcome_create :
    outcome (SnapshotRanking.create s : Except ConfigFault (SnapshotRanking I)) = s.admission :=
  (outcome_bind_ok _ _).trans (Recorder.outcome_create s)

theorem ChunkedRanking.outcome_create {interval : Nat} (h : 0 < interval) (archiveSize now : Nat) :
    outcome (ChunkedRanking.create s interval archiveSize now : Except ConfigFault (ChunkedRanking I)) =
      s.admission := by
  unfold ChunkedRanking.create
  rw [outcome_check, if_neg (Nat.ne_of_gt h)]
  -- the phases have a recorder each
  calc
    _ = s.validate >>= fun _ => outcome (Recorder.create s : Except ConfigFault (Recorder I)) :=
      congrArg (s.validate >>= ·) (funext fun _ => outcome_twice _ _)
    _ = s.validate >>= fun _ => s.admission := by rw [Recorder.outcome_create]
    _ = s.admission := s.validate_bind_admission

/-! ### Policies -/

/-- Rankings are not built with rotations that are too close to each other. -/
theorem Policy.minChunkInterval_le {p : Policy} (h : p.validateForRanking = .ok ()) :
    ∀ interval ∈ p.rotationInterval?, Limits.minChunkInterval ≤ interval := by
  obtain ⟨⟨⟩, hvalidate, hinterval⟩ := exists_ok_of_bind h
  unfold rotationInterval?
  cases hretention : p.retention with
  | uniform | resetOnSnapshot => rintro _ ⟨⟩
  | resetPeriodically interval =>
    rintro _ ⟨⟩
    rw [hretention] at hinterval
    exact checkInterval_eq_ok hinterval
  | byChunks window chunks =>
    rintro _ ⟨⟩
    exact ((valid_of_validate hvalidate).byChunks window chunks hretention).2.2

namespace RetainedRanking

theorem outcome_createRolling {interval : Nat} (h : Limits.minChunkInterval ≤ interval)
    (archiveSize now : Nat) (background : Background) :
    outcome (createRolling s interval archiveSize now background : Except ConfigFault (RetainedRanking I)) =
      s.admission :=
  (outcome_bind_ok _ _).trans
    (ChunkedRanking.outcome_create s (Nat.lt_of_lt_of_le (by decide) h) archiveSize now)

theorem outcome_ofPolicy {p : Policy} (h : p.validateForRanking = .ok ()) (now : Nat) :
    outcome (ofPolicy p s now : Except ConfigFault (RetainedRanking I)) = s.admission := by
  have hrotation := Policy.minChunkInterval_le h
  unfold Policy.rotationInterval? at hrotation
  unfold ofPolicy
  cases hretention : p.retention with
  | uniform => exact (outcome_map _ _).trans (SharedRanking.outcome_create s)
  | resetOnSnapshot => exact (outcome_map _ _).trans (SnapshotRanking.outcome_create s)
  | resetPeriodically interval | byChunks window chunks =>
    rw [hretention] at hrotation
    exact outcome_createRolling s (hrotation _ rfl) ..

/-- A policy is checked first, then the settings. -/
theorem outcome_build (p : Policy) (now : Nat) :
    outcome (build p s now : Except ConfigFault (Decorated (RetainedRanking I) (List (Position I)))) =
      p.validateForRanking >>= fun _ => s.admission := by
  unfold build
  rw [outcome_check]
  cases h : p.validateForRanking with
  | error fault => rfl
  | ok =>
    show outcome (s.validate >>= fun _ => _) = s.admission
    rw [outcome_check]
    calc
      _ = s.validate >>= fun _ => outcome (ofPolicy p s now : Except ConfigFault (RetainedRanking I)) :=
        congrArg (s.validate >>= ·) (funext fun _ => outcome_bind_ok _ _)
      _ = s.validate >>= fun _ => s.admission := by rw [outcome_ofPolicy s h]
      _ = s.admission := s.validate_bind_admission

theorem exists_build_iff (p : Policy) (now : Nat) :
    (∃ d : Decorated (RetainedRanking I) (List (Position I)), build p s now = .ok d) ↔
      p.validateForRanking = .ok () ∧ s.admission = .ok () := by
  rw [← outcome_eq_ok_iff, outcome_build]
  cases p.validateForRanking with
  | error fault => exact ⟨by rintro ⟨⟩, by rintro ⟨⟨⟩, -⟩⟩
  | ok => exact ⟨fun h => ⟨rfl, h⟩, fun h => h.2⟩

end RetainedRanking

/-- **What the settings decide.**
* Every ranking can be made exactly from the settings that are admitted, and else reports what is wrong
  with them; a ranking is built exactly if its policy is valid, too.
* For settings whose pool can be numbered, and for settings that are not valid anyway, `validate` gives the
  same verdict; it passes the others, from which nothing can be made. -/
theorem settings_admitted (s : RankingSettings) :
    (∀ (I : Type) [DecidableEq I],
      outcome (SharedRanking.create s : Except _ (SharedRanking I)) = s.admission ∧
      outcome (Recorder.create s : Except _ (Recorder I)) = s.admission ∧
      outcome (SnapshotRanking.create s : Except _ (SnapshotRanking I)) = s.admission ∧
      (∀ interval archiveSize now, 0 < interval →
        outcome (ChunkedRanking.create s interval archiveSize now : Except _ (ChunkedRanking I)) = s.admission) ∧
      ∀ p now, (∃ d : Decorated (RetainedRanking I) (List (Position I)),
        RetainedRanking.build p s now = .ok d) ↔
          p.validateForRanking = .ok () ∧ s.validate = .ok () ∧ s.poolSize < Limits.poolSizeBound) ∧
    (s.admission = s.validate ↔ (s.validate = .ok () → s.poolSize < Limits.poolSizeBound)) ∧
    (s.admission ≠ s.validate → s.admission = .error (.invalidSizing .poolSize)) := by
  refine ⟨fun I _ => ⟨SharedRanking.outcome_create s, Recorder.outcome_create s,
    SnapshotRanking.outcome_create s, fun _ archiveSize now h => ChunkedRanking.outcome_create s h ..,
    fun p now => ?_⟩, s.admission_eq_validate_iff, fun hne => ?_⟩
  · rw [RetainedRanking.exists_build_iff, s.admission_eq_ok_iff]
  · obtain ⟨hvalid, hlarge⟩ := Classical.not_imp.mp (mt s.admission_eq_validate_iff.mpr hne)
    unfold RankingSettings.admission
    rw [hvalid]
    exact if_pos (Nat.not_lt.mp hlarge)

/-- The smallest settings, in intervals of one millisecond. -/
theorem settings_admitted_least :
    let s : RankingSettings := { capacity := 1, poolSize := 1, batchSize := 1 }
    0 < 1 ∧ s.admission = .ok () ∧
      outcome (ChunkedRanking.create s 1 0 0 : Except _ (ChunkedRanking Nat)) = .ok () := by
  intro s
  obtain ⟨hcreate, hagree, -⟩ := settings_admitted s
  have hadmission : s.admission = .ok () := hagree.mpr fun _ => by decide
  exact ⟨Nat.one_pos, hadmission, ((hcreate Nat).2.2.2.1 1 0 0 Nat.one_pos).trans hadmission⟩

/-- A pool of as many slots as a word has values without the last one: the settings are valid, and nothing
can be made from them. -/
theorem validate_passes_large_pool :
    let s : RankingSettings := { capacity := 1, poolSize := 4294967295 }
    s.validate = .ok () ∧ ({} : Policy).validateForRanking = .ok () ∧
      outcome (SharedRanking.create s : Except _ (SharedRanking Nat)) =
        .error (.invalidSizing .poolSize) ∧
      outcome (Recorder.create s : Except _ (Recorder Nat)) = .error (.invalidSizing .poolSize) ∧
      outcome (SnapshotRanking.create s : Except _ (SnapshotRanking Nat)) =
        .error (.invalidSizing .poolSize) ∧
      outcome (ChunkedRanking.create s 1 0 0 : Except _ (ChunkedRanking Nat)) =
        .error (.invalidSizing .poolSize) ∧
      ¬ ∃ d : Decorated (RetainedRanking Nat) (List (Position Nat)),
        RetainedRanking.build {} s 0 = .ok d := by
  intro s
  have hadmission : s.admission = .error (.invalidSizing .poolSize) := rfl
  refine ⟨rfl, rfl, (SharedRanking.outcome_create s).trans hadmission, (Recorder.outcome_create s).trans hadmission,
    (SnapshotRanking.outcome_create s).trans hadmission,
    (ChunkedRanking.outcome_create s Nat.one_pos 0 0).trans hadmission, fun hbuild => ?_⟩
  have hok := ((RetainedRanking.exists_build_iff s {} 0).mp hbuild).2
  rw [hadmission] at hok
  cases hok

end WindowedMetrics
