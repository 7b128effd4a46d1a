import WindowedMetrics.Proofs.Ranking.Merge

/-!
# What the admission floor decides

The floor divides the weights sharply: below it no offer is inserted, and from it on every offer of an
identity that is not ranked is, unless the ranking keeps nothing or is full of the largest weight, above
which there is no other (`tooLight_iff`, `inserted_iff`).

Offers and merges raise the floor or leave it where it is (`floor_le_changed`), so a writer may go by a floor
that it has read earlier.
-/

namespace WindowedMetrics.Ranking

variable {I : Type}

/-! ### Floors and weights -/

theorem lt_nextWeight {a b : Int64} (h : a ≤ b) (hb : b ≠ Int64.maxValue) : a < nextWeight b := by
  have hab := Int64.le_iff_toInt_le.mp h
  rw [Int64.lt_iff_toInt_lt, toInt_nextWeight hb]
  omega

theorem floor_of_isFull {r : Ranking I} {lightest : Int64} (hfull : r.isFull)
    (hl : r.lightest? = some lightest) : r.floor = max (nextWeight lightest) r.threshold := by
  simp [floor, hl, hfull]

theorem threshold_le_floor (r : Ranking I) : r.threshold ≤ r.floor := by
  unfold floor
  split
  · split_ifs
    · exact Std.right_le_max
    · exact Int64.le_refl _
  · exact Int64.le_refl _

theorem maxValue_le_floor {r : Ranking I} (hfull : r.isFull)
    (hl : r.lightest? = some Int64.maxValue) : Int64.maxValue ≤ r.floor := by
  rw [floor_of_isFull hfull hl]
  exact Std.left_le_max

/-- **The weights that are too light**: those below the floor, and all of them if the ranking keeps nothing
or is full of the largest weight. -/
theorem tooLight_iff {r : Ranking I} {w : Int64} : r.TooLight w ↔
    r.capacity = 0 ∨ w < r.floor ∨ r.isFull ∧ r.lightest? = some Int64.maxValue := by
  constructor
  · rintro ((hlt | h0) | ⟨hlength, p, hp, hle⟩)
    · exact Or.inr (Or.inl (Int64.lt_of_lt_of_le hlt r.threshold_le_floor))
    · exact Or.inl h0
    · have hfull : r.isFull := by simpa [isFull] using hlength
      have hl : r.lightest? = some p.weight := by
        rw [lightest?, Option.mem_def.mp hp]
        rfl
      by_cases hmax : p.weight = Int64.maxValue
      · exact Or.inr (Or.inr ⟨hfull, hmax ▸ hl⟩)
      · refine Or.inr (Or.inl ?_)
        rw [floor_of_isFull hfull hl]
        exact Int64.lt_of_lt_of_le (lt_nextWeight hle hmax) Std.left_le_max
  · rintro (h0 | hlt | ⟨hfull, hl⟩)
    · exact Or.inl (Or.inr h0)
    · exact tooLight_of_lt_floor hlt
    · obtain ⟨p, hp, hmax⟩ := Option.map_eq_some_iff.mp hl
      refine Or.inr ⟨by simpa [isFull] using hfull, p, hp, ?_⟩
      rw [hmax]
      exact w.le_maxValue

variable [DecidableEq I]

/-- An identity that is not ranked is inserted if its weight is not too light. -/
theorem inserted_iff {r : Ranking I} (ha : Ascending r.positions) {w : Int64} {identity : I}
    (hnew : identity ∉ identities r.positions) :
    (r.offer w identity).1 = .inserted ↔ ¬ r.TooLight w := by
  constructor
  · exact fun hv hlight => hlight.ne_inserted ha identity hv
  · intro hlight
    cases hv : (r.offer w identity).1 with
    | inserted => rfl
    | tooSmall => exact absurd (tooLight_of_tooSmall hv) hlight
    | duplicate =>
      have ho := r.outcome_offer w identity
      rw [hv] at ho
      generalize (r.offer w identity).2.positions = l at ho
      cases ho with
      | duplicate ranked hmem => exact absurd (identity_mem hmem) hnew

/-- **An offer does not lower the floor.** -/
theorem floor_le_floor_add {r : Ranking I} (ha : Ascending r.positions) (w : Int64) (identity : I) :
    r.floor ≤ (r.add w identity).floor := by
  by_contra hnot
  have hlt : (r.add w identity).floor < r.floor := Int64.not_le.mp hnot
  -- the lower floor is too light a weight, and stays so
  have hlight := (tooLight_of_lt_floor hlt).add ha w identity
  rcases tooLight_iff.mp hlight with h0 | hself | ⟨hfull, hmax⟩
  · rw [capacity_add] at h0
    have hsame : r.add w identity = r := TooLight.add_eq_self (Or.inl (Or.inr h0)) ha identity
    rw [hsame] at hlt
    exact Int64.lt_irrefl hlt
  · exact Int64.lt_irrefl hself
  · exact hnot (Int64.le_trans r.floor.le_maxValue (maxValue_le_floor hfull hmax))

/-! ### Changes -/

/-- What can be done to a ranking.  A merge brings the positions of another one. -/
inductive Change (I : Type) where
  | update (weight : Int64) (identity : I)
  | merge (source : Ranking I)
  | reset

def Change.isReset : Change I → Bool
  | .reset => true
  | .update .. | .merge _ => false

/-- The ranking after a change. -/
def change (r : Ranking I) : Change I → Ranking I
  | .update weight identity => r.add weight identity
  | .merge source => source.mergeInto r
  | .reset => r.reset

/-- The ranking after some changes. -/
def changed (r : Ranking I) (changes : List (Change I)) : Ranking I := changes.foldl change r

/-- What offers keep is kept by a merge, wherever it stops. -/
theorem addUntilTooSmall_keeps {P : Ranking I → Prop}
    (hadd : ∀ r w identity, P r → P (r.add w identity)) {r : Ranking I} (h : P r)
    (offers : List (Position I)) : P (r.addUntilTooSmall offers) := by
  induction offers generalizing r with
  | nil => exact h
  | cons o offers ih =>
    have hnext := hadd r o.weight o.identity h
    unfold addUntilTooSmall
    cases hv : r.offer o.weight o.identity with
    | mk v r' =>
      have hr' : r.add o.weight o.identity = r' := congrArg Prod.snd hv
      cases v with
      | tooSmall => exact h
      | inserted | duplicate => exact ih (hr' ▸ hnext)

/-- What offers keep is kept by all changes that are no reset. -/
theorem changed_keeps {P : Ranking I → Prop} (hadd : ∀ r w identity, P r → P (r.add w identity))
    {r : Ranking I} (h : P r) {changes : List (Change I)} (hkeep : ∀ c ∈ changes, c.isReset = false) :
    P (r.changed changes) := by
  induction changes generalizing r with
  | nil => exact h
  | cons c changes ih =>
    obtain ⟨hc, hrest⟩ := List.forall_mem_cons.mp hkeep
    refine ih ?_ hrest
    cases c with
    | update weight identity => exact hadd r weight identity h
    | merge source => exact addUntilTooSmall_keeps hadd h source.descending
    | reset => exact absurd hc (by simp [Change.isReset])

theorem ascending_changed {r : Ranking I} (h : Ascending r.positions) (changes : List (Change I)) :
    Ascending (r.changed changes).positions := by
  induction changes generalizing r with
  | nil => exact h
  | cons c changes ih =>
    refine ih ?_
    cases c with
    | update weight identity => exact ascending_add h weight identity
    | merge source =>
      exact addUntilTooSmall_keeps (P := fun s => Ascending s.positions)
        (fun s w identity hs => ascending_add hs w identity) h source.descending
    | reset => exact List.Pairwise.nil

/-- **Without a reset the floor is not lowered.** -/
theorem floor_le_changed {r : Ranking I} (ha : Ascending r.positions) {changes : List (Change I)}
    (hkeep : ∀ c ∈ changes, c.isReset = false) : r.floor ≤ (r.changed changes).floor := by
  refine (changed_keeps (P := fun s => Ascending s.positions ∧ r.floor ≤ s.floor) ?_
    ⟨ha, Int64.le_refl _⟩ hkeep).2
  rintro s w identity ⟨hs, hle⟩
  exact ⟨ascending_add hs w identity, Int64.le_trans hle (floor_le_floor_add hs w identity)⟩

/-- **The admission floor** of a ranking that was filled by any offers, merges and resets:
* an offer below it changes nothing and is not inserted;
* an identity that is not ranked is inserted exactly with the weights from the floor on, but for a ranking
  that keeps nothing and one that is full of the largest weight;
* further offers and merges do not lower it. -/
theorem floor_decides (capacity : Nat) (threshold : Int64) (changes : List (Change I)) :
    let r := (blank capacity threshold).changed changes
    (∀ w identity, w < r.floor → (r.offer w identity).2 = r ∧ (r.offer w identity).1 ≠ .inserted) ∧
      (∀ w identity, identity ∉ identities r.positions →
        ((r.offer w identity).1 = .inserted ↔
          0 < r.capacity ∧ r.floor ≤ w ∧ ¬ (r.isFull ∧ r.lightest? = some Int64.maxValue))) ∧
      ∀ further : List (Change I), (∀ c ∈ further, c.isReset = false) →
        r.floor ≤ (r.changed further).floor := by
  intro r
  have hblank : Ascending (blank capacity threshold : Ranking I).positions := List.Pairwise.nil
  have ha : Ascending r.positions := ascending_changed hblank changes
  refine ⟨fun w identity hlt => ?_, fun w identity hnew => ?_, fun further hkeep => ?_⟩
  · have hlight := tooLight_of_lt_floor hlt
    exact ⟨hlight.add_eq_self ha identity, hlight.ne_inserted ha identity⟩
  · rw [inserted_iff ha hnew, tooLight_iff, not_or, not_or, Nat.pos_iff_ne_zero, Int64.not_lt]
  · exact floor_le_changed ha hkeep

/-- A ranking that was reset and filled again by a merge, of which the last position was too small. -/
theorem floor_decides_refilled :
    let source := (blank 3 (-9)).changed [.update (-7) 4, .update 6 5]
    let changes : List (Change Nat) := [.update 3 1, .update 9 2, .reset, .update (-5) 1, .merge source]
    let further : List (Change Nat) := [.update 8 7, .merge source]
    let r := (blank 2 (-5)).changed changes
    r.positions = [⟨-5, 1⟩, ⟨6, 5⟩] ∧ r.floor = -4 ∧
      ((-5 : Int64) < r.floor ∧ (r.offer (-5) 7).2 = r ∧ (r.offer (-5) 7).1 ≠ .inserted) ∧
      (7 ∉ identities r.positions ∧ (r.offer (-4) 7).1 = .inserted) ∧
      (∀ c ∈ further, c.isReset = false) ∧ r.floor ≤ (r.changed further).floor := by
  intro source changes further r
  have hlt : (-5 : Int64) < r.floor := by decide
  have hnew : 7 ∉ identities r.positions := by decide
  have hkeep : ∀ c ∈ further, c.isReset = false := by simp [further, Change.isReset]
  obtain ⟨hbelow, hfrom, hraised⟩ := floor_decides 2 (-5) changes
  exact ⟨by decide, by decide, ⟨hlt, hbelow (-5) 7 hlt⟩,
    ⟨hnew, (hfrom (-4) 7 hnew).mpr (by decide)⟩, hkeep, hraised further hkeep⟩

end WindowedMetrics.Ranking
