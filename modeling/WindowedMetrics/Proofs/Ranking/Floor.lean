import WindowedMetrics.Proofs.Ranking.Outcome

/-!
# Offers that come to nothing

A weight can be too light for a ranking whoever has it (`TooLight`).  Offers of such weights change nothing
(`TooLight.add_eq_self`), and they are the ones found too small.  Every weight below the admission floor is
too light, so a writer may drop its offer without looking at the ranking.
-/

namespace WindowedMetrics.Ranking

variable {I : Type} [DecidableEq I]

/-! ### Weights that are too light -/

omit [DecidableEq I] in
/-- Whether a weight is too light for a ranking, whoever has it: below the threshold, or not above the
lightest position of a full ranking. -/
def TooLight (r : Ranking I) (w : Int64) : Prop :=
  (w < r.threshold ∨ r.capacity = 0) ∨
    r.capacity ≤ r.positions.length ∧ ∃ p ∈ r.positions.head?, w ≤ p.weight

omit [DecidableEq I] in
theorem TooLight.mono {r : Ranking I} {w w' : Int64} (h : r.TooLight w) (hle : w' ≤ w) :
    r.TooLight w' := by
  rcases h with (hlt | h0) | ⟨hfull, p, hp, hpw⟩
  · exact Or.inl (Or.inl (Int64.lt_of_le_of_lt hle hlt))
  · exact Or.inl (Or.inr h0)
  · exact Or.inr ⟨hfull, p, hp, Int64.le_trans hle hpw⟩

omit [DecidableEq I] in
theorem head?_le {r : Ranking I} (ha : Ascending r.positions) {p q : Position I}
    (hp : p ∈ r.positions.head?) (hq : q ∈ r.positions) : p.weight ≤ q.weight := by
  cases hpos : r.positions with
  | nil => simp [hpos] at hq
  | cons x l =>
    rw [hpos] at hp hq
    unfold Ascending at ha
    rw [hpos] at ha
    obtain rfl : x = p := by simpa using hp
    rcases List.mem_cons.mp hq with rfl | hq
    · exact Int64.le_refl _
    · exact (List.pairwise_cons.mp ha).1 q hq

/-- An offer that is not inserted changes nothing. -/
theorem add_eq_self_of_ne_inserted {r : Ranking I} {w : Int64} {identity : I}
    (h : (r.offer w identity).1 ≠ .inserted) : r.add w identity = r := by
  have ho := r.outcome_offer w identity
  refine Ranking.add_eq_self ?_
  show (r.offer w identity).2.positions = r.positions
  generalize (r.offer w identity).1 = v at h ho
  generalize (r.offer w identity).2.positions = l at ho ⊢
  cases ho with
  | refused | duplicate | outweighed => rfl
  | raised | evicting | admitted => exact absurd rfl h

/-- Offers that are too light are not inserted. -/
theorem TooLight.ne_inserted {r : Ranking I} {w : Int64} (h : r.TooLight w)
    (ha : Ascending r.positions) (identity : I) : (r.offer w identity).1 ≠ .inserted := by
  rcases h with h0 | ⟨hfull, p, hp, hle⟩
  · unfold offer
    rw [if_pos h0]
    exact Verdict.noConfusion
  · intro hv
    have ho := r.outcome_offer w identity
    rw [hv] at ho
    generalize (r.offer w identity).2.positions = l at ho
    cases ho with
    | raised ranked hmem hlt =>
      -- a ranked identity is not lighter than the lightest position
      have hpr := Int64.le_trans hle (head?_le ha hp hmem)
      exact absurd hlt (Int64.not_lt.mpr hpr)
    | evicting lightest rest hpos _ _ hlt =>
      obtain rfl : lightest = p := by simpa [hpos] using hp
      exact absurd hlt (Int64.not_lt.mpr hle)
    | admitted _ hroom => omega

/-- Offers that are too light change nothing. -/
theorem TooLight.add_eq_self {r : Ranking I} {w : Int64} (h : r.TooLight w)
    (ha : Ascending r.positions) (identity : I) : r.add w identity = r :=
  add_eq_self_of_ne_inserted (h.ne_inserted ha identity)

omit [DecidableEq I] in
/-- A full ranking that gives up a position for a heavier one does not get lighter. -/
theorem tooLight_of_heavier {r s : Ranking I} {w : Int64} (h : r.TooLight w)
    (hcapacity : s.capacity = r.capacity) (hthreshold : s.threshold = r.threshold)
    (hlength : r.positions.length ≤ s.positions.length)
    (hheavier : r.capacity ≤ r.positions.length →
      ∀ p ∈ r.positions.head?, ∀ q ∈ s.positions, p.weight ≤ q.weight) : s.TooLight w := by
  rcases h with (hlt | h0) | ⟨hfull, p, hp, hle⟩
  · exact Or.inl (Or.inl (hthreshold.symm ▸ hlt))
  · exact Or.inl (Or.inr (hcapacity.trans h0))
  · rw [TooLight, hcapacity]
    cases hs : s.positions.head? with
    | none =>
      -- a ranking with a position has not lost all of them
      rw [List.head?_eq_none_iff.mp hs] at hlength
      rw [List.eq_nil_of_length_eq_zero (Nat.le_zero.mp hlength)] at hp
      cases hp
    | some q =>
      refine Or.inr ⟨Nat.le_trans hfull hlength, q, rfl, Int64.le_trans hle ?_⟩
      exact hheavier hfull p hp q (List.mem_of_mem_head? hs)

/-- What is too light stays too light. -/
theorem TooLight.add {r : Ranking I} {w : Int64} (h : r.TooLight w) (ha : Ascending r.positions)
    (weight : Int64) (identity : I) : (r.add weight identity).TooLight w := by
  obtain ⟨v, ho⟩ := r.outcome_add weight identity
  obtain ⟨l, hl⟩ : ∃ l, l = (r.add weight identity).positions := ⟨_, rfl⟩
  rw [← hl] at ho
  refine tooLight_of_heavier h (r.capacity_add _ _) (r.threshold_add _ _) ?_ ?_
  · rw [← hl]
    cases ho with
    | refused | duplicate | outweighed => exact Nat.le_refl _
    | raised ranked hmem =>
      have hlength := length_without (identity_mem hmem)
      exact Nat.le_of_eq ((length_place ..).trans hlength).symm
    | evicting lightest rest hpos =>
      rw [hpos]
      exact Nat.le_of_eq (length_place ..).symm
    | admitted =>
      rw [length_place]
      exact Nat.le_succ _
  · rw [← hl]
    intro hfull p hp q hq
    cases ho with
    | refused | duplicate | outweighed => exact head?_le ha hp hq
    | raised ranked hmem hlt =>
      rcases mem_place.mp hq with rfl | hq
      · exact Int64.le_trans (head?_le ha hp hmem) (Int64.le_of_lt hlt)
      · exact head?_le ha hp ((r.without_sublist identity).subset hq)
    | evicting lightest rest hpos _ _ hlt =>
      obtain rfl : lightest = p := by simpa [hpos] using hp
      rcases mem_place.mp hq with rfl | hq
      · exact Int64.le_of_lt hlt
      · exact head?_le ha hp (hpos ▸ List.mem_cons_of_mem _ hq)
    | admitted _ hroom => exact absurd hfull (Nat.not_le.mpr hroom)

theorem tooLight_of_tooSmall {r : Ranking I} {w : Int64} {identity : I}
    (h : (r.offer w identity).1 = .tooSmall) : r.TooLight w := by
  have ho := r.outcome_offer w identity
  rw [h] at ho
  generalize (r.offer w identity).2.positions = l at ho
  cases ho with
  | refused hr => exact Or.inl hr
  | outweighed lightest rest hpos _ hfull hle =>
    exact Or.inr ⟨hfull, lightest, by simp [hpos], hle⟩

/-! ### The admission floor -/

omit [DecidableEq I] in
theorem toInt_nextWeight {w : Int64} (h : w ≠ Int64.maxValue) :
    (nextWeight w).toInt = w.toInt + 1 := by
  have h1 := w.le_toInt
  have h2 := w.toInt_le
  have hne : w.toInt ≠ Int64.maxValue.toInt := fun he => h (Int64.toInt_inj.mp he)
  rw [Int64.toInt_maxValue] at h2 hne
  unfold nextWeight
  rw [if_neg h, Int64.toInt_add, Int64.toInt_one, Int.bmod_eq_of_le (by omega) (by omega)]

omit [DecidableEq I] in
theorem le_of_lt_nextWeight {a b : Int64} (h : a < nextWeight b) : a ≤ b := by
  by_cases hb : b = Int64.maxValue
  · exact hb ▸ a.le_maxValue
  · rw [Int64.lt_iff_toInt_lt, toInt_nextWeight hb] at h
    exact Int64.le_iff_toInt_le.mpr (by omega)

omit [DecidableEq I] in
/-- Below the admission floor every weight is too light. -/
theorem tooLight_of_lt_floor {r : Ranking I} {w : Int64} (h : w < r.floor) : r.TooLight w := by
  unfold floor lightest? at h
  cases hp : r.positions.head? with
  | none =>
    rw [hp] at h
    exact Or.inl (Or.inl h)
  | some p =>
    rw [hp] at h
    dsimp only [Option.map_some] at h
    split_ifs at h with hfull
    · have hlen : r.capacity ≤ r.positions.length := by simpa [isFull] using hfull
      by_cases ht : w < r.threshold
      · exact Or.inl (Or.inl ht)
      · have hlt : w < nextWeight p.weight := by
          by_contra hge
          exact absurd h (Int64.not_lt.mpr (Std.max_le_iff.mpr
            ⟨Int64.not_lt.mp hge, Int64.not_lt.mp ht⟩))
        exact Or.inr ⟨hlen, p, hp, le_of_lt_nextWeight hlt⟩
    · exact Or.inl (Or.inl h)

end WindowedMetrics.Ranking
