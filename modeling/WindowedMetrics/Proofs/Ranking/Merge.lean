import WindowedMetrics.Proofs.Ranking.Floor
import WindowedMetrics.Proofs.Ranking.Offers

/-!
# Merged rankings

A merge stops at the first position that is too small.  That saves work and nothing else: the positions
behind it are not heavier, so they would be refused as well (`mergeInto_eq_addAll`).

A ranking passes on its positions only, not the offers it has forgotten.  The ranking it is merged into
does not miss them, as long as it does not keep more positions or lighter ones (`isTop_mergeInto`).

A ranking that holds the heaviest of some offers has nothing to gain from any of them
(`add_eq_self_of_isTop`), so a second merge changes nothing (`merged_as_offered`).
-/

namespace WindowedMetrics

variable {I : Type}

namespace IsTop

variable {capacity : Nat} {threshold : Int64} {offers : Set (Position I)} {l : List (Position I)}

/-- One of more distinct identities than a list has positions is not in it. -/
theorem exists_identity_not_mem {ids : List I} (hn : ids.Nodup) (hlt : l.length < ids.length) :
    ∃ identity ∈ ids, identity ∉ identities l := by
  by_contra hall
  have hsub : ids ⊆ identities l := fun identity hi => by
    by_contra hnot
    exact hall ⟨identity, hi, hnot⟩
  have hle := (List.subperm_of_subset hn hsub).length_le
  have hids : (identities l).length = l.length := List.length_map _
  omega

variable {capacity' : Nat} {threshold' : Int64} {offers' : Set (Position I)}
  {source : List (Position I)}

/-- A source that has left somebody out is full of heavier positions, and one of them is left out of `l`
if `l` has a position that the source has not. -/
theorem exists_left_out (hs : IsTop capacity' threshold' offers' source) (hle : l.length ≤ capacity')
    (hfull : source.length = capacity') {p : Position I} (hp : p ∈ l)
    (hnew : p.identity ∉ identities source) : ∃ q ∈ source, q.identity ∉ identities l := by
  have hids : (identities source).length = source.length := List.length_map _
  obtain ⟨identity, hi, hnot⟩ := exists_identity_not_mem (l := l)
    (List.nodup_cons.mpr ⟨hnew, hs.distinct⟩) (by rw [List.length_cons]; omega)
  rcases List.mem_cons.mp hi with rfl | hi
  · exact absurd (identity_mem hp) hnot
  · obtain ⟨q, hq, rfl⟩ := mem_identities.mp hi
    exact ⟨q, hq, hnot⟩

/-- What holds the heaviest of some offers and of the positions of a source holds the heaviest of those
offers and of all that were made to the source. -/
theorem of_source (h : IsTop capacity threshold (offers ∪ offerSet source) l)
    (hs : IsTop capacity' threshold' offers' source) (hc : capacity ≤ capacity')
    (ht : threshold' ≤ threshold) : IsTop capacity threshold (offers ∪ offers') l where
  distinct := h.distinct
  ascending := h.ascending
  length_le := h.length_le
  offered := by
    intro p hp
    obtain ⟨ho, hpt⟩ := h.offered p hp
    refine ⟨?_, hpt⟩
    rcases ho with ho | ho
    · exact Or.inl ho
    · exact Or.inr (hs.offered p ho).1
  heaviest := by
    rintro p hp o (ho | ho) hi
    · exact h.heaviest p hp o (Or.inl ho) hi
    have hpt := (h.offered p hp).2
    by_cases hot : threshold' ≤ o.weight
    · by_cases hin : o.identity ∈ identities source
      · obtain ⟨q, hq, hqi⟩ := mem_identities.mp hin
        exact Int64.le_trans (hs.heaviest q hq o ho hqi.symm)
          (h.heaviest p hp q (Or.inr hq) (hqi.trans hi))
      · -- then the source is full of positions that are not lighter than `o`
        obtain ⟨hfull, hall⟩ := hs.left_out o ho hot hin
        obtain ⟨q, hq, hqn⟩ := hs.exists_left_out (h.length_le.trans hc) hfull hp (hi ▸ hin)
        by_cases hqt : threshold ≤ q.weight
        · exact Int64.le_trans (hall q hq) ((h.left_out q (Or.inr hq) hqt hqn).2 p hp)
        · exact Int64.le_trans (hall q hq)
            (Int64.le_trans (Int64.le_of_lt (Int64.not_le.mp hqt)) hpt)
    · exact Int64.le_trans (Int64.le_of_lt (Int64.not_le.mp hot)) (Int64.le_trans ht hpt)
  left_out := by
    rintro o (ho | ho) hot hnot
    · exact h.left_out o (Or.inl ho) hot hnot
    by_cases hin : o.identity ∈ identities source
    · obtain ⟨q, hq, hqi⟩ := mem_identities.mp hin
      have hoq := hs.heaviest q hq o ho hqi.symm
      obtain ⟨hfull, hall⟩ :=
        h.left_out q (Or.inr hq) (Int64.le_trans hot hoq) (hqi ▸ hnot)
      exact ⟨hfull, fun p hp => Int64.le_trans hoq (hall p hp)⟩
    · obtain ⟨hfull, hall⟩ := hs.left_out o ho (Int64.le_trans ht hot) hin
      -- a position of the source that `l` lacks is between `o` and the positions of `l`
      have hlack : ∀ q ∈ source, q.identity ∉ identities l →
          l.length = capacity ∧ ∀ p ∈ l, o.weight ≤ p.weight := fun q hq hqn => by
        obtain ⟨h1, h2⟩ := h.left_out q (Or.inr hq) (Int64.le_trans hot (hall q hq)) hqn
        exact ⟨h1, fun p hp => Int64.le_trans (hall q hq) (h2 p hp)⟩
      have hlen := h.length_le
      refine ⟨?_, fun p hp => ?_⟩
      · by_contra hne
        have hids : (identities source).length = source.length := List.length_map _
        obtain ⟨identity, hi, hqn⟩ := exists_identity_not_mem (l := l) hs.distinct (by omega)
        obtain ⟨q, hq, rfl⟩ := mem_identities.mp hi
        exact hne (hlack q hq hqn).1
      · by_cases hpin : p.identity ∈ identities source
        · obtain ⟨q, hq, hqi⟩ := mem_identities.mp hpin
          exact Int64.le_trans (hall q hq) (h.heaviest p hp q (Or.inr hq) hqi)
        · obtain ⟨q, hq, hqn⟩ := hs.exists_left_out (h.length_le.trans hc) hfull hp hpin
          exact (hlack q hq hqn).2 p hp

end IsTop

namespace Ranking

variable [DecidableEq I]

/-! ### The early stop -/

theorem addAll_eq_self {r : Ranking I} {offers : List (Position I)}
    (h : ∀ o ∈ offers, r.add o.weight o.identity = r) : r.addAll offers = r := by
  induction offers with
  | nil => rfl
  | cons o offers ih =>
    rw [addAll_cons, h o List.mem_cons_self]
    exact ih fun x hx => h x (List.mem_cons_of_mem _ hx)

theorem addUntilTooSmall_eq {r : Ranking I} (ha : Ascending r.positions) {offers : List (Position I)}
    (hd : offers.Pairwise fun p q => q.weight ≤ p.weight) :
    r.addUntilTooSmall offers = r.addAll offers := by
  induction offers generalizing r with
  | nil => rfl
  | cons o offers ih =>
    obtain ⟨hle, hd⟩ := List.pairwise_cons.mp hd
    have ih := ih (ascending_add ha o.weight o.identity) hd
    unfold addUntilTooSmall
    cases hv : r.offer o.weight o.identity with
    | mk v r' =>
      have hr' : r.add o.weight o.identity = r' := congrArg Prod.snd hv
      rw [hr'] at ih
      cases v with
      | tooSmall =>
        have hlight := tooLight_of_tooSmall (congrArg Prod.fst hv)
        refine (addAll_eq_self fun x hx => ?_).symm
        rcases List.mem_cons.mp hx with rfl | hx
        · exact hlight.add_eq_self ha _
        · exact (hlight.mono (hle x hx)).add_eq_self ha _
      | inserted | duplicate =>
        rw [addAll_cons, hr']
        exact ih

/-- **The early stop changes nothing**: a merge offers every position, heaviest first. -/
theorem mergeInto_eq_addAll {r other : Ranking I} (hr : Ascending r.positions)
    (ho : Ascending other.positions) : r.mergeInto other = other.addAll r.descending :=
  addUntilTooSmall_eq ho (List.pairwise_reverse.mpr hr)

theorem capacity_mergeInto {r other : Ranking I} (hr : Ascending r.positions)
    (ho : Ascending other.positions) : (r.mergeInto other).capacity = other.capacity := by
  rw [mergeInto_eq_addAll hr ho, capacity_addAll]

theorem threshold_mergeInto {r other : Ranking I} (hr : Ascending r.positions)
    (ho : Ascending other.positions) : (r.mergeInto other).threshold = other.threshold := by
  rw [mergeInto_eq_addAll hr ho, threshold_addAll]

/-- **Merging loses nothing** that a ranking would keep of all offers made to both. -/
theorem isTop_mergeInto {r other : Ranking I} {offers others : Set (Position I)}
    (hr : IsTop r.capacity r.threshold offers r.positions)
    (ho : IsTop other.capacity other.threshold others other.positions)
    (hc : other.capacity ≤ r.capacity) (ht : r.threshold ≤ other.threshold) :
    IsTop other.capacity other.threshold (others ∪ offers) (r.mergeInto other).positions := by
  rw [mergeInto_eq_addAll hr.ascending ho.ascending]
  have h := isTop_addAll ho r.descending
  refine IsTop.of_source (h.congr fun p => ?_) hr hc ht
  simp [descending]

/-! ### Merging again -/

/-- **An offer made before changes nothing**: its identity is ranked as high, or was left out. -/
theorem add_eq_self_of_isTop {r : Ranking I} {offers : Set (Position I)}
    (h : IsTop r.capacity r.threshold offers r.positions) {o : Position I} (ho : o ∈ offers) :
    r.add o.weight o.identity = r := by
  obtain ⟨v, hout⟩ := r.outcome_add o.weight o.identity
  refine add_eq_self ?_
  generalize (r.add o.weight o.identity).positions = l at hout ⊢
  cases hout with
  | refused | duplicate | outweighed => rfl
  | raised ranked hmem hlt =>
    have hle : o.weight ≤ ranked := h.heaviest _ hmem o ho rfl
    exact absurd hlt (Int64.not_lt.mpr hle)
  | evicting lightest rest hpos hnew _ hlt ht =>
    have hle := (h.left_out o ho ht hnew).2 lightest (hpos ▸ List.mem_cons_self)
    exact absurd hlt (Int64.not_lt.mpr hle)
  | admitted hnew hroom ht =>
    have hfull := (h.left_out o ho ht hnew).1
    omega

/-- **A merge is a series of offers.**  Whatever was offered to a ranking and to another one,
* merging the first into the other offers all its positions, heaviest first;
* if the first keeps as many positions and as light ones, the weights are those of all offers made to the
  other and then to the first, with those that the first has refused or given up;
* and a second merge changes nothing. -/
theorem merged_as_offered (capacity capacity' : Nat) (threshold threshold' : Int64)
    (others made : List (Position I)) :
    let other := (blank capacity threshold).addAll others
    let r := (blank capacity' threshold').addAll made
    r.mergeInto other = other.addAll r.descending ∧
      (capacity ≤ capacity' → threshold' ≤ threshold →
        (r.mergeInto other).descending.map (·.weight) =
          ((blank capacity threshold).addAll (others ++ made)).descending.map (·.weight)) ∧
      r.mergeInto (r.mergeInto other) = r.mergeInto other := by
  intro other r
  have hcapacity : other.capacity = capacity := capacity_addAll ..
  have hthreshold : other.threshold = threshold := threshold_addAll ..
  have hcapacity' : r.capacity = capacity' := capacity_addAll ..
  have hthreshold' : r.threshold = threshold' := threshold_addAll ..
  have hother : IsTop other.capacity other.threshold (offerSet others) other.positions := by
    rw [hcapacity, hthreshold]
    exact isTop_addAll_blank capacity threshold others
  have hr : IsTop r.capacity r.threshold (offerSet made) r.positions := by
    rw [hcapacity', hthreshold']
    exact isTop_addAll_blank capacity' threshold' made
  have hmerge := mergeInto_eq_addAll hr.ascending hother.ascending
  refine ⟨hmerge, fun hc ht => ?_, ?_⟩
  · have hall := isTop_mergeInto hr hother (by rwa [hcapacity, hcapacity'])
      (by rwa [hthreshold, hthreshold'])
    rw [hcapacity, hthreshold] at hall
    have hmade : IsTop capacity threshold (offerSet (others ++ made)) (r.mergeInto other).positions :=
      hall.congr fun p => by simp
    exact hmade.weights_eq.trans (isTop_addAll_blank capacity threshold _).weights_eq.symm
  · -- everything that the second merge offers was offered in the first
    have hmerged := isTop_addAll hother r.descending
    have hoffers : ∀ o ∈ r.descending, (other.addAll r.descending).add o.weight o.identity =
        other.addAll r.descending := by
      intro o ho
      rw [← capacity_addAll other r.descending, ← threshold_addAll other r.descending] at hmerged
      exact add_eq_self_of_isTop hmerged (Or.inr ho)
    rw [hmerge, mergeInto_eq_addAll hr.ascending (ascending_addAll hother.ascending _)]
    exact addAll_eq_self hoffers

/-- The first ranking has given up an identity that is ranked lighter in the other. -/
theorem merged_as_offered_evicted :
    let made : List (Position Nat) := [⟨6, 1⟩, ⟨7, 2⟩, ⟨8, 3⟩]
    let others : List (Position Nat) := [⟨4, 1⟩, ⟨9, 4⟩, ⟨5, 2⟩]
    let r := (blank 2 0).addAll made
    let other := (blank 2 1).addAll others
    2 ≤ 2 ∧ (0 : Int64) ≤ 1 ∧ r.positions = [⟨7, 2⟩, ⟨8, 3⟩] ∧ other.positions = [⟨5, 2⟩, ⟨9, 4⟩] ∧
      (r.mergeInto other).descending = [⟨9, 4⟩, ⟨8, 3⟩] ∧
      (r.mergeInto other).descending.map (·.weight) =
        ((blank 2 1).addAll (others ++ made)).descending.map (·.weight) := by
  intro made others r other
  have ht : (0 : Int64) ≤ 1 := by decide
  exact ⟨Nat.le_refl 2, ht, by decide, by decide, by decide,
    (merged_as_offered 2 2 1 0 others made).2.1 (Nat.le_refl 2) ht⟩

end Ranking

end WindowedMetrics
