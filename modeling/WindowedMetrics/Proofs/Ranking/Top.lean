import Mathlib.Data.List.Dedup
import Mathlib.Data.List.Sort
import Mathlib.Data.Set.Insert
import WindowedMetrics.Proofs.Ranking.Outcome

/-!
# The heaviest of all offers

What a ranking holds after any offers in any order.

* `best?` is the largest weight from the threshold on that was offered for an identity; the identities
  that have one are the `contenders`, and `maxima` are their best weights.
* `IsTop capacity threshold offers l`: `l` holds the heaviest of the offers.  The offers are a set: it
  does not matter in which order they were made, or how often.  An identity that is left out leaves no
  trace in the ranking; what is known of it is that none of its offers is heavier than any position
  (`left_out`).  This is what lets one offer be added at a time (`IsTop.offer`).
* The weights of the heaviest offers are determined, and so are the positions above the lightest weight
  (`IsTop.weights_eq`, `IsTop.above_lightest`).
-/

namespace WindowedMetrics

variable {I : Type}

/-! ### Best weights -/

section Best

variable [DecidableEq I]

/-- The largest weight, not below the threshold, that was offered for an identity. -/
def best? (threshold : Int64) (offers : List (Position I)) (identity : I) : Option Int64 :=
  ((offers.filter fun o => o.identity = identity ∧ threshold ≤ o.weight).map (·.weight)).max?

/-- The identities that have a best weight. -/
def contenders (threshold : Int64) (offers : List (Position I)) : List I :=
  (identities offers).dedup.filter fun identity => (best? threshold offers identity).isSome

/-- The best weights of the identities that have one. -/
def maxima (threshold : Int64) (offers : List (Position I)) : List Int64 :=
  (contenders threshold offers).filterMap (best? threshold offers)

theorem best?_eq_some {threshold : Int64} {offers : List (Position I)} {identity : I} {w : Int64} :
    best? threshold offers identity = some w ↔
      ⟨w, identity⟩ ∈ offers ∧ threshold ≤ w ∧
        ∀ o ∈ offers, o.identity = identity → o.weight ≤ w := by
  unfold best?
  rw [List.max?_eq_some_iff]
  constructor
  · rintro ⟨hmem, hmax⟩
    obtain ⟨o, hof, rfl⟩ := List.mem_map.mp hmem
    obtain ⟨ho, hcond⟩ := List.mem_filter.mp hof
    obtain ⟨rfl, ht⟩ := of_decide_eq_true hcond
    refine ⟨ho, ht, fun x hx hi => ?_⟩
    by_cases hxt : threshold ≤ x.weight
    · exact hmax _ (List.mem_map_of_mem (List.mem_filter.mpr ⟨hx, decide_eq_true ⟨hi, hxt⟩⟩))
    · exact Int64.le_trans (Int64.le_of_lt (Int64.not_le.mp hxt)) ht
  · rintro ⟨hmem, ht, hmax⟩
    refine ⟨List.mem_map.mpr ⟨_, List.mem_filter.mpr ⟨hmem, decide_eq_true ⟨rfl, ht⟩⟩, rfl⟩,
      fun w' hw' => ?_⟩
    obtain ⟨o, hof, rfl⟩ := List.mem_map.mp hw'
    obtain ⟨ho, hcond⟩ := List.mem_filter.mp hof
    exact hmax o ho (of_decide_eq_true hcond).1

/-- Weights from the heaviest to the lightest. -/
def heaviestFirst (ws : List Int64) : List Int64 := ws.mergeSort fun a b => b ≤ a

omit [DecidableEq I] in
theorem heaviestFirst_pairwise (ws : List Int64) :
    (heaviestFirst ws).Pairwise fun a b => b ≤ a := by
  have h : (heaviestFirst ws).Pairwise fun a b => decide (b ≤ a) = true := by
    refine List.pairwise_mergeSort (fun a b c hab hbc => ?_) (fun a b => ?_) ws
    · exact decide_eq_true (Int64.le_trans (of_decide_eq_true hbc) (of_decide_eq_true hab))
    · rcases Int64.le_total a b with hab | hab
      · simp [hab]
      · simp [hab]
  exact h.imp fun hab => of_decide_eq_true hab

omit [DecidableEq I] in
/-- Sorting puts the lighter part of a list behind the heavier one. -/
theorem heaviestFirst_of_perm {ws heavy light : List Int64} (hp : ws.Perm (heavy ++ light))
    (hs : heavy.Pairwise fun a b => b ≤ a) (hle : ∀ a ∈ heavy, ∀ b ∈ light, b ≤ a) :
    heaviestFirst ws = heavy ++ heaviestFirst light := by
  refine List.Perm.eq_of_pairwise (fun a b _ _ hab hba => Int64.le_antisymm hba hab)
    (heaviestFirst_pairwise ws) ?_ ?_
  · refine List.pairwise_append.mpr ⟨hs, heaviestFirst_pairwise light, fun a ha b hb => ?_⟩
    exact hle a ha b (List.mem_mergeSort.mp hb)
  · exact (List.mergeSort_perm _ _).trans
      (hp.trans (List.Perm.append_left _ (List.mergeSort_perm _ _).symm))

theorem best?_isSome {threshold : Int64} {offers : List (Position I)} {identity : I} :
    (best? threshold offers identity).isSome ↔
      ∃ o ∈ offers, o.identity = identity ∧ threshold ≤ o.weight := by
  constructor
  · intro h
    obtain ⟨w, hw⟩ := Option.isSome_iff_exists.mp h
    obtain ⟨hmem, ht, -⟩ := best?_eq_some.mp hw
    exact ⟨_, hmem, rfl, ht⟩
  · rintro ⟨o, ho, hi, ht⟩
    unfold best?
    rw [List.isSome_max?_iff]
    refine List.ne_nil_of_mem (List.mem_map_of_mem (List.mem_filter.mpr ⟨ho, ?_⟩))
    exact decide_eq_true ⟨hi, ht⟩

theorem mem_contenders {threshold : Int64} {offers : List (Position I)} {identity : I} :
    identity ∈ contenders threshold offers ↔
      ∃ o ∈ offers, o.identity = identity ∧ threshold ≤ o.weight := by
  unfold contenders
  rw [List.mem_filter, List.mem_dedup, best?_isSome, mem_identities]
  constructor
  · exact fun h => h.2
  · rintro ⟨o, ho, hi, ht⟩
    exact ⟨⟨o, ho, hi⟩, o, ho, hi, ht⟩

theorem nodup_contenders (threshold : Int64) (offers : List (Position I)) :
    (contenders threshold offers).Nodup := (List.nodup_dedup _).filter _

end Best

/-! ### The heaviest offers -/

/-- The offers of a list as a set. -/
abbrev offerSet (made : List (Position I)) : Set (Position I) := {p | p ∈ made}

/-- `l` holds the heaviest offers, at most `capacity` of them and one for each identity. -/
structure IsTop (capacity : Nat) (threshold : Int64) (offers : Set (Position I))
    (l : List (Position I)) : Prop where
  distinct : (identities l).Nodup
  ascending : Ascending l
  length_le : l.length ≤ capacity
  offered : ∀ p ∈ l, p ∈ offers ∧ threshold ≤ p.weight
  heaviest : ∀ p ∈ l, ∀ o ∈ offers, o.identity = p.identity → o.weight ≤ p.weight
  left_out : ∀ o ∈ offers, threshold ≤ o.weight → o.identity ∉ identities l →
    l.length = capacity ∧ ∀ p ∈ l, o.weight ≤ p.weight

namespace IsTop

variable {capacity : Nat} {threshold : Int64} {offers : Set (Position I)} {l : List (Position I)}

theorem empty (capacity : Nat) (threshold : Int64) :
    IsTop capacity threshold (∅ : Set (Position I)) [] where
  distinct := List.nodup_nil
  ascending := List.Pairwise.nil
  length_le := Nat.zero_le _
  offered := fun _ hp => absurd hp (List.not_mem_nil)
  heaviest := fun _ hp => absurd hp (List.not_mem_nil)
  left_out := fun _ ho => absurd ho (Set.notMem_empty _)

theorem congr {offers' : Set (Position I)} (h : IsTop capacity threshold offers l)
    (he : ∀ p, p ∈ offers ↔ p ∈ offers') : IsTop capacity threshold offers' l :=
  Set.ext he ▸ h

/-- The lightest position is the first. -/
theorem head_le {p : Position I} {rest : List (Position I)}
    (h : IsTop capacity threshold offers (p :: rest)) : ∀ q ∈ p :: rest, p.weight ≤ q.weight := by
  intro q hq
  rcases List.mem_cons.mp hq with rfl | hq
  · exact Int64.le_refl _
  · exact (List.pairwise_cons.mp h.ascending).1 q hq

/-- An offer that no position has to answer for. -/
theorem ignore {o : Position I} (h : IsTop capacity threshold offers l)
    (hranked : ∀ p ∈ l, p.identity = o.identity → o.weight ≤ p.weight)
    (hout : threshold ≤ o.weight → o.identity ∉ identities l →
      l.length = capacity ∧ ∀ p ∈ l, o.weight ≤ p.weight) :
    IsTop capacity threshold (insert o offers) l where
  distinct := h.distinct
  ascending := h.ascending
  length_le := h.length_le
  offered := fun p hp => ⟨Set.mem_insert_of_mem _ (h.offered p hp).1, (h.offered p hp).2⟩
  heaviest := by
    rintro p hp x (rfl | hx) hi
    · exact hranked p hp hi.symm
    · exact h.heaviest p hp x hx hi
  left_out := by
    rintro x (rfl | hx) ht hnot
    · exact hout ht hnot
    · exact h.left_out x hx ht hnot

/-- An offer that becomes a position.  `kept` are the positions that stay; each of the others has its
identity or is the lightest of a full list. -/
theorem accept {o : Position I} {kept : List (Position I)} (h : IsTop capacity threshold offers l)
    (ht : threshold ≤ o.weight) (hsub : kept.Sublist l) (hlen : kept.length < capacity)
    (hnew : o.identity ∉ identities kept)
    (hbest : ∀ x ∈ offers, x.identity = o.identity → x.weight ≤ o.weight)
    (hgone : ∀ x ∈ offers, threshold ≤ x.weight → x.identity ≠ o.identity →
      x.identity ∉ identities kept →
        kept.length + 1 = capacity ∧ x.weight ≤ o.weight ∧ ∀ p ∈ kept, x.weight ≤ p.weight) :
    IsTop capacity threshold (insert o offers) (Ranking.place o kept) where
  distinct := by
    rw [(Ranking.identities_place_perm o kept).nodup_iff]
    exact List.nodup_cons.mpr ⟨hnew, h.distinct.sublist (hsub.map _)⟩
  ascending := Ranking.ascending_place o (h.ascending.sublist hsub)
  length_le := by rw [Ranking.length_place]; omega
  offered := by
    intro p hp
    rcases Ranking.mem_place.mp hp with rfl | hp
    · exact ⟨Set.mem_insert _ _, ht⟩
    · obtain ⟨h1, h2⟩ := h.offered p (hsub.subset hp)
      exact ⟨Set.mem_insert_of_mem _ h1, h2⟩
  heaviest := by
    rintro p hp x hx hi
    rcases Ranking.mem_place.mp hp with rfl | hk
    · rcases hx with rfl | hx
      · exact Int64.le_refl _
      · exact hbest x hx hi
    · rcases hx with rfl | hx
      · exact absurd (hi ▸ identity_mem hk) hnew
      · exact h.heaviest p (hsub.subset hk) x hx hi
  left_out := by
    rintro x hx hxt hnot
    rw [(Ranking.identities_place_perm o kept).mem_iff, List.mem_cons, not_or] at hnot
    rcases hx with rfl | hx
    · exact absurd rfl hnot.1
    · obtain ⟨h1, h2, h3⟩ := hgone x hx hxt hnot.1 hnot.2
      refine ⟨by rw [Ranking.length_place]; exact h1, fun p hp => ?_⟩
      rcases Ranking.mem_place.mp hp with rfl | hp
      · exact h2
      · exact h3 p hp

/-! ### One more offer -/

/-- A ranked identity moves up. -/
theorem raise [DecidableEq I] {r : Ranking I} {w ranked : Int64} {identity : I}
    (h : IsTop r.capacity r.threshold offers r.positions) (hmem : ⟨ranked, identity⟩ ∈ r.positions)
    (hlt : ranked < w) (ht : r.threshold ≤ w) :
    IsTop r.capacity r.threshold (insert ⟨w, identity⟩ offers)
      (Ranking.place ⟨w, identity⟩ (r.without identity)) := by
  have hle : ranked ≤ w := Int64.le_of_lt hlt
  have hin : identity ∈ identities r.positions := identity_mem hmem
  have hlen := Ranking.length_without hin
  refine h.accept ht (r.without_sublist identity) (by have := h.length_le; omega) ?_ ?_ ?_
  · intro hc
    obtain ⟨q, hq, hi⟩ := mem_identities.mp hc
    exact ((Ranking.mem_without h.distinct).mp hq).2 hi
  · exact fun x hx hi => Int64.le_trans (h.heaviest _ hmem x hx hi) hle
  · intro x hx hxt hne hnot
    have hout : x.identity ∉ identities r.positions := by
      intro hc
      obtain ⟨q, hq, hi⟩ := mem_identities.mp hc
      have hk : q ∈ r.without identity :=
        (Ranking.mem_without h.distinct).mpr ⟨hq, fun he => hne (hi.symm.trans he)⟩
      exact hnot (hi ▸ identity_mem hk)
    obtain ⟨h1, h2⟩ := h.left_out x hx hxt hout
    exact ⟨by omega, Int64.le_trans (h2 _ hmem) hle,
      fun p hp => h2 p ((r.without_sublist identity).subset hp)⟩

/-- A new identity takes the place of the lightest position. -/
theorem evict {lightest : Position I} {rest : List (Position I)} {w : Int64} {identity : I}
    (h : IsTop capacity threshold offers (lightest :: rest))
    (hnew : identity ∉ identities (lightest :: rest)) (hfull : capacity ≤ (lightest :: rest).length)
    (hlt : lightest.weight < w) (ht : threshold ≤ w) :
    IsTop capacity threshold (insert ⟨w, identity⟩ offers) (Ranking.place ⟨w, identity⟩ rest) := by
  have hle : lightest.weight ≤ w := Int64.le_of_lt hlt
  have hlen : rest.length + 1 = capacity := Nat.le_antisymm h.length_le hfull
  refine h.accept ht (List.sublist_cons_self _ _) (by omega)
    (fun hc => hnew (List.mem_cons_of_mem _ hc)) ?_ ?_
  · intro x hx hi
    by_cases hxt : threshold ≤ x.weight
    · exact Int64.le_trans ((h.left_out x hx hxt (hi ▸ hnew)).2 lightest List.mem_cons_self) hle
    · exact Int64.le_trans (Int64.le_of_lt (Int64.not_le.mp hxt)) ht
  · intro x hx hxt hne hnot
    -- the lightest position and what is lighter than it are left out
    have hxl : x.weight ≤ lightest.weight := by
      by_cases hi : x.identity = lightest.identity
      · exact h.heaviest _ List.mem_cons_self x hx hi
      · refine (h.left_out x hx hxt fun hc => ?_).2 _ List.mem_cons_self
        exact (List.mem_cons.mp hc).elim hi hnot
    exact ⟨hlen, Int64.le_trans hxl hle,
      fun p hp => Int64.le_trans hxl (h.head_le p (List.mem_cons_of_mem _ hp))⟩

/-- **One more offer**: a ranking that holds the heaviest offers goes on to hold them. -/
theorem offer [DecidableEq I] {r : Ranking I} (h : IsTop r.capacity r.threshold offers r.positions)
    (w : Int64) (identity : I) :
    IsTop r.capacity r.threshold (insert ⟨w, identity⟩ offers) (r.add w identity).positions := by
  obtain ⟨v, ho⟩ := Ranking.outcome_add r w identity
  generalize (r.add w identity).positions = l at ho
  cases ho with
  | refused hr =>
    rcases hr with hlt | h0
    · refine h.ignore (fun p hp _ => ?_) fun ht _ => absurd ht (Int64.not_le.mpr hlt)
      exact Int64.le_trans (Int64.le_of_lt hlt) (h.offered p hp).2
    · -- a ranking that keeps nothing is full of nothing
      have hnil : r.positions = [] := List.eq_nil_of_length_eq_zero (by have := h.length_le; omega)
      rw [hnil] at h ⊢
      exact h.ignore (fun p hp => absurd hp List.not_mem_nil) fun _ _ =>
        ⟨h0.symm, fun p hp => absurd hp List.not_mem_nil⟩
  | duplicate ranked hmem hle ht =>
    refine h.ignore (fun p hp hi => ?_) fun _ hnot => absurd (identity_mem hmem) hnot
    rw [eq_of_identity_eq h.distinct hp hmem hi]
    exact hle
  | raised ranked hmem hlt ht => exact h.raise hmem hlt ht
  | outweighed lightest rest hpos hnew hfull hle ht =>
    rw [hpos] at h hnew hfull ⊢
    have hne : ∀ p ∈ lightest :: rest, p.identity ≠ identity := fun p hp hi =>
      hnew (mem_identities.mpr ⟨p, hp, hi⟩)
    refine h.ignore (fun p hp hi => absurd hi (hne p hp)) fun _ _ => ?_
    exact ⟨Nat.le_antisymm h.length_le hfull, fun p hp => Int64.le_trans hle (h.head_le p hp)⟩
  | evicting lightest rest hpos hnew hfull hlt ht =>
    rw [hpos] at h hnew hfull
    exact h.evict hnew hfull hlt ht
  | admitted hnew hroom ht =>
    refine h.accept ht (List.Sublist.refl _) hroom hnew ?_ ?_
    · intro x hx hi
      by_cases hxt : r.threshold ≤ x.weight
      · have := (h.left_out x hx hxt (hi ▸ hnew)).1
        omega
      · exact Int64.le_trans (Int64.le_of_lt (Int64.not_le.mp hxt)) ht
    · intro x hx hxt _ hnot
      have := (h.left_out x hx hxt hnot).1
      omega

/-! ### What is determined -/

section Determined

variable [DecidableEq I] {made : List (Position I)}

theorem best?_eq (h : IsTop capacity threshold (offerSet made) l) {p : Position I} (hp : p ∈ l) :
    best? threshold made p.identity = some p.weight :=
  best?_eq_some.mpr ⟨(h.offered p hp).1, (h.offered p hp).2, h.heaviest p hp⟩

/-- The contenders are the identities ranked and those left out. -/
theorem contenders_perm (h : IsTop capacity threshold (offerSet made) l) :
    (contenders threshold made).Perm
      (identities l ++ (contenders threshold made).filter (· ∉ identities l)) := by
  have hn := nodup_contenders threshold made
  refine (List.perm_ext_iff_of_nodup hn ?_).mpr fun identity => ?_
  · refine List.nodup_append'.mpr ⟨h.distinct, hn.filter _, fun x hx hx' => ?_⟩
    exact of_decide_eq_true (List.mem_filter.mp hx').2 hx
  · rw [List.mem_append, List.mem_filter]
    by_cases hi : identity ∈ identities l
    · obtain ⟨p, hp, hpi⟩ := mem_identities.mp hi
      have hc := mem_contenders.mpr ⟨p, (h.offered p hp).1, hpi, (h.offered p hp).2⟩
      exact ⟨fun _ => Or.inl hi, fun _ => hc⟩
    · exact ⟨fun hc => Or.inr ⟨hc, decide_eq_true hi⟩, fun hc => hc.elim (absurd · hi) (·.1)⟩

/-- Somebody is left out only of a full ranking. -/
theorem filter_contenders_eq_nil (h : IsTop capacity threshold (offerSet made) l)
    (hlt : l.length < capacity) :
    (contenders threshold made).filter (· ∉ identities l) = [] := by
  refine List.filter_eq_nil_iff.mpr fun identity hc hnot => ?_
  obtain ⟨o, ho, rfl, ht⟩ := mem_contenders.mp hc
  have := (h.left_out o ho ht (of_decide_eq_true hnot)).1
  omega

/-- A ranking is as long as its capacity and the contenders allow. -/
theorem length_eq (h : IsTop capacity threshold (offerSet made) l) :
    l.length = min capacity (contenders threshold made).length := by
  have hlen := h.contenders_perm.length_eq
  have hids : (identities l).length = l.length := List.length_map _
  rw [List.length_append, hids] at hlen
  rcases Nat.lt_or_ge l.length capacity with hlt | hge
  · rw [h.filter_contenders_eq_nil hlt, List.length_nil] at hlen
    omega
  · have := h.length_le
    omega

/-- **The weights are determined**: they are the heaviest of the best weights. -/
theorem weights_eq (h : IsTop capacity threshold (offerSet made) l) :
    l.reverse.map (·.weight) = (heaviestFirst (maxima threshold made)).take capacity := by
  set light := ((contenders threshold made).filter (· ∉ identities l)).filterMap
    (best? threshold made) with hlight
  have hranked : (identities l).filterMap (best? threshold made) = l.map (·.weight) := by
    unfold identities
    rw [List.filterMap_map, ← List.filterMap_eq_map]
    exact List.filterMap_congr fun p hp => h.best?_eq hp
  have hperm : (maxima threshold made).Perm (l.reverse.map (·.weight) ++ light) := by
    have hp := h.contenders_perm.filterMap (best? threshold made)
    rw [List.filterMap_append, hranked] at hp
    exact hp.trans (((List.reverse_perm l).symm.map _).append_right _)
  have hsorted : (l.reverse.map (·.weight)).Pairwise fun a b => b ≤ a := by
    rw [List.pairwise_map, List.pairwise_reverse]
    exact h.ascending
  have hle : ∀ a ∈ l.reverse.map (·.weight), ∀ b ∈ light, b ≤ a := by
    intro a ha b hb
    obtain ⟨p, hp, rfl⟩ := List.mem_map.mp ha
    obtain ⟨identity, hid, hbest⟩ := List.mem_filterMap.mp hb
    obtain ⟨hmem, ht, -⟩ := best?_eq_some.mp hbest
    have hnot := of_decide_eq_true (List.mem_filter.mp hid).2
    exact (h.left_out _ hmem ht hnot).2 p (List.mem_reverse.mp hp)
  have hlen : (l.reverse.map (·.weight)).length = l.length := by simp
  rw [heaviestFirst_of_perm hperm hsorted hle]
  rcases Nat.lt_or_ge l.length capacity with hlt | hge
  · have hnil : light = [] := by rw [hlight, h.filter_contenders_eq_nil hlt]; rfl
    rw [hnil, heaviestFirst, List.mergeSort_nil, List.append_nil, List.take_of_length_le (by omega)]
  · have := h.length_le
    rw [List.take_left' (by omega)]

theorem map_weight_eq {l' : List (Position I)} (h : IsTop capacity threshold (offerSet made) l)
    (h' : IsTop capacity threshold (offerSet made) l') : l.map (·.weight) = l'.map (·.weight) := by
  have he := h.weights_eq.trans h'.weights_eq.symm
  rw [List.map_reverse, List.map_reverse] at he
  exact List.reverse_injective he

omit [DecidableEq I] in
/-- **The positions above the lightest weight are determined**, too. -/
theorem above_lightest {l' : List (Position I)} (h : IsTop capacity threshold offers l)
    (h' : IsTop capacity threshold offers l') (hw : l.map (·.weight) = l'.map (·.weight))
    {p q : Position I} (hp : p ∈ l) (hq : q ∈ l) (hlt : q.weight < p.weight) :
    p ∈ l' ∧ ∃ q' ∈ l', q'.weight < p.weight := by
  have hqw : q.weight ∈ l'.map (·.weight) := hw ▸ List.mem_map_of_mem hq
  obtain ⟨q', hq', hqe⟩ := List.mem_map.mp hqw
  refine ⟨?_, q', hq', hqe ▸ hlt⟩
  obtain ⟨ho, ht⟩ := h.offered p hp
  by_cases hin : p.identity ∈ identities l'
  · obtain ⟨p', hp', hi⟩ := mem_identities.mp hin
    have hle := h'.heaviest p' hp' p ho hi.symm
    have hge := h.heaviest p hp p' (h'.offered p' hp').1 hi
    have hpe : p' = p := Position.ext (Int64.le_antisymm hge hle) hi
    exact hpe ▸ hp'
  · -- `p` would be left out, although it is heavier than a position
    have hle := (h'.left_out p ho ht hin).2 q' hq'
    rw [hqe] at hle
    exact absurd hlt (Int64.not_lt.mpr hle)

end Determined

end IsTop

end WindowedMetrics
