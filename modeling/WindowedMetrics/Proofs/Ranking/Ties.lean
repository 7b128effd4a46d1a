import Mathlib.Data.List.Pairwise
import Mathlib.Data.List.Perm.Subperm
import WindowedMetrics.Proofs.Ranking.Top

/-!
# Rankings of the same offers

Two rankings that hold the heaviest of the same offers need not hold the same positions: of identities
with the same best weight either may be ranked first, and either may be left out.  Nothing else can tell
them apart (`IsTop.agree`).
-/

namespace WindowedMetrics

variable {I : Type} [DecidableEq I]

/-- A tie for the last place: a position is the lightest of a ranking that leaves out an identity with the
same best weight. -/
structure Tied (threshold : Int64) (made l : List (Position I)) (p : Position I) : Prop where
  lightest : ∀ q ∈ l, p.weight ≤ q.weight
  contested : ∃ identity ∉ identities l, best? threshold made identity = some p.weight

theorem Tied.reverse {threshold : Int64} {made l : List (Position I)} {p : Position I}
    (h : Tied threshold made l p) : Tied threshold made l.reverse p where
  lightest := fun q hq => h.lightest q (List.mem_reverse.mp hq)
  contested := by
    obtain ⟨identity, hnot, hbest⟩ := h.contested
    refine ⟨identity, fun hi => hnot ?_, hbest⟩
    rwa [identities, List.map_reverse, List.mem_reverse] at hi

/-- The same positions, but for ties. -/
structure Agree (threshold : Int64) (made l l' : List (Position I)) : Prop where
  weights_eq : l.map (·.weight) = l'.map (·.weight)
  left : ∀ p ∈ l, p ∈ l' ∨ Tied threshold made l p
  right : ∀ p ∈ l', p ∈ l ∨ Tied threshold made l' p
  eq_of_nodup : (maxima threshold made).Nodup → l = l'

omit [DecidableEq I] in
/-- If one of two lists of the same weights has a position that the other one has not, then the other one
has one of the same weight that is not in the first. -/
theorem exists_instead {l l' : List (Position I)} (hd' : (identities l').Nodup)
    (hw : l.map (·.weight) = l'.map (·.weight)) {p : Position I} (hp : p ∈ l)
    (hnot : p ∉ l') : ∃ p' ∈ l', p' ∉ l ∧ p'.weight = p.weight := by
  classical
  by_contra hnone
  push Not at hnone
  have hcount := congrArg (List.count p.weight) hw
  rw [List.count_eq_length_filter, List.count_eq_length_filter, List.filter_map, List.filter_map,
    List.length_map, List.length_map] at hcount
  set same := (l.filter ((· == p.weight) ∘ Position.weight)) with hsame
  set same' := (l'.filter ((· == p.weight) ∘ Position.weight)) with hsame'
  have hmem : p ∈ same := by simp [hsame, hp]
  have hsub : same' ⊆ same.erase p := by
    intro q hq
    obtain ⟨hql, hqw⟩ := List.mem_filter.mp hq
    have hqw : q.weight = p.weight := by simpa using hqw
    have hqp : q ≠ p := fun he => hnot (he ▸ hql)
    refine (List.mem_erase_of_ne hqp).mpr (List.mem_filter.mpr ⟨?_, by simpa using hqw⟩)
    by_contra hql'
    exact hnone q hql hql' hqw
  have hnodup : same'.Nodup := (List.Nodup.of_map _ hd').filter _
  have hle := (List.subperm_of_subset hnodup hsub).length_le
  have hpos := List.length_pos_of_mem hmem
  rw [List.length_erase_of_mem hmem] at hle
  omega

/-- Best weights that differ belong to one identity each. -/
theorem eq_of_best?_eq {threshold : Int64} {made : List (Position I)}
    (hd : (maxima threshold made).Nodup) {identity identity' : I} {w : Int64}
    (h : best? threshold made identity = some w) (h' : best? threshold made identity' = some w) :
    identity = identity' := by
  have hmem : ∀ {i : I}, best? threshold made i = some w → i ∈ contenders threshold made := by
    intro i hi
    obtain ⟨hoffer, ht, -⟩ := best?_eq_some.mp hi
    exact mem_contenders.mpr ⟨_, hoffer, rfl, ht⟩
  by_contra hne
  have hsymm : Std.Symm fun i j => ∀ v, best? threshold made i = some v →
      ∀ v', best? threshold made j = some v' → v ≠ v' :=
    ⟨fun i j hij v hv v' hv' => (hij v' hv' v hv).symm⟩
  exact (List.pairwise_filterMap.mp hd).forall (hmem h) (hmem h') hne w h w h' rfl

namespace IsTop

variable {capacity : Nat} {threshold : Int64} {made l l' : List (Position I)}

omit [DecidableEq I] in
/-- An identity that both rank has the same weight in both. -/
theorem mem_of_mem_identities {offers : Set (Position I)} (h : IsTop capacity threshold offers l)
    (h' : IsTop capacity threshold offers l') {p : Position I} (hp : p ∈ l)
    (hi : p.identity ∈ identities l') : p ∈ l' := by
  obtain ⟨p', hp', hpi⟩ := mem_identities.mp hi
  have hle := h'.heaviest p' hp' p (h.offered p hp).1 hpi.symm
  have hge := h.heaviest p hp p' (h'.offered p' hp').1 hpi
  have hpe : p' = p := Position.ext (Int64.le_antisymm hge hle) hpi
  exact hpe ▸ hp'

/-- A position of one ranking is in the other one, or there is a tie. -/
theorem mem_or_tied (h : IsTop capacity threshold (offerSet made) l)
    (h' : IsTop capacity threshold (offerSet made) l') {p : Position I} (hp : p ∈ l) :
    p ∈ l' ∨ Tied threshold made l p := by
  have hw := h.map_weight_eq h'
  rw [or_iff_not_imp_left]
  intro hnot
  have hout : p.identity ∉ identities l' := fun hi => hnot (h.mem_of_mem_identities h' hp hi)
  obtain ⟨ho, ht⟩ := h.offered p hp
  refine ⟨fun q hq => ?_, ?_⟩
  · obtain ⟨q', hq', hqe⟩ := List.mem_map.mp (hw ▸ List.mem_map_of_mem hq : q.weight ∈ l'.map _)
    exact hqe ▸ (h'.left_out p ho ht hout).2 q' hq'
  · obtain ⟨p', hp', hnot', hpe⟩ := exists_instead h'.distinct hw hp hnot
    refine ⟨p'.identity, fun hi => hnot' (h'.mem_of_mem_identities h hp' hi), ?_⟩
    rw [h'.best?_eq hp', hpe]

/-- Best weights that differ leave no choice. -/
theorem eq_of_nodup (h : IsTop capacity threshold (offerSet made) l)
    (h' : IsTop capacity threshold (offerSet made) l') (hd : (maxima threshold made).Nodup) :
    l = l' := by
  have hw := h.map_weight_eq h'
  have hlen : l.length = l'.length := by simpa using congrArg List.length hw
  refine List.ext_getElem hlen fun i hi hi' => ?_
  have hwi : l[i].weight = l'[i].weight := by
    have := List.getElem_of_eq hw (i := i) (by simpa using hi)
    simpa using this
  have hbest := h.best?_eq (List.getElem_mem hi)
  have hbest' := h'.best?_eq (List.getElem_mem hi')
  exact Position.ext hwi (eq_of_best?_eq hd hbest (hwi ▸ hbest'))

/-- **The same offers leave the same positions**, but for ties. -/
theorem agree (h : IsTop capacity threshold (offerSet made) l)
    (h' : IsTop capacity threshold (offerSet made) l') :
    Agree threshold made l.reverse l'.reverse where
  weights_eq := by rw [List.map_reverse, List.map_reverse, h.map_weight_eq h']
  left := fun p hp => by
    rw [List.mem_reverse] at hp ⊢
    exact (h.mem_or_tied h' hp).imp_right (·.reverse)
  right := fun p hp => by
    rw [List.mem_reverse] at hp ⊢
    exact (h'.mem_or_tied h hp).imp_right (·.reverse)
  eq_of_nodup := fun hd => congrArg List.reverse (h.eq_of_nodup h' hd)

end IsTop

end WindowedMetrics
