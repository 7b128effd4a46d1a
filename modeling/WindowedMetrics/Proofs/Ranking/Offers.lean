import Mathlib.Data.List.Induction
import WindowedMetrics.Proofs.Ranking.Top

/-!
# Sequences of offers

A ranking that starts empty holds, after any offers, the heaviest of them (`isTop_addAll`).  So its
positions are known from the offers alone, up to the order and the choice among equal weights, and a
permutation of the offers changes no more than that (`top_of_offers`).
-/

namespace WindowedMetrics.Ranking

variable {I : Type} [DecidableEq I]

/-- Offer positions one by one. -/
def addAll (r : Ranking I) (offers : List (Position I)) : Ranking I :=
  offers.foldl (fun r o => r.add o.weight o.identity) r

omit [DecidableEq I] in
/-- The positions heavier than the lightest one. -/
def aboveLightest (r : Ranking I) : List (Position I) :=
  r.positions.filter fun p => r.positions.any fun q => q.weight < p.weight

@[simp] theorem addAll_cons (r : Ranking I) (o : Position I) (offers : List (Position I)) :
    r.addAll (o :: offers) = (r.add o.weight o.identity).addAll offers := rfl

theorem addAll_concat (r : Ranking I) (offers : List (Position I)) (o : Position I) :
    r.addAll (offers ++ [o]) = (r.addAll offers).add o.weight o.identity := by
  simp [addAll]

theorem addAll_append (r : Ranking I) (offers others : List (Position I)) :
    r.addAll (offers ++ others) = (r.addAll offers).addAll others := List.foldl_append

theorem ascending_addAll {r : Ranking I} (h : Ascending r.positions) (offers : List (Position I)) :
    Ascending (r.addAll offers).positions := by
  induction offers generalizing r with
  | nil => exact h
  | cons o offers ih => exact ih (ascending_add h o.weight o.identity)

@[simp] theorem capacity_addAll (r : Ranking I) (offers : List (Position I)) :
    (r.addAll offers).capacity = r.capacity := by
  induction offers generalizing r with
  | nil => rfl
  | cons o offers ih => rw [addAll_cons, ih, capacity_add]

@[simp] theorem threshold_addAll (r : Ranking I) (offers : List (Position I)) :
    (r.addAll offers).threshold = r.threshold := by
  induction offers generalizing r with
  | nil => rfl
  | cons o offers ih => rw [addAll_cons, ih, threshold_add]

/-- Offers to a ranking that holds the heaviest of earlier ones. -/
theorem isTop_addAll {r : Ranking I} {before : Set (Position I)}
    (h : IsTop r.capacity r.threshold before r.positions) (offers : List (Position I)) :
    IsTop r.capacity r.threshold (before ∪ offerSet offers) (r.addAll offers).positions := by
  induction offers using List.reverseRecOn with
  | nil => exact h.congr fun p => by simp
  | append_singleton offers o ih =>
    rw [addAll_concat]
    have hstep := IsTop.offer (r := r.addAll offers) (by simpa using ih) o.weight o.identity
    rw [capacity_addAll, threshold_addAll] at hstep
    refine hstep.congr fun p => ?_
    simp only [Set.mem_insert_iff, Set.mem_union, Set.mem_ofPred_eq, List.mem_append,
      List.mem_singleton]
    tauto

theorem isTop_addAll_blank (capacity : Nat) (threshold : Int64) (offers : List (Position I)) :
    IsTop capacity threshold (offerSet offers)
      ((blank capacity threshold : Ranking I).addAll offers).positions :=
  (isTop_addAll (r := blank capacity threshold) (IsTop.empty _ _) offers).congr fun p => by simp

omit [DecidableEq I] in
theorem mem_aboveLightest {r : Ranking I} {p : Position I} :
    p ∈ r.aboveLightest ↔ p ∈ r.positions ∧ ∃ q ∈ r.positions, q.weight < p.weight := by
  simp [aboveLightest]

/-- **The positions after any offers**: one for each ranked identity, with its best weight, and as many
as there are contenders or room for; who is not ranked is not heavier than anybody who is.  The same
offers in another order lead to the same weights, and to the same positions above the lightest. -/
theorem top_of_offers (capacity : Nat) (threshold : Int64) (offers : List (Position I)) :
    let r := (blank capacity threshold).addAll offers
    (identities r.positions).Nodup ∧ Ascending r.positions ∧
      (∀ p ∈ r.positions, best? threshold offers p.identity = some p.weight) ∧
      r.positions.length = min capacity (contenders threshold offers).length ∧
      (∀ identity w, best? threshold offers identity = some w →
        identity ∉ identities r.positions → ∀ p ∈ r.positions, w ≤ p.weight) ∧
      ∀ other : List (Position I), other.Perm offers →
        let r' := (blank capacity threshold).addAll other
        r'.positions.map (·.weight) = r.positions.map (·.weight) ∧
          ∀ p, p ∈ r'.aboveLightest ↔ p ∈ r.aboveLightest := by
  intro r
  have h : IsTop capacity threshold (offerSet offers) r.positions :=
    isTop_addAll_blank capacity threshold offers
  refine ⟨h.distinct, h.ascending, fun p hp => h.best?_eq hp, h.length_eq, ?_, ?_⟩
  · intro identity w hb hnot p hp
    obtain ⟨hmem, ht, -⟩ := best?_eq_some.mp hb
    exact (h.left_out _ hmem ht hnot).2 p hp
  · intro other hperm r'
    have h' : IsTop capacity threshold (offerSet offers) r'.positions :=
      (isTop_addAll_blank capacity threshold other).congr fun p => hperm.mem_iff
    have hw := h'.map_weight_eq h
    refine ⟨hw, fun p => ?_⟩
    rw [mem_aboveLightest, mem_aboveLightest]
    exact ⟨fun ⟨hp, q, hq, hlt⟩ => h'.above_lightest h hw hp hq hlt,
      fun ⟨hp, q, hq, hlt⟩ => h.above_lightest h' hw.symm hp hq hlt⟩

/-- An identity comes back heavier after it was left out. -/
theorem top_of_offers_comeback :
    let offers : List (Position Nat) := [⟨5, 1⟩, ⟨7, 2⟩, ⟨8, 3⟩, ⟨9, 1⟩]
    let other : List (Position Nat) := [⟨9, 1⟩, ⟨7, 2⟩, ⟨5, 1⟩, ⟨8, 3⟩]
    other.Perm offers ∧ ((blank 2 0).addAll offers).positions = [⟨8, 3⟩, ⟨9, 1⟩] ∧
      ((blank 2 0).addAll other).positions.map (·.weight) =
        ((blank 2 0).addAll offers).positions.map (·.weight) := by
  intro offers other
  have hperm : other.Perm offers := by decide
  exact ⟨hperm, by decide, ((top_of_offers 2 0 offers).2.2.2.2.2 other hperm).1⟩

end WindowedMetrics.Ranking
