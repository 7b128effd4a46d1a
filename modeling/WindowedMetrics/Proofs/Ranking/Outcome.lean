import Mathlib.Data.List.Nodup
import WindowedMetrics.Ranking.Basic

/-!
# What an offer does

`Outcome` lists what can become of an offer to a ranking, with what is known in each case;
`outcome_offer` says that there is nothing else, for any ranking.  What is said about offers elsewhere
goes through it.
-/

namespace WindowedMetrics

attribute [ext] Position Ranking

/-- The greater of two weights is their least upper bound. -/
instance lawfulOrderMaxInt64 : Std.LawfulOrderMax Int64 := by
  refine .of_max_le_iff (fun a b c => ?_) (fun a b => ?_)
  · change (if a ≤ b then b else a) ≤ c ↔ a ≤ c ∧ b ≤ c
    split_ifs with h
    · exact ⟨fun hb => ⟨Int64.le_trans h hb, hb⟩, fun hab => hab.2⟩
    · have hba : b ≤ a := Int64.le_of_lt (Int64.not_le.mp h)
      exact ⟨fun ha => ⟨ha, Int64.le_trans hba ha⟩, fun hab => hab.1⟩
  · change (if a ≤ b then b else a) = a ∨ (if a ≤ b then b else a) = b
    split_ifs
    · exact Or.inr rfl
    · exact Or.inl rfl

variable {I : Type}

/-- The identities of positions, in their order. -/
def identities (l : List (Position I)) : List I := l.map (·.identity)

/-- Not getting lighter. -/
def Ascending (l : List (Position I)) : Prop := l.Pairwise fun p q => p.weight ≤ q.weight

@[simp] theorem identities_cons (p : Position I) (l : List (Position I)) :
    identities (p :: l) = p.identity :: identities l := rfl

theorem mem_identities {l : List (Position I)} {identity : I} :
    identity ∈ identities l ↔ ∃ p ∈ l, p.identity = identity := List.mem_map

theorem identity_mem {l : List (Position I)} {p : Position I} (h : p ∈ l) :
    p.identity ∈ identities l := List.mem_map_of_mem h

/-- With distinct identities a position is known by its identity. -/
theorem eq_of_identity_eq {l : List (Position I)} (hd : (identities l).Nodup) {p q : Position I}
    (hp : p ∈ l) (hq : q ∈ l) (h : p.identity = q.identity) : p = q :=
  List.inj_on_of_nodup_map hd hp hq h

namespace Ranking

/-! ### Placing a position -/

theorem mem_place {p q : Position I} {l : List (Position I)} : q ∈ place p l ↔ q = p ∨ q ∈ l := by
  rw [(place_perm p l).mem_iff, List.mem_cons]

theorem identities_place_perm (p : Position I) (l : List (Position I)) :
    (identities (place p l)).Perm (p.identity :: identities l) := (place_perm p l).map _

theorem ascending_place (p : Position I) {l : List (Position I)} (h : Ascending l) :
    Ascending (place p l) := by
  induction l with
  | nil => exact List.pairwise_singleton _ _
  | cons q l ih =>
    obtain ⟨hq, hl⟩ := List.pairwise_cons.mp h
    unfold place
    split_ifs with hlt
    · -- `p` goes in front of `q`, which is in front of the rest
      refine List.pairwise_cons.mpr ⟨fun x hx => ?_, h⟩
      rcases List.mem_cons.mp hx with rfl | hx
      · exact Int64.le_of_lt hlt
      · exact Int64.le_trans (Int64.le_of_lt hlt) (hq x hx)
    · refine List.pairwise_cons.mpr ⟨fun x hx => ?_, ih hl⟩
      rcases mem_place.mp hx with rfl | hx
      · exact Int64.not_lt.mp hlt
      · exact hq x hx

variable [DecidableEq I]

/-! ### Looking for an identity -/

theorem weightOf?_eq_none {r : Ranking I} {identity : I} :
    r.weightOf? identity = none ↔ identity ∉ identities r.positions := by
  simp [weightOf?, mem_identities]

theorem mem_of_weightOf? {r : Ranking I} {identity : I} {w : Int64}
    (h : r.weightOf? identity = some w) : ⟨w, identity⟩ ∈ r.positions := by
  obtain ⟨p, hp, rfl⟩ := Option.map_eq_some_iff.mp h
  have hi : p.identity = identity := by simpa using List.find?_some hp
  subst hi
  exact List.mem_of_find?_eq_some hp

theorem without_sublist (r : Ranking I) (identity : I) :
    (r.without identity).Sublist r.positions := List.eraseP_sublist

theorem length_without {r : Ranking I} {identity : I} (h : identity ∈ identities r.positions) :
    (r.without identity).length + 1 = r.positions.length := by
  obtain ⟨p, hp, hi⟩ := mem_identities.mp h
  have hpos : 0 < r.positions.length := List.length_pos_of_mem hp
  have hlen : (r.without identity).length = r.positions.length - 1 :=
    List.length_eraseP_of_mem hp (by simpa using hi)
  omega

theorem mem_without {r : Ranking I} (hd : (identities r.positions).Nodup) {identity : I}
    {q : Position I} : q ∈ r.without identity ↔ q ∈ r.positions ∧ q.identity ≠ identity := by
  obtain ⟨capacity, threshold, l⟩ := r
  unfold without identities at *
  dsimp only at hd ⊢
  induction l with
  | nil => simp
  | cons p l ih =>
    obtain ⟨hp, hl⟩ := List.nodup_cons.mp hd
    by_cases hi : p.identity = identity
    · -- the others have other identities
      have hne : ∀ x ∈ l, x.identity ≠ identity := fun x hx he =>
        hp (List.mem_map.mpr ⟨x, hx, he.trans hi.symm⟩)
      rw [List.eraseP_cons_of_pos (by simpa using hi), List.mem_cons]
      constructor
      · exact fun hq => ⟨Or.inr hq, hne q hq⟩
      · rintro ⟨rfl | hq, h⟩
        · exact absurd hi h
        · exact hq
    · rw [List.eraseP_cons_of_neg (by simpa using hi), List.mem_cons, List.mem_cons, ih hl]
      constructor
      · rintro (rfl | ⟨hq, h⟩)
        · exact ⟨Or.inl rfl, hi⟩
        · exact ⟨Or.inr hq, h⟩
      · rintro ⟨rfl | hq, h⟩
        · exact Or.inl rfl
        · exact Or.inr ⟨hq, h⟩

/-! ### The outcomes -/

/-- What can become of an offer: the verdict and the positions afterwards. -/
inductive Outcome (r : Ranking I) (weight : Int64) (identity : I) :
    Verdict → List (Position I) → Prop
  /-- Below the threshold, or no position is kept at all. -/
  | refused (h : weight < r.threshold ∨ r.capacity = 0) :
      Outcome r weight identity .tooSmall r.positions
  | duplicate (ranked : Int64) (hmem : ⟨ranked, identity⟩ ∈ r.positions) (hle : weight ≤ ranked)
      (ht : r.threshold ≤ weight) : Outcome r weight identity .duplicate r.positions
  | raised (ranked : Int64) (hmem : ⟨ranked, identity⟩ ∈ r.positions) (hlt : ranked < weight)
      (ht : r.threshold ≤ weight) :
      Outcome r weight identity .inserted (place ⟨weight, identity⟩ (r.without identity))
  | outweighed (lightest : Position I) (rest : List (Position I))
      (hpos : r.positions = lightest :: rest) (hnew : identity ∉ identities r.positions)
      (hfull : r.capacity ≤ r.positions.length) (hle : weight ≤ lightest.weight)
      (ht : r.threshold ≤ weight) : Outcome r weight identity .tooSmall r.positions
  | evicting (lightest : Position I) (rest : List (Position I))
      (hpos : r.positions = lightest :: rest) (hnew : identity ∉ identities r.positions)
      (hfull : r.capacity ≤ r.positions.length) (hlt : lightest.weight < weight)
      (ht : r.threshold ≤ weight) :
      Outcome r weight identity .inserted (place ⟨weight, identity⟩ rest)
  | admitted (hnew : identity ∉ identities r.positions)
      (hroom : r.positions.length < r.capacity) (ht : r.threshold ≤ weight) :
      Outcome r weight identity .inserted (place ⟨weight, identity⟩ r.positions)

theorem outcome_offer (r : Ranking I) (weight : Int64) (identity : I) :
    Outcome r weight identity (r.offer weight identity).1 (r.offer weight identity).2.positions := by
  unfold offer
  by_cases h0 : weight < r.threshold ∨ r.capacity = 0
  · rw [if_pos h0]
    exact .refused h0
  rw [if_neg h0]
  have hc : r.capacity ≠ 0 := fun h => h0 (Or.inr h)
  have ht : r.threshold ≤ weight := Int64.not_lt.mp fun h => h0 (Or.inl h)
  cases hw : r.weightOf? identity with
  | some ranked =>
    have hmem := mem_of_weightOf? hw
    by_cases hle : weight ≤ ranked
    · simp only [if_pos hle]
      exact .duplicate ranked hmem hle ht
    · simp only [if_neg hle]
      exact .raised ranked hmem (Int64.not_le.mp hle) ht
  | none =>
    have hnew := weightOf?_eq_none.mp hw
    by_cases hfull : r.isFull
    · have hlen : r.capacity ≤ r.positions.length := by simpa [isFull] using hfull
      simp only [if_pos hfull]
      cases hpos : r.positions with
      | nil =>
        -- a full ranking that keeps positions has one
        rw [hpos, List.length_nil] at hlen
        omega
      | cons lightest rest =>
        by_cases hle : weight ≤ lightest.weight
        · simp only [if_pos hle]
          exact .outweighed lightest rest hpos hnew hlen hle ht
        · simp only [if_neg hle]
          exact .evicting lightest rest hpos hnew hlen (Int64.not_le.mp hle) ht
    · have hroom : r.positions.length < r.capacity := by simpa [isFull] using hfull
      simp only [if_neg hfull]
      exact .admitted hnew hroom ht

theorem outcome_add (r : Ranking I) (weight : Int64) (identity : I) :
    ∃ v, Outcome r weight identity v (r.add weight identity).positions :=
  ⟨_, outcome_offer r weight identity⟩

@[simp] theorem capacity_add (r : Ranking I) (w : Int64) (identity : I) :
    (r.add w identity).capacity = r.capacity := r.capacity_offer w identity

@[simp] theorem threshold_add (r : Ranking I) (w : Int64) (identity : I) :
    (r.add w identity).threshold = r.threshold := r.threshold_offer w identity

theorem add_eq_self {r : Ranking I} {w : Int64} {identity : I}
    (h : (r.add w identity).positions = r.positions) : r.add w identity = r :=
  Ranking.ext (r.capacity_add w identity) (r.threshold_add w identity) h

theorem ascending_add {r : Ranking I} (h : Ascending r.positions) (w : Int64) (identity : I) :
    Ascending (r.add w identity).positions := by
  obtain ⟨v, ho⟩ := r.outcome_add w identity
  generalize (r.add w identity).positions = l at ho
  cases ho with
  | refused | duplicate | outweighed => exact h
  | raised => exact ascending_place _ (h.sublist (r.without_sublist identity))
  | evicting lightest rest hpos =>
    rw [hpos] at h
    exact ascending_place _ (List.pairwise_cons.mp h).2
  | admitted => exact ascending_place _ h

end Ranking

end WindowedMetrics
