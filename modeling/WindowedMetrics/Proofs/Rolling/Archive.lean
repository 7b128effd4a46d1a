import Mathlib.Data.Nat.ModEq
import WindowedMetrics.Proofs.Intervals
import WindowedMetrics.Proofs.Ranking.Merge
import WindowedMetrics.Ranking.Chunked

/-!
# The archive of a rolling ranking

While interval `k` runs, a slot of the archive belongs to the last interval before `k` that was archived
there, and every interval of that slot since then has seen no offers (`Archived.Holds`).  Its expiry tells
which interval it is: the slot is visible if and only if that interval is in the window
(`Archived.Holds.keeps_of_mem_window`, `Archived.Holds.not_visible`).  Therefore reading the ring from the
slot of the running interval around finds the intervals of the window, and no other.
-/

namespace WindowedMetrics

variable {I : Type}

/-! ### Rankings of given sizes -/

/-- A ranking of the sizes of the settings that holds the heaviest of some offers. -/
structure Ranking.Keeps (r : Ranking I) (settings : RankingSettings) (offers : Set (Position I)) :
    Prop where
  capacity_eq : r.capacity = settings.capacity
  threshold_eq : r.threshold = settings.threshold
  top : IsTop settings.capacity settings.threshold offers r.positions

namespace Ranking

variable {settings : RankingSettings} {offers others : Set (Position I)} {r other : Ranking I}

theorem Keeps.reset_eq (h : r.Keeps settings offers) :
    r.reset = blank settings.capacity settings.threshold :=
  Ranking.ext h.capacity_eq h.threshold_eq rfl

theorem Keeps.congr {offers' : Set (Position I)} (h : r.Keeps settings offers)
    (he : ∀ p, p ∈ offers ↔ p ∈ offers') : r.Keeps settings offers' := Set.ext he ▸ h

theorem keeps_blank (settings : RankingSettings) :
    (blank settings.capacity settings.threshold : Ranking I).Keeps settings ∅ :=
  ⟨rfl, rfl, IsTop.empty _ _⟩

variable [DecidableEq I]

theorem Keeps.add (h : r.Keeps settings offers) (w : Int64) (identity : I) :
    (r.add w identity).Keeps settings (insert ⟨w, identity⟩ offers) := by
  obtain ⟨hc, ht, htop⟩ := h
  rw [← hc, ← ht] at htop
  have hadd := htop.offer w identity
  rw [hc, ht] at hadd
  exact ⟨(r.capacity_add w identity).trans hc, (r.threshold_add w identity).trans ht, hadd⟩

theorem Keeps.mergeInto (h : r.Keeps settings offers) (ho : other.Keeps settings others) :
    (r.mergeInto other).Keeps settings (others ∪ offers) := by
  obtain ⟨hc, ht, htop⟩ := h
  obtain ⟨hc', ht', htop'⟩ := ho
  have hr : IsTop r.capacity r.threshold offers r.positions := hc ▸ ht ▸ htop
  have hother : IsTop other.capacity other.threshold others other.positions := hc' ▸ ht' ▸ htop'
  have hmerge := isTop_mergeInto hr hother (Nat.le_of_eq (hc'.trans hc.symm))
    (ht.trans ht'.symm ▸ Int64.le_refl _)
  rw [hc', ht'] at hmerge
  exact ⟨(capacity_mergeInto htop.ascending htop'.ascending).trans hc',
    (threshold_mergeInto htop.ascending htop'.ascending).trans ht', hmerge⟩

end Ranking

/-! ### Slots -/

/-- What is fixed when a rolling ranking is created. -/
structure Plan where
  settings : RankingSettings
  creation : Nat
  interval : Nat
  archiveSize : Nat

/-- The instant at which an interval starts. -/
def Plan.start (plan : Plan) (k : Nat) : Nat := startOf plan.creation plan.interval k

theorem Plan.start_mono (plan : Plan) {i j : Nat} (h : i ≤ j) : plan.start i ≤ plan.start j :=
  startOf_mono h

/-- What a slot of the archive holds while interval `k` runs. -/
inductive Archived.Holds (a : Archived I) (plan : Plan) (offers : Nat → Set (Position I))
    (k slot : Nat) : Prop
  /-- No interval of the slot has been archived. -/
  | vacant (hexpiry : a.expiry = 0) (hkeeps : a.ranking.Keeps plan.settings ∅)
      (hnone : ∀ j < k, j % plan.archiveSize = slot → offers j = ∅)
  /-- Interval `j` was the last. -/
  | filled (j : Nat) (hlt : j < k) (hslot : j % plan.archiveSize = slot)
      (hexpiry : a.expiry = plan.start (j + plan.archiveSize))
      (hkeeps : a.ranking.Keeps plan.settings (offers j))
      (hnone : ∀ i, j < i → i < k → i % plan.archiveSize = slot → offers i = ∅)

namespace Archived.Holds

variable {a : Archived I} {plan : Plan} {offers : Nat → Set (Position I)} {k slot now : Nat}

theorem congr {offers' : Nat → Set (Position I)} (h : a.Holds plan offers k slot)
    (he : ∀ j < k, offers' j = offers j) : a.Holds plan offers' k slot := by
  cases h with
  | vacant hexpiry hkeeps hnone =>
    exact .vacant hexpiry hkeeps fun j hj hs => (he j hj).trans (hnone j hj hs)
  | filled j hlt hslot hexpiry hkeeps hnone =>
    refine .filled j hlt hslot hexpiry (he j hlt ▸ hkeeps) fun i hij hi hs => ?_
    exact (he i hi).trans (hnone i hij hi hs)

/-- Nothing is archived in a slot by intervals without offers. -/
theorem idle {k' : Nat} (h : a.Holds plan offers k slot) (hk : k ≤ k')
    (hnone : ∀ i, k ≤ i → i < k' → i % plan.archiveSize = slot → offers i = ∅) :
    a.Holds plan offers k' slot := by
  cases h with
  | vacant hexpiry hkeeps hbefore =>
    refine .vacant hexpiry hkeeps fun j hj hs => ?_
    rcases Nat.lt_or_ge j k with hjk | hkj
    · exact hbefore j hjk hs
    · exact hnone j hkj hj hs
  | filled j hlt hslot hexpiry hkeeps hbefore =>
    refine .filled j (by omega) hslot hexpiry hkeeps fun i hij hi hs => ?_
    rcases Nat.lt_or_ge i k with hik | hki
    · exact hbefore i hij hik hs
    · exact hnone i hki hi hs

theorem reset_eq (h : a.Holds plan offers k slot) :
    a.ranking.reset = Ranking.blank plan.settings.capacity plan.settings.threshold := by
  cases h with
  | vacant _ hkeeps => exact hkeeps.reset_eq
  | filled _ _ _ _ hkeeps => exact hkeeps.reset_eq

/-- The slot of an interval in the window shows that interval, unless it has seen no offers. -/
theorem keeps_of_mem_window {j : Nat} (h : a.Holds plan offers k (j % plan.archiveSize)) (hj : j < k)
    (hw : k < j + plan.archiveSize) (hnow : RunsAt plan.creation plan.interval k now) :
    if now < a.expiry then a.ranking.Keeps plan.settings (offers j) else offers j = ∅ := by
  have hstart : plan.start k ≤ now := hnow.start_le
  have hend : now < plan.start (k + 1) := hnow.lt_end
  cases h with
  | vacant hexpiry hkeeps hnone =>
    rw [if_neg (by omega)]
    exact hnone j hj rfl
  | filled i hlt hslot hexpiry hkeeps hnone =>
    rcases Nat.lt_trichotomy i j with hij | rfl | hji
    · -- the slot still shows an interval of an earlier round, which has expired
      have hround := Nat.ModEq.add_le_of_lt hslot hij
      have hle := plan.start_mono (i := i + plan.archiveSize) (j := k) (by omega)
      rw [if_neg (by omega)]
      exact hnone j hij hj rfl
    · have hle := plan.start_mono (i := k + 1) (j := i + plan.archiveSize) (by omega)
      rw [if_pos (by omega)]
      exact hkeeps
    · have hround := Nat.ModEq.add_le_of_lt hslot.symm hji
      omega

/-- A slot that no interval of the window has is not visible. -/
theorem not_visible {m : Nat} (h : a.Holds plan offers k (m % plan.archiveSize))
    (hm : m ≤ k + plan.archiveSize) (hkm : k < m) (hout : ∀ j < k, j + plan.archiveSize ≠ m)
    (hstart : plan.start k ≤ now) : ¬ now < a.expiry := by
  cases h with
  | vacant hexpiry => omega
  | filled i hlt hslot hexpiry =>
    have hround := Nat.ModEq.add_le_of_lt hslot (hlt.trans hkm)
    have hne := hout i hlt
    have hround' : i + plan.archiveSize + plan.archiveSize ≤ m :=
      Nat.ModEq.add_le_of_lt (Nat.add_modEq_right.trans hslot) (by omega)
    have hle := plan.start_mono (i := i + plan.archiveSize) (j := k) (by omega)
    omega

end Archived.Holds

/-! ### The ring -/

/-- What the archive holds while interval `k` runs. -/
structure ArchiveHolds (archive : Array (Archived I)) (plan : Plan) (offers : Nat → Set (Position I))
    (k : Nat) : Prop where
  size_eq : archive.size = plan.archiveSize
  slots : ∀ slot < plan.archiveSize, ∃ a, archive[slot]? = some a ∧ a.Holds plan offers k slot

namespace ArchiveHolds

variable {archive : Array (Archived I)} {plan : Plan} {offers : Nat → Set (Position I)} {k now : Nat}

theorem create (plan : Plan) (offers : Nat → Set (Position I)) :
    ArchiveHolds (Array.replicate plan.archiveSize
      { ranking := Ranking.blank plan.settings.capacity plan.settings.threshold }) plan offers 0 where
  size_eq := Array.size_replicate
  slots := by
    intro slot hslot
    refine ⟨_, Array.getElem?_replicate.trans (if_pos hslot), ?_⟩
    exact .vacant rfl (Ranking.keeps_blank _) fun j hj => absurd hj (Nat.not_lt_zero j)

theorem congr {offers' : Nat → Set (Position I)} (h : ArchiveHolds archive plan offers k)
    (he : ∀ j < k, offers' j = offers j) : ArchiveHolds archive plan offers' k where
  size_eq := h.size_eq
  slots := by
    intro slot hslot
    obtain ⟨a, ha, hholds⟩ := h.slots slot hslot
    exact ⟨a, ha, hholds.congr he⟩

theorem idle {k' : Nat} (h : ArchiveHolds archive plan offers k) (hk : k ≤ k')
    (hnone : ∀ i, k ≤ i → i < k' → offers i = ∅) : ArchiveHolds archive plan offers k' where
  size_eq := h.size_eq
  slots := by
    intro slot hslot
    obtain ⟨a, ha, hholds⟩ := h.slots slot hslot
    exact ⟨a, ha, hholds.idle hk fun i hki hi _ => hnone i hki hi⟩

/-- The slot that a number leads to. -/
theorem slot_mod (h : ArchiveHolds archive plan offers k) (hpos : 0 < plan.archiveSize) (m : Nat) :
    ∃ a, archive[m % plan.archiveSize]? = some a ∧
      a.Holds plan offers k (m % plan.archiveSize) :=
  h.slots _ (Nat.mod_lt _ hpos)

theorem holds_of_getElem? (h : ArchiveHolds archive plan offers k) {slot : Nat} {a : Archived I}
    (ha : archive[slot]? = some a) : a.Holds plan offers k slot := by
  obtain ⟨hslot, -⟩ := Array.getElem?_eq_some_iff.mp ha
  obtain ⟨b, hb, hholds⟩ := h.slots slot (h.size_eq ▸ hslot)
  rwa [← Option.some.inj (ha.symm.trans hb)] at hholds

/-- **Archiving** the interval that ends. -/
theorem store (h : ArchiveHolds archive plan offers k) {ranking : Ranking I}
    (hr : ranking.Keeps plan.settings (offers k)) :
    ArchiveHolds (archive.setIfInBounds (k % plan.archiveSize)
      { ranking, expiry := plan.start (k + plan.archiveSize) }) plan offers (k + 1) where
  size_eq := Array.size_setIfInBounds.trans h.size_eq
  slots := by
    intro slot hslot
    by_cases heq : k % plan.archiveSize = slot
    · subst heq
      refine ⟨_, Array.getElem?_setIfInBounds_self_of_lt (h.size_eq.symm ▸ hslot), ?_⟩
      exact .filled k (Nat.lt_succ_self k) rfl rfl hr fun i hki hi => by omega
    · obtain ⟨a, ha, hholds⟩ := h.slots slot hslot
      refine ⟨a, (Array.getElem?_setIfInBounds_ne heq).trans ha, hholds.idle (Nat.le_succ k) ?_⟩
      intro i hki hi hs
      obtain rfl : i = k := by omega
      exact absurd hs heq

end ArchiveHolds

/-! ### Reading the ring -/

section Merge

variable [DecidableEq I] {archive : Array (Archived I)} {plan : Plan}
  {offers : Nat → Set (Position I)} {k now : Nat}

/-- What is merged from the slot of an interval in the window. -/
theorem Archived.Holds.keeps_merged {a : Archived I} {j : Nat}
    (h : a.Holds plan offers k (j % plan.archiveSize)) (hj : j < k) (hw : k < j + plan.archiveSize)
    (hnow : RunsAt plan.creation plan.interval k now) {merged : Ranking I} {others : Set (Position I)}
    (hmerged : merged.Keeps plan.settings others) :
    (if now < a.expiry then a.ranking.mergeInto merged else merged).Keeps plan.settings
      (others ∪ offers j) := by
  have hshown := h.keeps_of_mem_window hj hw hnow
  by_cases hvis : now < a.expiry
  · rw [if_pos hvis] at hshown ⊢
    exact hshown.mergeInto hmerged
  · rw [if_neg hvis] at hshown ⊢
    rw [hshown, Set.union_empty]
    exact hmerged

/-- What the slots passed so far have shown, from the slot after that of the running interval on. -/
theorem ArchiveHolds.keeps_foldl (h : ArchiveHolds archive plan offers k)
    (hnow : RunsAt plan.creation plan.interval k now) (n : Nat) (hn : n ≤ plan.archiveSize) :
    (((List.range n).filterMap fun step => archive[(k + step + 1) % plan.archiveSize]?).foldl
      (fun merged a => if now < a.expiry then a.ranking.mergeInto merged else merged)
      (Ranking.blank plan.settings.capacity plan.settings.threshold)).Keeps plan.settings
      {p | ∃ j < k, k < j + plan.archiveSize ∧ j + plan.archiveSize ≤ k + n ∧ p ∈ offers j} := by
  induction n with
  | zero =>
    refine (Ranking.keeps_blank _).congr fun p => ⟨fun hp => absurd hp (Set.notMem_empty p), ?_⟩
    rintro ⟨j, -, hlt, hle, -⟩
    omega
  | succ n ih =>
    have ih := ih (by omega)
    obtain ⟨a, ha, hholds⟩ := h.slot_mod (by omega) (k + n + 1)
    rw [List.range_succ, List.filterMap_append, List.foldl_append]
    simp only [List.filterMap_cons, List.filterMap_nil, ha, List.foldl_cons, List.foldl_nil]
    by_cases hj : ∃ j < k, j + plan.archiveSize = k + n + 1
    · -- the slot of interval `j` of the window
      obtain ⟨j, hlt, hjn⟩ := hj
      rw [← hjn, Nat.add_mod_right] at hholds
      refine (hholds.keeps_merged hlt (by omega) hnow ih).congr fun p => ⟨?_, ?_⟩
      · rintro (⟨i, hi, hlo, hhi, hp⟩ | hp)
        · exact ⟨i, hi, hlo, by omega, hp⟩
        · exact ⟨j, hlt, by omega, by omega, hp⟩
      · rintro ⟨i, hi, hlo, hhi, hp⟩
        by_cases hij : i = j
        · exact Or.inr (hij ▸ hp)
        · exact Or.inl ⟨i, hi, hlo, by omega, hp⟩
    · have hvis := hholds.not_visible (by omega) (by omega) (fun j hlt hjn => hj ⟨j, hlt, hjn⟩)
        hnow.start_le
      rw [if_neg hvis]
      refine ih.congr fun p => ⟨?_, ?_⟩
      · rintro ⟨i, hi, hlo, hhi, hp⟩
        exact ⟨i, hi, hlo, by omega, hp⟩
      · rintro ⟨i, hi, hlo, hhi, hp⟩
        have hne : i + plan.archiveSize ≠ k + n + 1 := fun he => hj ⟨i, hi, he⟩
        exact ⟨i, hi, hlo, by omega, hp⟩

/-- **The archive shows the intervals of the window** before the running one. -/
theorem ChunkedRanking.keeps_mergeArchive {r : ChunkedRanking I}
    (h : ArchiveHolds r.archive plan offers k) (hk : (r.phase r.current).interval = k)
    (hcollector : r.collector.reset =
      Ranking.blank plan.settings.capacity plan.settings.threshold)
    (hnow : RunsAt plan.creation plan.interval k now) :
    (r.mergeArchive now).Keeps plan.settings
      {p | ∃ j < k, k < j + plan.archiveSize ∧ p ∈ offers j} := by
  have hfold := h.keeps_foldl hnow plan.archiveSize (Nat.le_refl _)
  unfold mergeArchive archiveFrom
  rw [hk, h.size_eq, hcollector]
  refine hfold.congr fun p => ⟨?_, ?_⟩
  · rintro ⟨j, hlt, hlo, -, hp⟩
    exact ⟨j, hlt, hlo, hp⟩
  · rintro ⟨j, hlt, hlo, hp⟩
    exact ⟨j, hlt, hlo, by omega, hp⟩

end Merge

end WindowedMetrics
