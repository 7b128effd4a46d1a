import WindowedMetrics.Proofs.Rolling.Tracking

/-!
# Rankings that read alike

What a read of a settled ranking returns depends on little: on the totals that it makes, and on what the
slots of the archive show from then on (`ReadsLike`).  Offers look at more than that: only if what is
pending in the recorder and what has been taken from it are the same apart (`SameStock`), rankings that
read alike go on to do so after an offer.

A read moves what is pending to what has been taken: the ranking reads alike afterwards, but its stock is
another one (`Tracks.paired_readOut`).  A later read does this to either of two rankings and leaves the same
stock (`Paired.readOut`), a rotation starts a new one (`Paired.advanced`).  It does not matter whether an
interval without offers is passed at once or stopped at (`Tracks.paired_advanced_advanced`).
-/

namespace WindowedMetrics

variable {I : Type}

/-! ### What slots show -/

/-- The positions that a slot shows at an instant, if there are any. -/
def Archived.shown? (now : Nat) (a : Archived I) : Option (Ranking I) :=
  if now < a.expiry ∧ a.ranking.size ≠ 0 then some a.ranking else none

theorem Ranking.Keeps.eq_blank {r : Ranking I} {settings : RankingSettings} (h : r.Keeps settings ∅) :
    r = blank settings.capacity settings.threshold := by
  refine Ranking.ext h.capacity_eq h.threshold_eq (List.eq_nil_iff_forall_not_mem.mpr fun p hp => ?_)
  exact Set.notMem_empty p (h.top.offered p hp).1

/-- Without offers a recorder and its totals are blank. -/
theorem Collects.eq_blank {settings : RankingSettings} {recorder : Recorder I} {totals : Ranking I}
    (h : Collects settings ∅ recorder totals) :
    recorder.Holds settings (Ranking.blank settings.capacity settings.threshold) ∧
      totals = Ranking.blank settings.capacity settings.threshold := by
  obtain ⟨content, taken, pending, hrec, hcontent, htotals, hoffers⟩ := h
  have hnone : ∀ p, p ∉ taken ∧ p ∉ pending := fun p => by simpa using hoffers p
  have htaken : taken = ∅ := Set.eq_empty_iff_forall_notMem.mpr fun p => (hnone p).1
  have hpending : pending = ∅ := Set.eq_empty_iff_forall_notMem.mpr fun p => (hnone p).2
  rw [htaken] at htotals
  rw [hpending] at hcontent
  exact ⟨hcontent.eq_blank ▸ hrec, htotals.eq_blank⟩

theorem Archived.Holds.shown?_eq_none {a : Archived I} {plan : Plan} {offers : Nat → Set (Position I)}
    {k slot m now : Nat} (h : a.Holds plan offers k slot) (hslot : m % plan.archiveSize = slot)
    (hm : m < k) (hnone : ∀ j, m ≤ j → offers j = ∅) (hnow : plan.start k ≤ now) :
    a.shown? now = none := by
  refine if_neg fun hs => ?_
  obtain ⟨hlt, hsize⟩ := hs
  cases h with
  | vacant hexpiry => omega
  | filled j hjk hj hexpiry hkeeps =>
    rcases Nat.lt_or_ge j m with hjm | hmj
    · -- an earlier round of the slot has expired
      have hround := Nat.ModEq.add_le_of_lt (hj.trans hslot.symm) hjm
      have hle := plan.start_mono (i := j + plan.archiveSize) (j := k) (by omega)
      omega
    · rw [hnone j hmj] at hkeeps
      rw [hkeeps.eq_blank] at hsize
      exact hsize rfl

variable [DecidableEq I]

theorem Ranking.mergeInto_of_size {r other : Ranking I} (h : r.size = 0) : r.mergeInto other = other := by
  have hnil : r.positions = [] := List.eq_nil_of_length_eq_zero h
  unfold mergeInto descending
  rw [hnil]
  rfl

namespace ChunkedRanking

omit [DecidableEq I] in
/-- What a slot of the archive shows. -/
def slotShown? (r : ChunkedRanking I) (now slot : Nat) : Option (Ranking I) :=
  (r.archive[slot]?).bind (Archived.shown? now)

theorem mergeArchive_eq (r : ChunkedRanking I) (now : Nat) :
    r.mergeArchive now = ((List.range r.archive.size).filterMap fun step =>
      r.slotShown? now (((r.phase r.current).interval + step + 1) % r.archive.size)).foldl
        (fun merged shown => shown.mergeInto merged) r.collector.reset := by
  have hfold : ∀ (archived : List (Archived I)) (merged : Ranking I),
      archived.foldl (fun merged a => if now < a.expiry then a.ranking.mergeInto merged else merged)
        merged = (archived.filterMap (Archived.shown? now)).foldl
          (fun merged shown => shown.mergeInto merged) merged := by
    intro archived
    induction archived with
    | nil => exact fun _ => rfl
    | cons a archived ih =>
      intro merged
      rw [List.foldl_cons, ih, List.filterMap_cons]
      unfold Archived.shown?
      by_cases hlt : now < a.expiry
      · by_cases hsize : a.ranking.size = 0
        · rw [if_pos hlt, if_neg fun hs => hs.2 hsize, Ranking.mergeInto_of_size hsize]
        · rw [if_pos hlt, if_pos ⟨hlt, hsize⟩, List.foldl_cons]
      · rw [if_neg hlt, if_neg fun hs => hlt hs.1]
  unfold mergeArchive archiveFrom
  rw [hfold, List.filterMap_filterMap]
  rfl

/-! ### Stock -/

/-- What the recorder of the current phase has collected. -/
def pending (r : ChunkedRanking I) : Ranking I :=
  ((r.phase r.current).recorder.takeInterval r.spare).value.1.ranking

/-- The totals of the current phase once everything has been taken. -/
def collected (r : ChunkedRanking I) : Ranking I := r.pending.mergeInto (r.totals.get r.current)

/-- The same pending and the same taken. -/
structure SameStock (s s' : ChunkedRanking I) : Prop where
  pending_eq : s.pending = s'.pending
  totals_eq : s.totals.get s.current = s'.totals.get s'.current

/-- The same totals, and the same shown by the archive from an instant on. -/
structure ReadsLike (s s' : ChunkedRanking I) (since : Nat) : Prop where
  collected_eq : s.collected = s'.collected
  shown_eq : ∀ now, since ≤ now → ∀ slot, s.slotShown? now slot = s'.slotShown? now slot

variable {s s' s'' : ChunkedRanking I} {plan : Plan} {offers : Nat → Set (Position I)} {k now : Nat}

theorem SameStock.collected_eq (h : SameStock s s') : s.collected = s'.collected := by
  unfold collected
  rw [h.pending_eq, h.totals_eq]

theorem SameStock.trans (h : SameStock s s') (h' : SameStock s' s'') : SameStock s s'' :=
  ⟨h.pending_eq.trans h'.pending_eq, h.totals_eq.trans h'.totals_eq⟩

theorem ReadsLike.trans {since : Nat} (h : ReadsLike s s' since) (h' : ReadsLike s' s'' since) :
    ReadsLike s s'' since :=
  ⟨h.collected_eq.trans h'.collected_eq,
    fun now hnow slot => (h.shown_eq now hnow slot).trans (h'.shown_eq now hnow slot)⟩

theorem pending_of_holds (settings : RankingSettings) {content : Ranking I}
    (h : (s.phase s.current).recorder.Holds settings content) : s.pending = content :=
  congrArg Interval.ranking (h.takeInterval s.spare).1

/-- Without offers the stock is blank. -/
theorem Tracks.stock_of_empty (h : s.Tracks plan offers k) (he : offers k = ∅) :
    s.pending = Ranking.blank plan.settings.capacity plan.settings.threshold ∧
      s.totals.get s.current = Ranking.blank plan.settings.capacity plan.settings.threshold := by
  have hcollects := h.collects
  rw [he] at hcollects
  exact hcollects.eq_blank.imp (pending_of_holds _) id

/-! ### Offers -/

theorem Tracks.pending_record (h : s.Tracks plan offers k) (w : Int64) (identity : I) :
    (s.record w identity).pending = s.pending.add w identity := by
  obtain ⟨content, taken, pending, hrec, hcontent, -⟩ := h.collects
  have hupdate := hrec.update hcontent.top.ascending w identity
  rw [pending_of_holds _ hrec]
  refine pending_of_holds plan.settings ?_
  show (((s.phases.set s.current _).get s.current).recorder).Holds _ _
  rw [Twin.get_set_self]
  exact hupdate

theorem SameStock.record (h : SameStock s s') (ht : s.Tracks plan offers k) (ht' : s'.Tracks plan offers k)
    (w : Int64) (identity : I) : SameStock (s.record w identity) (s'.record w identity) where
  pending_eq := by rw [ht.pending_record, ht'.pending_record, h.pending_eq]
  totals_eq := h.totals_eq

/-! ### Turning -/

theorem Tracks.advanced_eq_turn {k' : Nat} (h : s.Tracks plan offers k) (hlt : k < k')
    (hnow : RunsAt plan.creation plan.interval k' now) : s.advanced now = (s.turn now).settle := by
  refine if_pos (decide_eq_true ?_)
  rw [h.invalidation_eq]
  exact (plan.start_mono hlt).trans hnow.start_le

theorem Tracks.advanced_eq_self (h : s.Tracks plan offers k)
    (hnow : RunsAt plan.creation plan.interval k now) : s.advanced now = s := by
  refine if_neg fun he => Nat.not_lt.mpr (of_decide_eq_true he) ?_
  rw [h.invalidation_eq]
  exact hnow.lt_end

omit [DecidableEq I] in
theorem turn_congr {t : Nat} (h : s.intervalOf now = s.intervalOf t) : s.turn now = s.turn t := by
  unfold turn activate
  simp only [h, Logged.value_bind, Logged.value_pure]

/-- It does not matter at which instant of an interval a ranking gets there. -/
theorem Tracks.advanced_congr {k' t : Nat} (h : s.Tracks plan offers k) (hk : k ≤ k')
    (ht : RunsAt plan.creation plan.interval k' t) (hnow : RunsAt plan.creation plan.interval k' now) :
    s.advanced now = s.advanced t := by
  rcases Nat.lt_or_eq_of_le hk with hlt | rfl
  · have hindex : s.intervalOf now = s.intervalOf t := by
      unfold intervalOf
      rw [h.creation_eq, h.length_eq, hnow.index_eq, ht.index_eq]
    rw [h.advanced_eq_turn hlt hnow, h.advanced_eq_turn hlt ht, turn_congr hindex]
  · rw [h.advanced_eq_self hnow, h.advanced_eq_self ht]

/-- What is archived when interval `k` is over. -/
def overOf (s : ChunkedRanking I) (plan : Plan) (k : Nat) : Archived I where
  ranking := s.collected
  expiry := boundary (plan.start (k + 1)) (plan.archiveSize - 1) plan.interval

theorem Tracks.archive_turn (h : s.Tracks plan offers k) (now : Nat) :
    (s.turn now).settle.archive =
      s.archive.setIfInBounds (k % plan.archiveSize) (s.overOf plan k) := by
  rw [settle_turn h.invalidation_ne]
  show (s.stored s.current s.collected).1 = _
  unfold stored overOf
  rw [h.interval_eq, h.invalidation_eq, h.length_eq, h.archive.size_eq]
  split_ifs with he
  · have hsize : s.archive.size = 0 := Array.isEmpty_iff_size_eq_zero.mp he
    exact (Array.setIfInBounds_eq_of_size_le (hsize.trans_le (Nat.zero_le _))).symm
  · rfl

/-- Only the slot of the interval that is over shows something else after a turn. -/
theorem Tracks.slotShown?_turn (h : s.Tracks plan offers k) (t now slot : Nat) :
    (s.turn t).settle.slotShown? now slot =
      if k % plan.archiveSize = slot then
        if k % plan.archiveSize < plan.archiveSize then (s.overOf plan k).shown? now else none
      else s.slotShown? now slot := by
  unfold slotShown?
  rw [h.archive_turn, Array.getElem?_setIfInBounds, h.archive.size_eq]
  split_ifs <;> rfl

omit [DecidableEq I] in
/-- The slot of an interval without offers shows nothing once that is over, if there were none later. -/
theorem Tracks.slotShown?_eq_none {m : Nat} (h : s.Tracks plan offers k) (hm : m < k)
    (hnone : ∀ j, m ≤ j → offers j = ∅) (hnow : plan.start k ≤ now) :
    s.slotShown? now (m % plan.archiveSize) = none := by
  unfold slotShown?
  rcases Nat.lt_or_ge (m % plan.archiveSize) plan.archiveSize with hlt | hge
  · obtain ⟨a, ha, hholds⟩ := h.archive.slots _ hlt
    rw [ha]
    exact hholds.shown?_eq_none rfl hm hnone hnow
  · rw [Array.getElem?_eq_none (h.archive.size_eq.trans_le hge)]
    rfl

/-! ### Pairs -/

/-- Two rankings that read alike after the same offers. -/
structure Paired (s s' : ChunkedRanking I) (plan : Plan) (offers : Nat → Set (Position I)) (k : Nat) :
    Prop where
  left : s.Tracks plan offers k
  right : s'.Tracks plan offers k
  alike : ReadsLike s s' (plan.start k)

theorem Tracks.paired_self (h : s.Tracks plan offers k) : Paired s s plan offers k :=
  ⟨h, h, rfl, fun _ _ _ => rfl⟩

theorem sameStock_of_empty (h : s.Tracks plan offers k) (h' : s'.Tracks plan offers k)
    (he : offers k = ∅) : SameStock s s' := by
  obtain ⟨hpending, htotals⟩ := h.stock_of_empty he
  obtain ⟨hpending', htotals'⟩ := h'.stock_of_empty he
  exact ⟨hpending.trans hpending'.symm, htotals.trans htotals'.symm⟩

theorem Paired.trans (h : Paired s s' plan offers k) (h' : Paired s' s'' plan offers k) :
    Paired s s'' plan offers k := ⟨h.left, h'.right, h.alike.trans h'.alike⟩

/-- Rankings that read alike go on to do so.  With the next interval a new stock is started. -/
theorem Paired.advanced {k' : Nat} (h : Paired s s' plan offers k) (hk : k ≤ k')
    (hnow : RunsAt plan.creation plan.interval k' now)
    (hbound : plan.start (k' + plan.archiveSize + 1) ≤ dormant - 1) :
    Paired (s.advanced now) (s'.advanced now) plan offers k' ∧
      (k < k' ∨ SameStock s s' → SameStock (s.advanced now) (s'.advanced now)) := by
  have hleft := h.left.advanced hk hnow hbound
  have hright := h.right.advanced hk hnow hbound
  rcases Nat.lt_or_eq_of_le hk with hlt | rfl
  · have hstock := sameStock_of_empty hleft hright (h.left.later k' hlt)
    refine ⟨⟨hleft, hright, hstock.collected_eq, fun t ht slot => ?_⟩, fun _ => hstock⟩
    have hover : s.overOf plan k = s'.overOf plan k := by
      unfold overOf
      rw [h.alike.collected_eq]
    rw [h.left.advanced_eq_turn hlt hnow, h.right.advanced_eq_turn hlt hnow, h.left.slotShown?_turn,
      h.right.slotShown?_turn, hover, h.alike.shown_eq t ((plan.start_mono hk).trans ht)]
  · rw [h.left.advanced_eq_self hnow, h.right.advanced_eq_self hnow]
    exact ⟨h, fun hstock => hstock.resolve_left (Nat.lt_irrefl k)⟩

/-- An interval without offers can be stopped at or passed at once. -/
theorem Tracks.paired_advanced_advanced {k' k'' t : Nat} (h : s.Tracks plan offers k) (hk : k ≤ k')
    (hk' : k' ≤ k'') (ht : RunsAt plan.creation plan.interval k' t)
    (hnow : RunsAt plan.creation plan.interval k'' now)
    (hbound : plan.start (k'' + plan.archiveSize + 1) ≤ dormant - 1) :
    Paired ((s.advanced t).advanced now) (s.advanced now) plan offers k'' ∧
      SameStock ((s.advanced t).advanced now) (s.advanced now) := by
  have hbound' : plan.start (k' + plan.archiveSize + 1) ≤ dormant - 1 :=
    (plan.start_mono (by omega)).trans hbound
  have hstop := h.advanced hk ht hbound'
  have hleft := hstop.advanced hk' hnow hbound
  have hright := h.advanced (hk.trans hk') hnow hbound
  rcases Nat.lt_or_eq_of_le hk with hlt | rfl
  · rcases Nat.lt_or_eq_of_le hk' with hlt' | rfl
    · have hstock := sameStock_of_empty hleft hright (h.later k'' (hlt.trans hlt'))
      refine ⟨⟨hleft, hright, hstock.collected_eq, fun t' ht' slot => ?_⟩, hstock⟩
      by_cases hslot : k' % plan.archiveSize = slot
      · have hnone : ∀ j, k' ≤ j → offers j = ∅ := fun j hj => h.later j (Nat.lt_of_lt_of_le hlt hj)
        rw [← hslot, hleft.slotShown?_eq_none hlt' hnone ht', hright.slotShown?_eq_none hlt' hnone ht']
      · rw [hstop.advanced_eq_turn hlt' hnow, hstop.slotShown?_turn, if_neg hslot,
          h.advanced_eq_turn hlt ht, h.advanced_eq_turn (hlt.trans hlt') hnow, h.slotShown?_turn,
          h.slotShown?_turn]
    · rw [hstop.advanced_eq_self hnow, h.advanced_congr hk ht hnow]
      exact ⟨hstop.paired_self, rfl, rfl⟩
  · rw [h.advanced_eq_self ht]
    exact ⟨hright.paired_self, rfl, rfl⟩

/-! ### Reads -/

theorem Tracks.readOut_eq (h : s.Tracks plan offers k)
    (hnow : RunsAt plan.creation plan.interval k now) :
    (s.readOut now).1 = (s.collected.mergeInto (s.mergeArchive now)).descending ∧
      (s.readOut now).2.archive = s.archive ∧
      (s.readOut now).2.totals.get (s.readOut now).2.current = s.collected ∧
      (s.readOut now).2.pending = Ranking.blank plan.settings.capacity plan.settings.threshold := by
  obtain ⟨content, taken, pending, hrec, -⟩ := h.collects
  have hrest := (hrec.takeInterval s.spare).2
  rw [readOut_of_lt (h.invalidation_eq.symm ▸ hnow.lt_end)]
  refine ⟨rfl, rfl, Twin.get_set_self _ _ _, pending_of_holds plan.settings ?_⟩
  show ((s.phases.set s.current _).get s.current).recorder.Holds _ _
  rw [Twin.get_set_self]
  exact hrest

theorem Paired.mergeArchive_eq (h : Paired s s' plan offers k)
    (hnow : RunsAt plan.creation plan.interval k now) : s.mergeArchive now = s'.mergeArchive now := by
  rw [ChunkedRanking.mergeArchive_eq, ChunkedRanking.mergeArchive_eq, h.left.interval_eq,
    h.right.interval_eq, h.left.archive.size_eq, h.right.archive.size_eq, h.left.collector_eq,
    h.right.collector_eq]
  simp only [h.alike.shown_eq now hnow.start_le]

omit [DecidableEq I] in
theorem slotShown?_congr (h : s.archive = s'.archive) (now slot : Nat) :
    s.slotShown? now slot = s'.slotShown? now slot := by
  unfold slotShown?
  rw [h]

/-- **Rankings that read alike** return the same positions, and the same stock is left of them. -/
theorem Paired.readOut (h : Paired s s' plan offers k)
    (hnow : RunsAt plan.creation plan.interval k now) :
    (s.readOut now).1 = (s'.readOut now).1 ∧
      Paired (s.readOut now).2 (s'.readOut now).2 plan offers k ∧
      SameStock (s.readOut now).2 (s'.readOut now).2 := by
  obtain ⟨hshown, harchive, htotals, hpending⟩ := h.left.readOut_eq hnow
  obtain ⟨hshown', harchive', htotals', hpending'⟩ := h.right.readOut_eq hnow
  have hstock : SameStock (s.readOut now).2 (s'.readOut now).2 :=
    ⟨hpending.trans hpending'.symm, by rw [htotals, htotals', h.alike.collected_eq]⟩
  refine ⟨?_, ⟨(h.left.readOut hnow).2, (h.right.readOut hnow).2, hstock.collected_eq, ?_⟩, hstock⟩
  · rw [hshown, hshown', h.alike.collected_eq, h.mergeArchive_eq hnow]
  · intro t ht slot
    rw [slotShown?_congr harchive, slotShown?_congr harchive']
    exact h.alike.shown_eq t ht slot

/-- A read leaves a ranking that reads alike; the stock is the same if there was nothing to take. -/
theorem Tracks.paired_readOut (h : s.Tracks plan offers k)
    (hnow : RunsAt plan.creation plan.interval k now) :
    Paired (s.readOut now).2 s plan offers k ∧
      (s.pending = Ranking.blank plan.settings.capacity plan.settings.threshold →
        SameStock (s.readOut now).2 s) := by
  obtain ⟨-, harchive, htotals, hpending⟩ := h.readOut_eq hnow
  refine ⟨⟨(h.readOut hnow).2, h, ?_, fun t _ slot => slotShown?_congr harchive t slot⟩, fun hs => ?_⟩
  · unfold collected at htotals ⊢
    rw [hpending, htotals]
    exact Ranking.mergeInto_of_size rfl
  · refine ⟨hpending.trans hs.symm, htotals.trans ?_⟩
    unfold collected
    rw [hs]
    exact Ranking.mergeInto_of_size rfl

theorem Paired.record (h : Paired s s' plan offers k) (hstock : SameStock s s') (w : Int64)
    (identity : I) {offers' : Nat → Set (Position I)}
    (hk : offers' k = insert ⟨w, identity⟩ (offers k)) (hne : ∀ j, j ≠ k → offers' j = offers j) :
    Paired (s.record w identity) (s'.record w identity) plan offers' k ∧
      SameStock (s.record w identity) (s'.record w identity) := by
  have hrecord := hstock.record h.left h.right w identity
  exact ⟨⟨h.left.record w identity hk hne, h.right.record w identity hk hne, hrecord.collected_eq,
    h.alike.shown_eq⟩, hrecord⟩

end ChunkedRanking

end WindowedMetrics
