import Mathlib.Algebra.Order.BigOperators.Group.List
import Mathlib.Algebra.Order.Ring.Int
import Mathlib.Data.List.Rotate
import WindowedMetrics.Proofs.Window.Sums

/-!
# Sums that fade out

What a phase adds to a sum depends on the time that is left until its expiry: it is the part of the value that
this time has in an interval, and all of it while at least an interval is left (`amount`).  So it cannot grow
as time goes by, whichever interval runs and whether or not an expired phase has been rotated away.

The slots are passed in another order in every interval, and the sum saturates.  For values that are not
negative that makes no difference (`toInt_rollingSum_of_nonneg`), and the sum falls with its parts
(`rollingSum_mono`).
-/

namespace WindowedMetrics

/-! ### Passing the slots -/

theorem filterMap_range_getElem? {α : Type} (l : List α) :
    (List.range l.length).filterMap (fun i => l[i]?) = l := by
  induction l using List.reverseRecOn with
  | nil => rfl
  | append_singleton l a ih =>
    have hbefore : (List.range l.length).filterMap (fun i => (l ++ [a])[i]?) =
        (List.range l.length).filterMap fun i => l[i]? :=
      List.filterMap_congr fun i hi => List.getElem?_append_left (List.mem_range.mp hi)
    rw [List.length_append, List.length_singleton, List.range_succ, List.filterMap_append, hbefore, ih]
    simp

namespace RollingWindow

section Phases

variable {A D : Type}

/-- The phase collecting in each slot. -/
def currents (w : RollingWindow A) : List (ChunkPhase A) := w.chunks.toList.map Chunk.phase

theorem length_currents (w : RollingWindow A) : w.currents.length = w.slots := by
  simp [currents, slots]

/-- A read passes each slot once, wherever it starts. -/
theorem phasesFrom_perm (w : RollingWindow A) (now : Nat) : (w.phasesFrom now).Perm w.currents := by
  have hphases : w.phasesFrom now = w.currents.rotate (w.slotOf now + 1) := by
    rw [← filterMap_range_getElem? (w.currents.rotate _), List.length_rotate, length_currents]
    refine List.filterMap_congr fun step hstep => ?_
    have hlt : step < w.currents.length := by
      rw [length_currents]
      exact List.mem_range.mp hstep
    rw [List.getElem?_rotate hlt, length_currents,
      show step + (w.slotOf now + 1) = w.slotOf now + step + 1 by omega]
    simp [currents]
  rw [hphases]
  exact List.rotate_perm _ _

theorem mem_live {w : RollingWindow A} {now : Nat} {c : A × Share} :
    c ∈ w.live now ↔ ∃ p ∈ w.currents, now < p.invalidation ∧
      (p.value, w.shareOf p.invalidation now) = c := by
  unfold live
  simp only [List.mem_filterMap, (w.phasesFrom_perm now).mem_iff]
  refine exists_congr fun p => and_congr_right fun _ => ?_
  split_ifs with hlt
  · simp [hlt]
  · simp [hlt]

end Phases

/-! ### Parts of a sum -/

/-- What a phase adds to a sum at `now`: the part that the time left has in an interval. -/
def amount (interval now : Nat) (p : ChunkPhase Int64) : Int :=
  (p.value.toInt * (min (p.invalidation - now) interval : Nat)).tdiv interval

variable {w : RollingWindow Int64} {interval now : Nat} {p : ChunkPhase Int64}

theorem amount_of_le (h : p.invalidation ≤ now) : amount interval now p = 0 := by
  simp [amount, Nat.sub_eq_zero_of_le h]

theorem toInt_scale_shareOf (hi : 0 < w.interval) :
    ((w.shareOf p.invalidation now).scale p.value).toInt = amount w.interval now p := by
  unfold shareOf amount
  split_ifs with hlast
  · rw [toInt_scale_decaying (Nat.le_of_lt hlast), Nat.min_eq_left (Nat.le_of_lt hlast)]
  · rw [Nat.min_eq_right (Nat.not_lt.mp hlast), Int.mul_tdiv_cancel _ (by omega)]
    rfl

theorem amount_nonneg (hp : now < p.invalidation → 0 ≤ p.value) : 0 ≤ amount interval now p := by
  rcases Nat.lt_or_ge now p.invalidation with hlt | hle
  · have hv : 0 ≤ p.value.toInt := Int64.le_iff_toInt_le.mp (hp hlt)
    exact Int.tdiv_nonneg (Int.mul_nonneg hv (Int.natCast_nonneg _)) (Int.natCast_nonneg _)
  · rw [amount_of_le hle]

/-- **A part of a sum does not grow**, across the end of an interval or not. -/
theorem amount_mono (hi : 0 < interval) {s t : Nat} (h : s ≤ t) (hp : s < p.invalidation → 0 ≤ p.value) :
    amount interval t p ≤ amount interval s p := by
  rcases Nat.lt_or_ge s p.invalidation with hlt | hle
  · have hv : 0 ≤ p.value.toInt := Int64.le_iff_toInt_le.mp (hp hlt)
    have hleft : min (p.invalidation - t) interval ≤ min (p.invalidation - s) interval := by omega
    have hprod : p.value.toInt * (min (p.invalidation - t) interval : Nat) ≤
        p.value.toInt * (min (p.invalidation - s) interval : Nat) :=
      Int.mul_le_mul_of_nonneg_left (Int.ofNat_le.mpr hleft) hv
    unfold amount
    rw [Int.tdiv_eq_ediv_of_nonneg (Int.mul_nonneg hv (Int.natCast_nonneg _)),
      Int.tdiv_eq_ediv_of_nonneg (Int.mul_nonneg hv (Int.natCast_nonneg _))]
    exact Int.ediv_le_ediv (Int.natCast_pos.mpr hi) hprod
  · rw [amount_of_le (hle.trans h), amount_of_le hle]

/-! ### The sum -/

/-- A sum of what is not negative saturates at the end only. -/
theorem toInt_foldl_saturatingSum_of_nonneg {l : List (Int64 × Share)} {a : Int64} (ha : 0 ≤ a.toInt)
    (h : ∀ c ∈ l, 0 ≤ (c.2.scale c.1).toInt) :
    (l.foldl (fun sum c => saturatingSum sum (c.2.scale c.1)) a).toInt =
      min (a.toInt + (l.map fun c => (c.2.scale c.1).toInt).sum) (2 ^ 63 - 1) := by
  induction l generalizing a with
  | nil =>
    have := a.toInt_lt
    simp
    omega
  | cons c l ih =>
    obtain ⟨hc, hl⟩ := List.forall_mem_cons.mp h
    have hrest : 0 ≤ (l.map fun c => (c.2.scale c.1).toInt).sum := by
      refine List.sum_nonneg fun x hx => ?_
      obtain ⟨c, hmem, rfl⟩ := List.mem_map.mp hx
      exact hl c hmem
    have hsum := toInt_saturatingSum a (c.2.scale c.1)
    unfold saturate at hsum
    rw [List.foldl_cons, ih (by omega) hl, List.map_cons, List.sum_cons]
    omega

/-- The parts that are shown are those of all phases, since an expired one has no part. -/
theorem sum_live (hi : 0 < w.interval) (now : Nat) :
    ((w.live now).map fun c => (c.2.scale c.1).toInt).sum =
      (w.currents.map (amount w.interval now)).sum := by
  have hlive : w.live now = (w.phasesFrom now).filterMap (w.shown now) := rfl
  rw [← ((w.phasesFrom_perm now).map (amount w.interval now)).sum_eq, hlive]
  induction w.phasesFrom now with
  | nil => rfl
  | cons p phases ih =>
    rw [List.map_cons, List.sum_cons, ← ih]
    rcases Nat.lt_or_ge now p.invalidation with hlt | hle
    · have hshown : w.shown now p = some (p.value, w.shareOf p.invalidation now) := if_pos hlt
      rw [List.filterMap_cons_some hshown, List.map_cons, List.sum_cons, toInt_scale_shareOf hi]
    · have hshown : w.shown now p = none := if_neg (Nat.not_lt.mpr hle)
      rw [List.filterMap_cons_none hshown, amount_of_le hle, Int.zero_add]

theorem toInt_rollingSum_of_nonneg (hi : 0 < w.interval) (h : ∀ c ∈ w.live now, 0 ≤ c.1) :
    (Counter.rollingSum w now).toInt = min (w.currents.map (amount w.interval now)).sum (2 ^ 63 - 1) := by
  have hparts : ∀ c ∈ w.live now, 0 ≤ (c.2.scale c.1).toInt := by
    intro c hc
    have hvalue := h c hc
    obtain ⟨p, -, hlt, rfl⟩ := mem_live.mp hc
    rw [toInt_scale_shareOf hi]
    exact amount_nonneg fun _ => hvalue
  unfold Counter.rollingSum
  rw [toInt_foldl_saturatingSum_of_nonneg (Int.le_of_eq Int64.toInt_zero.symm) hparts, sum_live hi,
    Int64.toInt_zero, Int.zero_add]

/-- **A sum fades out**: it does not grow, and does not become negative. -/
theorem rollingSum_mono (hi : 0 < w.interval) {s t : Nat} (hst : s ≤ t)
    (h : ∀ c ∈ w.live s, 0 ≤ c.1) :
    0 ≤ (Counter.rollingSum w t).toInt ∧
      (Counter.rollingSum w t).toInt ≤ (Counter.rollingSum w s).toInt := by
  have hs : ∀ p ∈ w.currents, s < p.invalidation → 0 ≤ p.value := fun p hp hlt =>
    h _ (mem_live.mpr ⟨p, hp, hlt, rfl⟩)
  have ht : ∀ c ∈ w.live t, 0 ≤ c.1 := by
    intro c hc
    obtain ⟨p, hp, hlt, rfl⟩ := mem_live.mp hc
    exact hs p hp (Nat.lt_of_le_of_lt hst hlt)
  have hnonneg : 0 ≤ (w.currents.map (amount w.interval t)).sum := by
    refine List.sum_nonneg fun x hx => ?_
    obtain ⟨p, hp, rfl⟩ := List.mem_map.mp hx
    exact amount_nonneg fun hlt => hs p hp (Nat.lt_of_le_of_lt hst hlt)
  have hle : (w.currents.map (amount w.interval t)).sum ≤ (w.currents.map (amount w.interval s)).sum :=
    List.sum_le_sum fun p hp => amount_mono hi hst (hs p hp)
  rw [toInt_rollingSum_of_nonneg hi h, toInt_rollingSum_of_nonneg hi ht]
  omega

end RollingWindow

/-! ### After the window -/

section Over

variable {A D : Type} [Accumulator A D] {creation interval n k : Nat}

/-- What was collected in an interval is not shown any more when its window is over. -/
theorem RollingWindow.Holds.eq_zero_of_mem_live {w : RollingWindow A} {total : Nat → A}
    (h : w.Holds creation interval n total k) {t : Nat}
    (hover : ∀ j, t < startOf creation interval (j + n + 1) → total j = Accumulator.zero) :
    ∀ c ∈ w.live t, c.1 = Accumulator.zero := by
  intro c hc
  obtain ⟨p, hp, hlt, rfl⟩ := mem_live.mp hc
  obtain ⟨chunk, hchunk, rfl⟩ := List.mem_map.mp hp
  obtain ⟨slot, hslot, hget⟩ := List.getElem_of_mem hchunk
  have hsize : slot < n + 1 := by
    have hs : w.chunks.size = n + 1 := h.slots_eq
    rw [← hs]
    exact hslot
  obtain ⟨owner, j, howner, howned⟩ := h.owned slot hsize
  obtain rfl : owner = chunk := by
    rw [← Array.getElem?_toList, List.getElem?_eq_getElem hslot, hget] at howner
    exact (Option.some.inj howner).symm
  rw [howned.current] at hlt ⊢
  exact hover j (Nat.lt_of_lt_of_le hlt (boundary_le_startOf creation interval (j + n + 1)))

/-- The slots after some additions, in the interval of the last one. -/
theorem RollingWindow.exists_holds_addAll (n : Nat) (hi : 0 < interval) (writes : List (Nat × D))
    (hclock : (creation :: writes.map (·.1)).Pairwise (· ≤ ·))
    (hbound : ∀ x ∈ writes,
      startOf creation interval (intervalIndex creation interval x.1 + n + 1) ≤ dormant - 1) :
    ∃ k, ((create n interval creation : RollingWindow A).addAll writes).Holds creation interval n
        (collected A creation interval writes) k ∧
      ∀ x ∈ writes.getLast?, intervalIndex creation interval x.1 = k := by
  rcases List.eq_nil_or_concat writes with rfl | ⟨before, x, rfl⟩
  · exact ⟨0, holds_create n interval creation, by simp⟩
  · have hrepeat : (creation :: (before.concat x).map (·.1) ++ [x.1]).Pairwise (· ≤ ·) := by
      rw [List.concat_eq_append, List.map_append, List.map_singleton, ← List.cons_append] at hclock ⊢
      refine List.pairwise_append.mpr ⟨hclock, List.pairwise_singleton _ _, fun a ha b hb => ?_⟩
      obtain rfl := List.mem_singleton.mp hb
      rcases List.mem_append.mp ha with ha | ha
      · exact (List.pairwise_append.mp hclock).2.2 a ha _ List.mem_cons_self
      · exact Nat.le_of_eq (List.mem_singleton.mp ha)
    exact ⟨_, holds_addAll n hi _ hrepeat (hbound x (by simp)), by simp⟩

end Over

theorem rollingSum_of_zeros {w : RollingWindow Int64} {now : Nat} (h : ∀ c ∈ w.live now, c.1 = 0) :
    Counter.rollingSum w now = 0 := by
  have hnone : (w.live now).filter (fun c => c.1 ≠ 0) = [] :=
    List.filter_eq_nil_iff.mpr fun c hc => by simpa using h c hc
  unfold Counter.rollingSum
  rw [← foldl_saturatingSum_filter, hnone]
  rfl

/-- **A rolling counter fades out.**  After any run whose clock does not go back and stays clear of the last
instant,

* if no chunk that is live has a negative sum, later reads return less or the same, and nothing negative,
  whenever they come;
* reads, of whatever number, do not change the counter;
* when the window of the last addition is over, reads return zero. -/
theorem rolling_decays (n : Nat) {interval : Nat} (hi : 0 < interval) (creation : Nat)
    (run : List (Access Int64)) (hclock : (creation :: run.map Access.instant).Pairwise (· ≤ ·))
    (hbound : ∀ t ∈ run.map Access.instant,
      creation + (intervalIndex creation interval t + n + 1) * interval ≤ dormant - 1) :
    ∃ window, Aggregate.after (Counter.createRolling n interval creation) run = .rolling window ∧
      let read := fun t => ((Counter.rolling window).sum t).value.1.toInt
      (∀ s t, s ≤ t → (∀ c ∈ window.live s, 0 ≤ c.1) → 0 ≤ read t ∧ read t ≤ read s) ∧
      (∀ reads : List Nat,
        Aggregate.after (Counter.rolling window) (reads.map Access.read) = .rolling window) ∧
      ∀ t, (∀ x ∈ (writesOf run).getLast?,
        creation + (intervalIndex creation interval x.1 + n + 1) * interval ≤ t) → read t = 0 := by
  have hsub := map_writesOf_sublist run
  obtain ⟨k, hholds, hlast⟩ := RollingWindow.exists_holds_addAll (A := Int64) n hi (writesOf run)
    (hclock.sublist (hsub.cons_cons creation))
    fun x hx => hbound x.1 (hsub.subset (List.mem_map_of_mem hx))
  refine ⟨_, after_createRolling n interval creation run, fun s t hst hlive => ?_, fun reads => ?_, ?_⟩
  · exact RollingWindow.rollingSum_mono (hholds.interval_eq.symm ▸ hi) hst hlive
  · induction reads with
    | nil => rfl
    | cons t reads ih => exact ih
  · intro t ht
    have hzero : ∀ j, t < startOf creation interval (j + n + 1) →
        collected Int64 creation interval (writesOf run) j = 0 := by
      intro j hj
      cases hx : (writesOf run).getLast? with
      | none =>
        rw [List.getLast?_eq_none_iff.mp hx]
        rfl
      | some x =>
        -- interval `j` comes after the last addition
        refine hholds.later j (Nat.lt_of_not_le fun hjk => ?_)
        have hover := ht x hx
        rw [hlast x hx] at hover
        have hle : startOf creation interval (j + n + 1) ≤ startOf creation interval (k + n + 1) :=
          startOf_mono (by omega)
        exact absurd (hj.trans_le (hle.trans hover)) (Nat.lt_irrefl t)
    exact congrArg Int64.toInt (rollingSum_of_zeros (hholds.eq_zero_of_mem_live hzero))

/-- The oldest of two chunks has a fifth of its time left, and has then expired without being rotated away. -/
theorem rolling_decays_expired :
    let run : List (Access Int64) := [.write 5 100, .read 15, .write 25 7]
    let read := fun t => ((Aggregate.after (Counter.createRolling 2 10 0) run).sum t).value.1.toInt
    0 < 10 ∧ (0 :: run.map Access.instant).Pairwise (· ≤ ·) ∧
      (∀ t ∈ run.map Access.instant, 0 + (intervalIndex 0 10 t + 2 + 1) * 10 ≤ dormant - 1) ∧
      (∃ window, Aggregate.after (Counter.createRolling 2 10 0) run = .rolling window ∧
        ∀ c ∈ window.live 28, 0 ≤ c.1) ∧
      28 ≤ 31 ∧ read 28 = 27 ∧ 0 ≤ read 31 ∧ read 31 ≤ read 28 ∧
      (∀ x ∈ (writesOf run).getLast?, 0 + (intervalIndex 0 10 x.1 + 2 + 1) * 10 ≤ 50) ∧
      read 49 = 0 ∧ read 50 = 0 := by
  intro run read
  have hi : 0 < 10 := by decide
  have hclock : (0 :: run.map Access.instant).Pairwise (· ≤ ·) := by decide
  have hbound : ∀ t ∈ run.map Access.instant,
      0 + (intervalIndex 0 10 t + 2 + 1) * 10 ≤ dormant - 1 := by decide
  have hlast : ∀ x ∈ (writesOf run).getLast?,
      0 + (intervalIndex 0 10 x.1 + 2 + 1) * 10 ≤ 50 := by
    rintro x hx
    obtain rfl : ((25, 7) : Nat × Int64) = x := Option.some.inj hx
    decide
  obtain ⟨window, hwindow, hfalls, -, hover⟩ := rolling_decays 2 hi 0 run hclock hbound
  have hlive : ∀ c ∈ window.live 28, 0 ≤ c.1 := by
    obtain rfl : (RollingWindow.create 2 10 0).addAll (writesOf run) = window :=
      Counter.rolling.inj ((after_createRolling 2 10 0 run).symm.trans hwindow)
    decide +kernel
  have hread : ∀ t, read t = ((Counter.rolling window).sum t).value.1.toInt := fun t => by
    rw [← hwindow]
  obtain ⟨hnonneg, hle⟩ := hfalls 28 31 (by decide) hlive
  refine ⟨hi, hclock, hbound, ⟨window, hwindow, hlive⟩, by decide, by decide +kernel, ?_, ?_, hlast,
    by decide +kernel, ?_⟩
  · rw [hread]
    exact hnonneg
  · rw [hread, hread]
    exact hle
  · rw [hread]
    exact hover 50 hlast

end WindowedMetrics
