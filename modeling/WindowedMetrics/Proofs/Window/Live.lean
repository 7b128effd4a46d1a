import Mathlib.Data.List.Basic
import WindowedMetrics.Proofs.Window.Slots

/-!
# What a rolling window shows

A read passes all slots, from the slot after that of its own interval around to that slot.  A slot shows
what was collected in the interval of the window that it stands for, or it has missed that interval and
shows nothing; slots that wait for their first interval show a zero (`Holds.shown_step`).  So the values
shown are those of the intervals of the window, the oldest first, apart from zeros
(`Holds.live_filter`), and none after the first is decaying (`Holds.full_of_mem_tail`).
-/

namespace WindowedMetrics

/-- The intervals in the window of `n` chunks while interval `k` runs: the last `n + 1`, oldest first. -/
def windowIntervals (n k : Nat) : List Nat := (List.range (k + 1)).drop (k - n)

/-- The share at `now` of what was collected in interval `j`: it fades out while its window ends. -/
def shareAt (creation interval n now j : Nat) : Share :=
  let k := intervalIndex creation interval now
  if j + n = k ∧ startOf creation interval k < now then
    .decaying (startOf creation interval (k + 1) - now) interval
  else .full

/-- The intervals of the window as the slots stand for them. -/
theorem windowIntervals_eq (n k : Nat) :
    windowIntervals n k =
      (List.range (n + 1)).filterMap fun step => if n ≤ k + step then some (k + step - n) else none := by
  have hsplit : n + 1 = (n - k) + (min k n + 1) := by omega
  have hlen : k + 1 - (k - n) = min k n + 1 := by omega
  have hahead : (List.range (n - k)).filterMap
      (fun step => if n ≤ k + step then some (k + step - n) else none) = [] := by
    refine List.filterMap_eq_nil_iff.mpr fun step hstep => ?_
    have := List.mem_range.mp hstep
    rw [if_neg (by omega)]
  have hstep : ∀ i, n ≤ k + (n - k + i) ∧ k + (n - k + i) - n = k - n + i := fun i => by omega
  have hrange : List.range (n + 1) =
      List.range (n - k) ++ (List.range (min k n + 1)).map (n - k + ·) := by
    rw [← List.range_add]
    exact congrArg List.range hsplit
  have hdrop : windowIntervals n k = (List.range (min k n + 1)).map (k - n + ·) := by
    unfold windowIntervals
    rw [List.range_eq_range', List.drop_range', hlen, Nat.mul_one, Nat.zero_add,
      List.range'_eq_map_range]
  rw [hdrop, hrange, List.filterMap_append, hahead, List.nil_append, List.filterMap_map,
    ← List.filterMap_eq_map]
  refine List.filterMap_congr fun i _ => ?_
  rw [Function.comp_apply, Function.comp_apply, if_pos (hstep i).1, (hstep i).2]

variable {A D : Type} [Accumulator A D]

namespace RollingWindow

omit [Accumulator A D] in
/-- What a slot shows of its current phase. -/
def shown (w : RollingWindow A) (now : Nat) (p : ChunkPhase A) : Option (A × Share) :=
  if now < p.invalidation then some (p.value, w.shareOf p.invalidation now) else none

variable {w : RollingWindow A} {creation interval n k now : Nat} {total : Nat → A}

theorem Holds.shareOf_eq (h : w.Holds creation interval n total k)
    (hnow : RunsAt creation interval k now) {j : Nat} (hj : k ≤ j + n) :
    w.shareOf (startOf creation interval (j + n + 1)) now = shareAt creation interval n now j := by
  have hnext : startOf creation interval (k + 1) = startOf creation interval k + 1 * interval :=
    startOf_add k 1
  have hstart := hnow.start_le
  have hend := hnow.lt_end
  unfold shareOf shareAt
  dsimp only
  rw [h.interval_eq, hnow.index_eq]
  by_cases hlast : j + n = k
  · rw [hlast]
    by_cases hlt : startOf creation interval k < now
    · rw [if_pos (by omega), if_pos ⟨rfl, hlt⟩]
    · rw [if_neg (by omega), if_neg fun hc => hlt hc.2]
  · have hafter : startOf creation interval (k + 1 + 1) = startOf creation interval (k + 1) + 1 * interval :=
      startOf_add (k + 1) 1
    have hle : startOf creation interval (k + 1 + 1) ≤ startOf creation interval (j + n + 1) :=
      startOf_mono (by omega)
    rw [if_neg (by omega), if_neg fun hc => hlast hc.1]

/-- The slot of an interval in the window shows that interval, unless it has missed it. -/
theorem Holds.shown_of_mem_window (h : w.Holds creation interval n total k)
    (hnow : RunsAt creation interval k now)
    (hbound : startOf creation interval (k + n + 1) ≤ dormant - 1) {chunk : Chunk A} {i j : Nat}
    (howned : chunk.Owned creation interval (n + 1) total k (i % (n + 1)) j) (hik : i ≤ k)
    (hki : k ≤ i + n) :
    w.shown now chunk.phase = some (total i, shareAt creation interval n now i) ∨
      w.shown now chunk.phase = none ∧ total i = Accumulator.zero := by
  have hstart := hnow.start_le
  have hend := hnow.lt_end
  unfold shown
  rcases Nat.lt_trichotomy j i with hji | rfl | hij
  · have hexpired := howned.expires_of_lt hji rfl
    have hle : startOf creation interval i ≤ startOf creation interval k := startOf_mono hik
    exact Or.inr ⟨if_neg (by omega), howned.missed i hji rfl⟩
  · have hexact : boundary creation (j + (n + 1)) interval = startOf creation interval (j + n + 1) :=
      boundary_eq_startOf ((startOf_mono (by omega)).trans hbound)
    have hlt : now < startOf creation interval (j + n + 1) :=
      Nat.lt_of_lt_of_le hend (startOf_mono (by omega))
    rw [howned.current, hexact, if_pos hlt, h.shareOf_eq hnow hki]
    exact Or.inl rfl
  · -- an owner that comes after the window would be the first one, and that does not come after `i`
    have hround := Nat.ModEq.add_le_of_lt howned.residue.symm hij
    rcases howned.started with hj | hj
    · omega
    · have := Nat.mod_le i (n + 1)
      omega

/-- A slot that waits for its first interval shows a zero. -/
theorem Holds.shown_ahead (h : w.Holds creation interval n total k)
    (hnow : RunsAt creation interval k now)
    (hbound : startOf creation interval (k + n + 1) ≤ dormant - 1) {chunk : Chunk A} {slot j : Nat}
    (howned : chunk.Owned creation interval (n + 1) total k slot j) (hk : k < slot)
    (hslot : slot < n + 1) : w.shown now chunk.phase = some (Accumulator.zero, .full) := by
  have hj : j = slot := by
    rcases howned.started with hj | hj
    · have hmod := howned.residue
      rw [Nat.mod_eq_of_lt (by omega)] at hmod
      exact hmod
    · exact hj
  subst hj
  have hend := hnow.lt_end
  have hafter : startOf creation interval (k + 1 + 1) = startOf creation interval (k + 1) + 1 * interval :=
    startOf_add (k + 1) 1
  have hexact : boundary creation (k + 1 + 1) interval = startOf creation interval (k + 1 + 1) :=
    boundary_eq_startOf ((startOf_mono (by omega)).trans hbound)
  have hle : boundary creation (k + 1 + 1) interval ≤ boundary creation (j + (n + 1)) interval :=
    boundary_mono (by omega)
  unfold shown shareOf
  rw [howned.current, if_pos (by show now < boundary _ _ _; omega), h.later j hk, h.interval_eq]
  rw [if_neg (by show ¬ boundary _ _ _ - now < _; omega)]

/-- What the slots show that a read passes, one after the other. -/
theorem Holds.shown_step (h : w.Holds creation interval n total k)
    (hnow : RunsAt creation interval k now)
    (hbound : startOf creation interval (k + n + 1) ≤ dormant - 1) {step : Nat} (hstep : step < n + 1) :
    ∃ p, (w.chunks[(w.slotOf now + step + 1) % w.slots]?).map Chunk.phase = some p ∧
      if n ≤ k + step then
        w.shown now p = some (total (k + step - n), shareAt creation interval n now (k + step - n)) ∨
          w.shown now p = none ∧ total (k + step - n) = Accumulator.zero
      else w.shown now p = some (Accumulator.zero, .full) := by
  have hslot : (w.slotOf now + step + 1) % w.slots = (k + step + 1) % (n + 1) := by
    unfold slotOf intervalOf
    rw [h.creation_eq, h.interval_eq, h.slots_eq, hnow.index_eq, Nat.add_assoc, Nat.mod_add_mod, Nat.add_assoc]
  obtain ⟨chunk, j, hchunk, howned⟩ := h.slot_mod (k + step + 1)
  refine ⟨chunk.phase, by rw [hslot, hchunk]; rfl, ?_⟩
  by_cases hin : n ≤ k + step
  · rw [if_pos hin]
    have hround : (k + step + 1) % (n + 1) = (k + step - n) % (n + 1) := by
      rw [show k + step + 1 = k + step - n + (n + 1) by omega, Nat.add_mod_right]
    rw [hround] at howned
    exact h.shown_of_mem_window hnow hbound howned (by omega) (by omega)
  · rw [if_neg hin]
    rw [Nat.mod_eq_of_lt (by omega)] at howned
    exact h.shown_ahead hnow hbound howned (by omega) (by omega)

omit [Accumulator A D] in
theorem live_eq (w : RollingWindow A) (now : Nat) :
    w.live now = (List.range w.slots).filterMap fun step =>
      ((w.chunks[(w.slotOf now + step + 1) % w.slots]?).map Chunk.phase).bind (w.shown now) := by
  unfold live phasesFrom
  rw [List.filterMap_filterMap]
  rfl

/-- **The values shown** are those of the intervals of the window, the oldest first, apart from zeros. -/
theorem Holds.live_filter [DecidableEq A] (h : w.Holds creation interval n total k)
    (hnow : RunsAt creation interval k now)
    (hbound : startOf creation interval (k + n + 1) ≤ dormant - 1) :
    (w.live now).filter (fun c => c.1 ≠ Accumulator.zero) =
      ((windowIntervals n k).map fun j => (total j, shareAt creation interval n now j)).filter
        fun c => c.1 ≠ Accumulator.zero := by
  rw [live_eq, h.slots_eq, windowIntervals_eq, List.filter_filterMap, List.map_filterMap,
    List.filter_filterMap]
  refine List.filterMap_congr fun step hstep => ?_
  obtain ⟨p, hp, hshown⟩ := h.shown_step hnow hbound (List.mem_range.mp hstep)
  rw [h.slots_eq] at hp
  rw [hp, Option.bind_some]
  by_cases hin : n ≤ k + step
  · rw [if_pos hin] at hshown ⊢
    rcases hshown with hs | ⟨hs, hzero⟩
    · rw [hs]
      rfl
    · rw [hs]
      simp [hzero, Option.filter]
  · rw [if_neg hin] at hshown ⊢
    rw [hshown]
    simp [Option.filter]

/-- **Only the first value shown can be decaying.** -/
theorem Holds.full_of_mem_tail (h : w.Holds creation interval n total k)
    (hnow : RunsAt creation interval k now)
    (hbound : startOf creation interval (k + n + 1) ≤ dormant - 1) :
    ∀ c ∈ (w.live now).tail, c.2 = .full := by
  intro c hc
  rw [live_eq, h.slots_eq, List.range_succ_eq_map] at hc
  have hrest : c ∈ ((List.range n).map Nat.succ).filterMap fun step =>
      ((w.chunks[(w.slotOf now + step + 1) % (n + 1)]?).map Chunk.phase).bind (w.shown now) := by
    rw [List.filterMap_cons] at hc
    split at hc
    · exact List.mem_of_mem_tail hc
    · exact hc
  obtain ⟨step', hstep', hshow⟩ := List.mem_filterMap.mp hrest
  obtain ⟨step, hstep, rfl⟩ := List.mem_map.mp hstep'
  have hlt := List.mem_range.mp hstep
  obtain ⟨p, hp, hshown⟩ := h.shown_step hnow hbound (Nat.succ_lt_succ hlt)
  rw [h.slots_eq] at hp
  rw [hp, Option.bind_some] at hshow
  rw [hshow] at hshown
  by_cases hin : n ≤ k + step.succ
  · rw [if_pos hin] at hshown
    rcases hshown with hs | ⟨hs, -⟩
    · obtain rfl := Option.some.inj hs
      have hindex := hnow.index_eq
      unfold shareAt
      exact if_neg fun hlast => by omega
    · exact absurd hs (by simp)
  · rw [if_neg hin] at hshown
    obtain rfl := Option.some.inj hshown
    rfl

end RollingWindow

end WindowedMetrics
