import Mathlib.Data.List.Induction
import WindowedMetrics.Proofs.Access
import WindowedMetrics.Proofs.Window.Slots

/-!
# Runs of rolling windows

The slots of a window after any additions whose clock does not go back hold what was collected in their
intervals (`holds_addAll`).
-/

namespace WindowedMetrics

variable {A D : Type} [Accumulator A D]

/-- What the additions of interval `j` add up to. -/
def collected (A : Type) {D : Type} [Accumulator A D] (creation interval : Nat) (writes : List (Nat × D))
    (j : Nat) : A := (deltasIn creation interval writes j).foldl Accumulator.add Accumulator.zero

namespace RollingWindow

/-- Additions at instants, one after the other. -/
def addAll (w : RollingWindow A) (writes : List (Nat × D)) : RollingWindow A :=
  writes.foldl (fun w x => (w.add x.2 x.1).value) w

theorem addAll_concat (w : RollingWindow A) (writes : List (Nat × D)) (now : Nat) (delta : D) :
    w.addAll (writes ++ [(now, delta)]) = ((w.addAll writes).add delta now).value := by
  simp [addAll]

variable {w : RollingWindow A} {creation interval n k : Nat} {total : Nat → A}

theorem Holds.mono {k' : Nat} (h : w.Holds creation interval n total k) (hk : k ≤ k') :
    w.Holds creation interval n total k' where
  creation_eq := h.creation_eq
  interval_eq := h.interval_eq
  slots_eq := h.slots_eq
  owned := by
    intro slot hslot
    obtain ⟨chunk, j, hchunk, howned⟩ := h.owned slot hslot
    exact ⟨chunk, j, hchunk, howned.later hk fun _ _ => rfl⟩
  later := fun i hi => h.later i (Nat.lt_of_le_of_lt hk hi)

/-- **The slots after any additions.** -/
theorem holds_addAll (n : Nat) {interval creation : Nat} (hi : 0 < interval) (writes : List (Nat × D))
    {now : Nat} (hclock : (creation :: writes.map (·.1) ++ [now]).Pairwise (· ≤ ·))
    (hbound : startOf creation interval (intervalIndex creation interval now + n + 1) ≤ dormant - 1) :
    ((create n interval creation : RollingWindow A).addAll writes).Holds creation interval n
      (collected A creation interval writes) (intervalIndex creation interval now) := by
  induction writes using List.reverseRecOn generalizing now with
  | nil => exact (holds_create n interval creation).mono (Nat.zero_le _)
  | append_singleton writes x ih =>
    obtain ⟨t, delta⟩ := x
    rw [List.map_append, ← List.cons_append, List.map_singleton] at hclock
    obtain ⟨hbefore, -, hafter⟩ := List.pairwise_append.mp hclock
    have htnow : t ≤ now := hafter t (by simp) now List.mem_cons_self
    have hct : creation ≤ t :=
      (List.pairwise_append.mp hbefore).2.2 creation List.mem_cons_self t List.mem_cons_self
    have hindex : intervalIndex creation interval t ≤ intervalIndex creation interval now :=
      intervalIndex_mono htnow
    have hlast : startOf creation interval (intervalIndex creation interval t + n + 1) ≤ dormant - 1 :=
      (startOf_mono (by omega)).trans hbound
    rw [addAll_concat]
    refine ((ih hbefore hlast).add delta (Nat.le_refl _) (runsAt_intervalIndex hi hct) hlast ?_
      fun j hj => ?_).mono hindex
    · unfold collected
      rw [deltasIn_concat, if_pos rfl, List.foldl_append]
      rfl
    · unfold collected
      rw [deltasIn_concat, if_neg (Ne.symm hj), List.append_nil]

end RollingWindow

end WindowedMetrics
