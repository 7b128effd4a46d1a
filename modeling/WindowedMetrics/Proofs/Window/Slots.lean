import Mathlib.Data.Nat.ModEq
import WindowedMetrics.Proofs.Intervals
import WindowedMetrics.Window.Rolling

/-!
# The slots of a rolling window

A slot belongs to one interval at a time, its owner: the interval that its current phase collects for, and
whose schedule it expires by (`Chunk.Owned`).  Only an addition changes the owner.  Until then the slot may
be late by any number of rounds; that is noticed by its expiry, and nothing was collected in the intervals
that the slot has missed.

`RollingWindow.Holds` says this of all slots.  It holds at first (`holds_create`), and every addition keeps
it (`Holds.add`).
-/

namespace WindowedMetrics

variable {A D : Type} [Accumulator A D]

/-! ### Slots -/

theorem Chunk.add_of_lt {chunk : Chunk A} {delta : D} {now next : Nat}
    (h : now < chunk.phase.invalidation) :
    (chunk.add delta now next).value = { chunk with
      phases := chunk.phases.set chunk.current
        { chunk.phase with value := Accumulator.add chunk.phase.value delta } } := by
  unfold Chunk.add
  simp only [if_pos h, Logged.value_pure]

/-- The first addition after the expiry empties the phase and turns to the other one. -/
theorem Chunk.add_of_le {chunk : Chunk A} {delta : D} {now next : Nat}
    (h : chunk.phase.invalidation ≤ now) :
    (chunk.add delta now next).value = {
      current := chunk.current.other
      phases := (chunk.phases.set chunk.current ⟨Accumulator.zero, dormant⟩).set chunk.current.other
        ⟨Accumulator.add (chunk.phases.get chunk.current.other).value delta, next⟩ } := by
  unfold Chunk.add
  simp only [if_neg (Nat.not_lt.mpr h), Logged.value_bind, Logged.value_pure]

/-- A slot that belongs to interval `j` while interval `k` runs.  `total i` is what was collected in
interval `i`. -/
structure Chunk.Owned (chunk : Chunk A) (creation interval slots : Nat) (total : Nat → A)
    (k slot j : Nat) : Prop where
  residue : j % slots = slot
  /-- Only the first owner can lie ahead. -/
  started : j ≤ k ∨ j = slot
  current : chunk.phase = ⟨total j, boundary creation (j + slots) interval⟩
  spare : chunk.phases.get chunk.current.other = ⟨Accumulator.zero, dormant⟩
  missed : ∀ i, j < i → i % slots = slot → total i = Accumulator.zero

namespace Chunk.Owned

variable {chunk : Chunk A} {creation interval slots k slot j now : Nat} {total : Nat → A}

theorem expires_of_lt {i : Nat} (h : chunk.Owned creation interval slots total k slot j) (hlt : j < i)
    (hi : i % slots = slot) : chunk.phase.invalidation ≤ startOf creation interval i := by
  have hround := Nat.ModEq.add_le_of_lt (h.residue.trans hi.symm) hlt
  rw [h.current]
  exact (boundary_le_startOf creation interval (j + slots)).trans (startOf_mono hround)

/-- An interval that has begun cannot come before the owner of its slot. -/
theorem owner_le {i : Nat} (h : chunk.Owned creation interval slots total k slot j) (hk : k ≤ i)
    (hi : i % slots = slot) : j ≤ i := by
  rcases h.started with hj | hj
  · exact hj.trans hk
  · rw [hj, ← hi]
    exact Nat.mod_le i slots

/-- Later, with nothing more collected in the slot. -/
theorem later {k' : Nat} {total' : Nat → A} (h : chunk.Owned creation interval slots total k slot j)
    (hk : k ≤ k') (ht : ∀ i, i % slots = slot → total' i = total i) :
    chunk.Owned creation interval slots total' k' slot j where
  residue := h.residue
  started := h.started.imp_left fun hj => hj.trans hk
  current := by rw [h.current, ht j h.residue]
  spare := h.spare
  missed := fun i hlt hi => (ht i hi).trans (h.missed i hlt hi)

/-- **An addition** in interval `i` makes it the owner of its slot. -/
theorem add {i : Nat} {total' : Nat → A} (delta : D)
    (h : chunk.Owned creation interval slots total k (i % slots) j) (hk : k ≤ i) (hslots : 0 < slots)
    (hnow : RunsAt creation interval i now)
    (hbound : startOf creation interval (i + slots) ≤ dormant - 1)
    (hi : total' i = Accumulator.add (total i) delta)
    (hafter : ∀ i', i < i' → total' i' = Accumulator.zero) :
    (chunk.add delta now (boundary creation (i + slots) interval)).value.Owned creation interval slots
      total' i (i % slots) i := by
  have hle := h.owner_le hk rfl
  have hstart := hnow.start_le
  have hend := hnow.lt_end
  by_cases hlt : now < chunk.phase.invalidation
  · -- the phase has not expired, so it is that of interval `i`
    have hij : j = i := by
      by_contra hne
      have := h.expires_of_lt (by omega : j < i) rfl
      omega
    subst hij
    rw [Chunk.add_of_lt hlt]
    refine ⟨rfl, Or.inl (Nat.le_refl _), ?_, ?_, fun i' hi' _ => hafter i' hi'⟩
    · show (chunk.phases.set chunk.current _).get chunk.current = _
      rw [Twin.get_set_self, h.current, hi]
    · show (chunk.phases.set chunk.current _).get chunk.current.other = _
      rw [Twin.get_set_other]
      exact h.spare
  · have hij : j < i := by
      refine Nat.lt_of_le_of_ne hle fun he => ?_
      have hexpiry : now < startOf creation interval (i + slots) :=
        Nat.lt_of_lt_of_le hend (startOf_mono (by omega))
      rw [h.current, he, boundary_eq_startOf hbound] at hlt
      exact hlt hexpiry
    rw [Chunk.add_of_le (Nat.not_lt.mp hlt)]
    refine ⟨rfl, Or.inl (Nat.le_refl _), ?_, ?_, fun i' hi' _ => hafter i' hi'⟩
    · show ((chunk.phases.set _ _).set chunk.current.other _).get chunk.current.other = _
      rw [Twin.get_set_self, h.spare, hi, h.missed i hij rfl]
    · show ((chunk.phases.set _ _).set chunk.current.other _).get chunk.current.other.other = _
      rw [Side.other_other, Twin.get_set_of_other, Twin.get_set_self]

end Chunk.Owned

/-! ### Windows -/

/-- What the slots of a window of `n` chunks hold while interval `k` runs. -/
structure RollingWindow.Holds (w : RollingWindow A) (creation interval n : Nat) (total : Nat → A)
    (k : Nat) : Prop where
  creation_eq : w.creation = creation
  interval_eq : w.interval = interval
  slots_eq : w.slots = n + 1
  owned : ∀ slot < n + 1, ∃ chunk j, w.chunks[slot]? = some chunk ∧
    chunk.Owned creation interval (n + 1) total k slot j
  later : ∀ i, k < i → total i = Accumulator.zero

namespace RollingWindow

variable {w : RollingWindow A} {creation interval n k now : Nat} {total : Nat → A}

theorem holds_create (n interval creation : Nat) :
    (create n interval creation : RollingWindow A).Holds creation interval n
      (fun _ => Accumulator.zero) 0 where
  creation_eq := rfl
  interval_eq := rfl
  slots_eq := Array.size_ofFn
  owned := by
    intro slot hslot
    refine ⟨Chunk.create (boundary creation (slot + (n + 1)) interval), slot, ?_, ?_⟩
    · unfold create
      rw [Array.getElem?_ofFn, dif_pos hslot]
    · exact ⟨Nat.mod_eq_of_lt hslot, Or.inr rfl, rfl, rfl, fun _ _ _ => rfl⟩
  later := fun _ _ => rfl

/-- The slot that a number leads to. -/
theorem Holds.slot_mod (h : w.Holds creation interval n total k) (m : Nat) :
    ∃ chunk j, w.chunks[m % (n + 1)]? = some chunk ∧
      chunk.Owned creation interval (n + 1) total k (m % (n + 1)) j :=
  h.owned _ (Nat.mod_lt m (Nat.succ_pos n))

/-- **An addition** is collected in the interval it is made in, and nowhere else. -/
theorem Holds.add {i : Nat} {total' : Nat → A} (h : w.Holds creation interval n total k) (delta : D)
    (hk : k ≤ i) (hnow : RunsAt creation interval i now)
    (hbound : startOf creation interval (i + n + 1) ≤ dormant - 1)
    (hi : total' i = Accumulator.add (total i) delta) (hne : ∀ j, j ≠ i → total' j = total j) :
    (w.add delta now).value.Holds creation interval n total' i := by
  have hafter : ∀ i', i < i' → total' i' = Accumulator.zero := fun i' hi' =>
    (hne i' (Nat.ne_of_gt hi')).trans (h.later i' (Nat.lt_of_le_of_lt hk hi'))
  have hslot : w.slotOf now = i % (n + 1) := by
    unfold slotOf intervalOf
    rw [h.creation_eq, h.interval_eq, h.slots_eq, hnow.index_eq]
  have hexpiry : w.expiryOf now = boundary creation (i + (n + 1)) interval := by
    unfold expiryOf intervalOf
    rw [h.creation_eq, h.interval_eq, h.slots_eq, hnow.index_eq]
  obtain ⟨chunk, j, hchunk, howned⟩ := h.slot_mod i
  have hadded := howned.add delta hk (Nat.succ_pos n) hnow hbound hi hafter
  have hvalue : (w.add delta now).value = { w with
      chunks := w.chunks.setIfInBounds (i % (n + 1))
        (chunk.add delta now (boundary creation (i + (n + 1)) interval)).value } := by
    unfold RollingWindow.add
    rw [hslot, hexpiry, hchunk]
    rfl
  have hsize : i % (n + 1) < w.chunks.size := by
    have hs : w.chunks.size = n + 1 := h.slots_eq
    rw [hs]
    exact Nat.mod_lt i (Nat.succ_pos n)
  rw [hvalue]
  refine ⟨h.creation_eq, h.interval_eq, Array.size_setIfInBounds.trans h.slots_eq, ?_, hafter⟩
  intro slot hlt
  by_cases heq : i % (n + 1) = slot
  · subst heq
    exact ⟨_, i, Array.getElem?_setIfInBounds_self_of_lt hsize, hadded⟩
  · obtain ⟨other, j', hother, howned'⟩ := h.owned slot hlt
    refine ⟨other, j', (Array.getElem?_setIfInBounds_ne heq).trans hother, howned'.later hk ?_⟩
    exact fun i' hi' => hne i' fun he => heq (he ▸ hi')

end RollingWindow

end WindowedMetrics
