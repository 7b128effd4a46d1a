import Mathlib.Data.List.Induction
import WindowedMetrics.Proofs.Access

/-!
# Checked accesses

An aggregate is `Checked` if its accesses can also be made with all arithmetic checked; they give nothing
if some number does not fit.  `AllFit` says of an aggregate that this cannot happen: at all instants, all
writes and reads give what they give unchecked.

That all accesses of a run fit is shown by an invariant that every access keeps (`Invariant.after`).  A
cache adds no arithmetic that could fail, and keeps the invariant of the aggregate in it
(`Invariant.decorated`).
-/

namespace WindowedMetrics

/-- Aggregates with accesses that check their arithmetic. -/
class Checked (σ : Type) (W R V : outParam Type) [Aggregate σ W R V] where
  write? : σ → Nat → W → Option (R × σ)
  read? : σ → Nat → Option (V × σ)

variable {σ W R V : Type} [Aggregate σ W R V] [Checked σ W R V]

namespace Aggregate

/-- Whatever is written or read next, and whenever, everything fits. -/
structure AllFit (s : σ) : Prop where
  write : ∀ now ≤ maxWord, ∀ w, Checked.write? s now w = some (Aggregate.write s now w).value
  read : ∀ now ≤ maxWord, Checked.read? s now = some (Aggregate.read s now).value

/-- A condition under which everything fits, and that no access breaks. -/
structure Invariant (P : σ → Prop) : Prop where
  allFit : ∀ {s}, P s → AllFit s
  write : ∀ {s}, P s → ∀ now ≤ maxWord, ∀ w, P (Aggregate.write s now w).value.2
  read : ∀ {s}, P s → ∀ now ≤ maxWord, P (Aggregate.read s now).value.2

variable {P : σ → Prop}

theorem Invariant.step (h : Invariant P) {s : σ} (hs : P s) {access : Access W}
    (hnow : access.instant ≤ maxWord) : P (Aggregate.step s access) := by
  cases access with
  | write now w => exact h.write hs now hnow w
  | read now => exact h.read hs now hnow

theorem Invariant.after (h : Invariant P) {s : σ} (hs : P s) (run : List (Access W))
    (hrun : ∀ access ∈ run, access.instant ≤ maxWord) : P (Aggregate.after s run) := by
  induction run using List.reverseRecOn with
  | nil => exact hs
  | append_singleton run access ih =>
    rw [Aggregate.after_concat]
    exact h.step (ih fun a ha => hrun a (List.mem_append_left _ ha))
      (hrun access (List.mem_append_right _ List.mem_cons_self))

end Aggregate

/-! ### Caches -/

namespace Decorated

def write? (d : Decorated σ V) (now : Nat) (w : W) : Option (R × Decorated σ V) := do
  let (reply, inner) ← Checked.write? d.inner now w
  return (reply, { d with inner })

def read? (d : Decorated σ V) (now : Nat) : Option (V × Decorated σ V) :=
  match d.cache with
  | none => do
    let (v, inner) ← Checked.read? d.inner now
    return (v, { d with inner })
  | some cache =>
    match cache.fresh? now with
    | some v => some (v, d)
    | none => do
      let (v, inner) ← Checked.read? d.inner now
      return (v, { inner, cache := some (cache.store v now) })

instance : Checked (Decorated σ V) W R V where
  write? := write?
  read? := read?

omit [Checked σ W R V] in
/-- A read goes through to the aggregate, or leaves it alone. -/
theorem inner_read (d : Decorated σ V) (now : Nat) :
    (Aggregate.read d now).value.2.inner = d.inner ∨
      (Aggregate.read d now).value.2.inner = (Aggregate.read d.inner now).value.2 := by
  show (d.read now).value.2.inner = _ ∨ (d.read now).value.2.inner = _
  unfold read
  split
  · exact Or.inr rfl
  · split
    · exact Or.inl rfl
    · exact Or.inr rfl

theorem read?_of {d : Decorated σ V} (h : Aggregate.AllFit d.inner) {now : Nat} (hnow : now ≤ maxWord) :
    d.read? now = some (d.read now).value := by
  obtain ⟨inner, cache⟩ := d
  have hread : Checked.read? inner now = some (Aggregate.read inner now).value := h.read now hnow
  unfold read? read
  cases cache with
  | none =>
    dsimp only
    rw [hread]
    rfl
  | some cache =>
    dsimp only
    cases hfresh : cache.fresh? now with
    | some v => rfl
    | none =>
      dsimp only
      rw [hread]
      rfl

end Decorated

theorem Aggregate.Invariant.decorated {P : σ → Prop} (h : Invariant P) :
    Invariant fun d : Decorated σ V => P d.inner where
  allFit := fun {d} hd =>
    { write := fun now hnow w => by
        show (Checked.write? d.inner now w >>= fun out => some (out.1, { d with inner := out.2 })) = _
        rw [(h.allFit hd).write now hnow w]
        rfl
      read := fun _ hnow => Decorated.read?_of (h.allFit hd) hnow }
  write := fun hd now hnow w => h.write hd now hnow w
  read := fun {d} hd now hnow => by
    rcases d.inner_read now with he | he
    · exact he ▸ hd
    · exact he ▸ h.read hd now hnow

end WindowedMetrics
