import WindowedMetrics.Proofs.Access

/-!
# Writes between reads

A read cuts off what was written since the read before it.  The pieces that the reads of a run have cut off
are its `batches`; `sinceRead` is what no read has followed yet.  Nothing is in two of them, and nothing is
lost (`flatten_batches`).

An aggregate that keeps what was written since the last read, and nothing else, returns the batches one
after the other (`StartsAnew.readings_eq`).
-/

namespace WindowedMetrics

section Batches

variable {A B : Type} (write? : A → Option B)

/-- What was written since the last read of a run, if `pending` was written before the run. -/
def sinceRead (pending : List B) : List A → List B
  | [] => pending
  | a :: run =>
    match write? a with
    | some b => sinceRead (pending ++ [b]) run
    | none => sinceRead [] run

/-- What was written before each read of a run, since the read before it. -/
def batches (pending : List B) : List A → List (List B)
  | [] => []
  | a :: run =>
    match write? a with
    | some b => batches (pending ++ [b]) run
    | none => pending :: batches [] run

/-- **Every write is in one batch**, that of the first read after it, or no read has followed it. -/
theorem flatten_batches (pending : List B) (run : List A) :
    (batches write? pending run).flatten ++ sinceRead write? pending run =
      pending ++ run.filterMap write? := by
  induction run generalizing pending with
  | nil => exact (List.append_nil pending).symm
  | cons a run ih =>
    unfold batches sinceRead
    cases h : write? a with
    | some b =>
      rw [List.filterMap_cons_some h]
      exact (ih (pending ++ [b])).trans (List.append_assoc ..)
    | none =>
      rw [List.filterMap_cons_none h, List.flatten_cons, List.append_assoc]
      exact congrArg (pending ++ ·) (ih [])

end Batches

/-! ### Aggregates that start anew with every read -/

namespace Aggregate

variable {σ W R V : Type} [Aggregate σ W R V]

/-- `Holds s pending` says that `s` has what was written since the last read; a read returns its
`content`. -/
structure StartsAnew (Holds : σ → List (Nat × W) → Prop) (content : List (Nat × W) → V) : Prop where
  write : ∀ {s pending}, Holds s pending → ∀ now w, Holds (step s (.write now w)) (pending ++ [(now, w)])
  read : ∀ {s pending}, Holds s pending → ∀ now,
    (Aggregate.read s now).value.1 = content pending ∧ Holds (step s (.read now)) []

namespace StartsAnew

variable {Holds : σ → List (Nat × W) → Prop} {content : List (Nat × W) → V} {s : σ}
  {pending : List (Nat × W)}

theorem holds_after (h : StartsAnew Holds content) (hs : Holds s pending) (run : List (Access W)) :
    Holds (after s run) (sinceRead Access.write? pending run) := by
  induction run generalizing s pending with
  | nil => exact hs
  | cons access run ih =>
    cases access with
    | write now w => exact ih (h.write hs now w)
    | read now => exact ih (h.read hs now).2

/-- **The reads return the batches.** -/
theorem readings_eq (h : StartsAnew Holds content) (hs : Holds s pending) (run : List (Access W)) :
    readings s run = (batches Access.write? pending run).map content := by
  induction run generalizing s pending with
  | nil => rfl
  | cons access run ih =>
    cases access with
    | write now w => exact ih (h.write hs now w)
    | read now =>
      obtain ⟨hvalue, hrest⟩ := h.read hs now
      show (Aggregate.read s now).value.1 :: readings (step s (.read now)) run =
        content pending :: (batches Access.write? [] run).map content
      rw [hvalue, ih hrest]

end StartsAnew

end Aggregate

end WindowedMetrics
