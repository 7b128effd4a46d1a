import WindowedMetrics.Proofs.Checked.Accesses
import WindowedMetrics.Proofs.Checked.Rankings

/-!
# Checked rankings under every retention

Rolling rankings with their tasks, and rankings under the other retentions, which have no numbers to check.
Tasks fit whenever they are run.
-/

namespace WindowedMetrics

variable {I : Type} [DecidableEq I]

/-! ### Tasks -/

namespace RollingRanking

def handOver? (r : RollingRanking I) : Option Side → Option (RollingRanking I)
  | none => some r
  | some side =>
    match r.background with
    | .executed _ => do
      let ranking ← r.ranking.retire? side
      return { r with ranking }
    | .deferred => some { r with tasks := r.tasks ++ [side] }

def update? (r : RollingRanking I) (now : Nat) (weight : Int64) (identity : I) :
    Option (RollingRanking I) := do
  let (task, ranking) ← r.ranking.update? now weight identity
  { r with ranking }.handOver? task

def descending? (r : RollingRanking I) (now : Nat) :
    Option (List (Position I) × RollingRanking I) := do
  let (positions, ranking) ← r.ranking.descending? now
  return (positions, { r with ranking })

def runTask? (r : RollingRanking I) (number : Nat) : Option (Bool × RollingRanking I) :=
  match r.tasks[number]? with
  | none => some (false, r)
  | some side => do
    let ranking ← r.ranking.retire? side
    return (true, { r with ranking, tasks := r.tasks.eraseIdx number })

variable {r : RollingRanking I} {now : Nat}

theorem handOver?_eq (r : RollingRanking I) (task : Option Side) :
    r.handOver? task = some (r.handOver task).value := by
  unfold handOver? handOver
  cases task with
  | none => rfl
  | some side =>
    cases r.background with
    | executed e =>
      dsimp only
      rw [ChunkedRanking.retire?_eq]
      rfl
    | deferred => rfl

theorem fits_handOver (h : r.ranking.Fits) (task : Option Side) :
    (r.handOver task).value.ranking.Fits := by
  unfold handOver
  cases task with
  | none => exact h
  | some side =>
    cases r.background with
    | executed e => exact h.congr (ChunkedRanking.alike_retire _ side)
    | deferred => exact h

theorem update?_eq (h : r.ranking.Fits) (hnow : now ≤ maxWord) (weight : Int64) (identity : I) :
    r.update? now weight identity = some (r.update now weight identity).value := by
  unfold update?
  rw [h.update?_eq hnow]
  exact handOver?_eq _ _

theorem fits_update (h : r.ranking.Fits) (hnow : now ≤ maxWord) (weight : Int64) (identity : I) :
    (r.update now weight identity).value.ranking.Fits :=
  fits_handOver (r := { r with ranking := _ }) (h.update hnow weight identity) _

theorem descending?_eq (h : r.ranking.Fits) (hnow : now ≤ maxWord) :
    r.descending? now = some (r.descending now).value := by
  unfold descending?
  rw [h.descending?_eq hnow]
  rfl

theorem runTask?_eq (r : RollingRanking I) (number : Nat) :
    r.runTask? number = some (r.runTask number).value := by
  unfold runTask? runTask
  cases r.tasks[number]? with
  | none => rfl
  | some side =>
    dsimp only
    rw [ChunkedRanking.retire?_eq]
    rfl

theorem fits_runTask (h : r.ranking.Fits) (number : Nat) :
    (r.runTask number).value.2.ranking.Fits := by
  unfold runTask
  cases r.tasks[number]? with
  | none => exact h
  | some side => exact h.congr (ChunkedRanking.alike_retire _ side)

end RollingRanking

/-! ### Retentions -/

namespace RetainedRanking

/-- Only a rolling ranking has something to check. -/
def update? (r : RetainedRanking I) (now : Nat) (weight : Int64) (identity : I) :
    Option (RetainedRanking I) :=
  match r with
  | .rolling r => do
    let r ← r.update? now weight identity
    return .rolling r
  | r => some (r.update now weight identity).value

def descending? (r : RetainedRanking I) (now : Nat) :
    Option (List (Position I) × RetainedRanking I) :=
  match r with
  | .rolling r => do
    let (positions, r) ← r.descending? now
    return (positions, .rolling r)
  | r => some (r.descending now).value

instance : Checked (RetainedRanking I) (Int64 × I) Unit (List (Position I)) where
  write? r now offer := do
    let r ← r.update? now offer.1 offer.2
    return ((), r)
  read? := descending?

def runTask? (r : RetainedRanking I) (number : Nat) : Option (Bool × RetainedRanking I) :=
  match r with
  | .rolling r => do
    let (found, r) ← r.runTask? number
    return (found, .rolling r)
  | r => some (false, r)

omit [DecidableEq I] in
/-- What a ranking needs so that everything fits. -/
def Fits : RetainedRanking I → Prop
  | .rolling r => r.ranking.Fits
  | _ => True

variable {r : RetainedRanking I} {now : Nat}

theorem Fits.update?_eq (h : r.Fits) (hnow : now ≤ maxWord) (weight : Int64) (identity : I) :
    r.update? now weight identity = some (r.update now weight identity).value := by
  cases r with
  | rolling r =>
    unfold RetainedRanking.update?
    dsimp only
    rw [RollingRanking.update?_eq h hnow]
    rfl
  | _ => rfl

theorem Fits.update (h : r.Fits) (hnow : now ≤ maxWord) (weight : Int64) (identity : I) :
    (r.update now weight identity).value.Fits := by
  cases r with
  | rolling r => exact RollingRanking.fits_update h hnow weight identity
  | _ => trivial

theorem Fits.descending?_eq (h : r.Fits) (hnow : now ≤ maxWord) :
    r.descending? now = some (r.descending now).value := by
  cases r with
  | rolling r =>
    unfold RetainedRanking.descending?
    dsimp only
    rw [RollingRanking.descending?_eq h hnow]
    rfl
  | _ => rfl

theorem Fits.descending (h : r.Fits) (hnow : now ≤ maxWord) : (r.descending now).value.2.Fits := by
  cases r with
  | rolling r => exact ChunkedRanking.Fits.descending h hnow
  | _ => trivial

theorem runTask?_eq (r : RetainedRanking I) (number : Nat) :
    r.runTask? number = some (r.runTask number).value := by
  cases r with
  | rolling r =>
    unfold RetainedRanking.runTask?
    dsimp only
    rw [RollingRanking.runTask?_eq]
    rfl
  | _ => rfl

theorem Fits.runTask (h : r.Fits) (number : Nat) : (r.runTask number).value.2.Fits := by
  cases r with
  | rolling r => exact RollingRanking.fits_runTask h number
  | _ => trivial

omit [DecidableEq I] in
theorem Fits.dropTask (h : r.Fits) (number : Nat) : (r.dropTask number).2.Fits := by
  cases r with
  | rolling r => exact h
  | _ => trivial

theorem invariant_fits : Aggregate.Invariant (RetainedRanking.Fits (I := I)) where
  allFit := fun {r} h =>
    { write := fun now hnow offer => by
        show (r.update? now offer.1 offer.2 >>= fun r => some ((), r)) = _
        rw [h.update?_eq hnow]
        rfl
      read := fun _ hnow => h.descending?_eq hnow }
  write := fun h _ hnow offer => h.update hnow offer.1 offer.2
  read := fun h _ hnow => h.descending hnow

end RetainedRanking

end WindowedMetrics
