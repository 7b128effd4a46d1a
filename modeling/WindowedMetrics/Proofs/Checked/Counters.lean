import WindowedMetrics.Proofs.Checked.Windows

/-!
# Checked counters and hit ratios

Counters and hit ratios with all arithmetic checked, under every retention.  What they need to fit is said
by `Counter.Fits` and `HitRatio.Fits`, and no access breaks it.
-/

namespace WindowedMetrics

/-! ### Counters -/

namespace Counter

def rollingSum? (window : RollingWindow Int64) (now : Nat) : Option Int64 := do
  let live ← window.live? now
  live.foldlM (fun sum c => do
    let part ← c.2.scale? c.1
    return saturatingSum sum part) 0

/-- Deltas wrap and resets saturate: only a rolling window has something to check. -/
def add? (c : Counter) (now : Nat) (delta : Int64) : Option Counter :=
  match c with
  | .rolling window => do
    let window ← window.add? delta now
    return .rolling window
  | c => some (c.add now delta).value

def sum? (c : Counter) (now : Nat) : Option (Int64 × Counter) :=
  match c with
  | .rolling window => do
    let sum ← rollingSum? window now
    return (sum, c)
  | c => some (c.sum now).value

instance : Checked Counter Int64 Unit Int64 where
  write? c now delta := do
    let c ← c.add? now delta
    return ((), c)
  read? := sum?

def createRolling? (chunks interval now : Nat) : Option Counter := do
  let window ← RollingWindow.create? chunks interval now
  return .rolling window

/-- What a counter needs so that everything fits. -/
def Fits : Counter → Prop
  | .rolling window => window.Fits
  | _ => True

theorem rollingSum?_eq {window : RollingWindow Int64} (h : window.Fits) (now : Nat) :
    rollingSum? window now = some (rollingSum window now) := by
  unfold rollingSum? rollingSum
  rw [h.live?_eq now]
  simp only [Option.bind_eq_bind, Option.bind_some]
  refine foldlM_some _ _ _ _ fun sum c hc => ?_
  rw [RollingWindow.scale?_of_mem_live h hc]
  rfl

variable {c : Counter} {now : Nat}

theorem Fits.add?_eq (h : c.Fits) (hnow : now ≤ maxWord) (delta : Int64) :
    c.add? now delta = some (c.add now delta).value := by
  cases c with
  | rolling window =>
    unfold Counter.add?
    dsimp only
    rw [RollingWindow.Fits.add?_eq h trivial hnow]
    rfl
  | _ => rfl

theorem Fits.add (h : c.Fits) (now : Nat) (delta : Int64) : (c.add now delta).value.Fits := by
  cases c with
  | rolling window => exact RollingWindow.Fits.add h trivial now
  | _ => trivial

theorem Fits.sum?_eq (h : c.Fits) (now : Nat) : c.sum? now = some (c.sum now).value := by
  cases c with
  | rolling window =>
    unfold Counter.sum?
    dsimp only
    rw [rollingSum?_eq h]
    rfl
  | _ => rfl

theorem Fits.sum (h : c.Fits) (now : Nat) : (c.sum now).value.2.Fits := by
  cases c with
  | rolling window => exact h
  | _ => trivial

theorem invariant_fits : Aggregate.Invariant Counter.Fits where
  allFit := fun {c} h =>
    { write := fun now hnow delta => by
        show (c.add? now delta >>= fun c => some ((), c)) = _
        rw [h.add?_eq hnow]
        rfl
      read := fun now _ => h.sum?_eq now }
  write := fun h now _ delta => h.add now delta
  read := fun h now _ => h.sum now

end Counter

/-! ### Hit ratios -/

namespace HitRatio

def update? (r : HitRatio) (now : Nat) (hits total : UInt32) :
    Option (Except UsageFault Unit × HitRatio) :=
  if total < hits then some (.error (.hitsExceedTotal hits total), r)
  else match r with
    | .uniform counts => do
      let counts ← counts.add? hits total
      return (.ok (), .uniform counts)
    | .resetOnSnapshot counts => do
      let counts ← counts.add? hits total
      return (.ok (), .resetOnSnapshot counts)
    | .resetPeriodically reset counts => do
      let (counts, reset) := (reset.access now .zero counts).value
      let counts ← counts.add? hits total
      return (.ok (), .resetPeriodically reset counts)
    | .rolling window => do
      let window ← window.add? (hits, total) now
      return (.ok (), .rolling window)

def ratio? (r : HitRatio) (now : Nat) : Option (Float × HitRatio) :=
  match r with
  | .rolling window => do
    let live ← window.live? now
    let (hits, total) := weigh live
    return (quotient hits total, r)
  | r => some (r.ratio now).value

instance : Checked HitRatio (UInt32 × UInt32) (Except UsageFault Unit) Float where
  write? r now w := r.update? now w.1 w.2
  read? := ratio?

def createRolling? (chunks interval now : Nat) : Option HitRatio := do
  let window ← RollingWindow.create? chunks interval now
  return .rolling window

/-- What a hit ratio needs so that everything fits. -/
def Fits : HitRatio → Prop
  | .uniform counts => counts.Sound
  | .resetOnSnapshot counts => counts.Sound
  | .resetPeriodically _ counts => counts.Sound
  | .rolling window => window.Fits

variable {r : HitRatio} {now : Nat}

theorem sound_access {counts : HitCounts} (h : counts.Sound) (reset : PeriodicReset) (now : Nat) :
    (reset.access now .zero counts).value.1.Sound := by
  unfold PeriodicReset.access
  split
  · exact HitCounts.sound_zero
  · exact h

theorem Fits.update?_eq (h : r.Fits) (hnow : now ≤ maxWord) (hits total : UInt32) :
    r.update? now hits total = some (r.update now hits total).value := by
  unfold HitRatio.update? HitRatio.update
  split_ifs with hlt
  · rfl
  · have hle : hits ≤ total := UInt32.not_lt.mp hlt
    cases r with
    | uniform counts | resetOnSnapshot counts =>
      dsimp only
      rw [HitCounts.add?_of h hle]
      rfl
    | resetPeriodically reset counts =>
      have hadd := HitCounts.add?_of (sound_access h reset now) hle
      simp only [hadd, Option.bind_eq_bind, Option.bind_some]
      rfl
    | rolling window =>
      dsimp only
      rw [RollingWindow.Fits.add?_eq h hle hnow]
      rfl

theorem Fits.update (h : r.Fits) (now : Nat) (hits total : UInt32) :
    (r.update now hits total).value.2.Fits := by
  unfold HitRatio.update
  split_ifs with hlt
  · exact h
  · have hle : hits ≤ total := UInt32.not_lt.mp hlt
    cases r with
    | uniform counts | resetOnSnapshot counts => exact HitCounts.Sound.add h hle
    | resetPeriodically reset counts => exact (sound_access h reset now).add hle
    | rolling window =>
      have hfair : CheckedAccumulator.Fair HitCounts (hits, total) := hle
      exact RollingWindow.Fits.add h hfair now

theorem Fits.ratio?_eq (h : r.Fits) (now : Nat) : r.ratio? now = some (r.ratio now).value := by
  cases r with
  | rolling window =>
    unfold HitRatio.ratio?
    dsimp only
    rw [RollingWindow.Fits.live?_eq h]
    rfl
  | _ => rfl

theorem Fits.ratio (h : r.Fits) (now : Nat) : (r.ratio now).value.2.Fits := by
  cases r with
  | uniform counts | rolling window => exact h
  | resetOnSnapshot counts => exact HitCounts.sound_zero
  | resetPeriodically reset counts => exact sound_access h reset now

theorem invariant_fits : Aggregate.Invariant HitRatio.Fits where
  allFit := fun h =>
    { write := fun _ hnow w => h.update?_eq hnow w.1 w.2
      read := fun now _ => h.ratio?_eq now }
  write := fun h now _ w => h.update now w.1 w.2
  read := fun h now _ => h.ratio now

end HitRatio

end WindowedMetrics
