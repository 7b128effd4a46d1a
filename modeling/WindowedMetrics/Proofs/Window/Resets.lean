import WindowedMetrics.Proofs.HitRatio.Halving
import WindowedMetrics.Proofs.Window.Sums

/-!
# When a periodic reset takes place

A reset waits for an access.  The first access at least an interval after a reset performs the next one, and
the schedule goes on from there: resets do not stay on a grid, and an idle gap of any length takes one.
`resetAt` lists the resets of a run of accesses in this way, without a schedule.

Whatever the accesses, the schedule is an interval ahead of the latest of these resets, and the value has
what was written since (`PeriodicReset.holds_run`).  The access that performs a reset counts as written after
it.  Updates of a hit ratio that are refused do not access it.
-/

namespace WindowedMetrics

/-! ### The instants of resets -/

/-- The resets of a value that is accessed at some instants, the creation being the first: from each, the
first access at least an interval later. -/
def resetAt (interval creation : Nat) (accesses : List Nat) : Nat → Option Nat
  | 0 => some creation
  | i + 1 => (resetAt interval creation accesses i).bind fun r =>
      accesses.find? fun t => r + interval ≤ t

/-- `r` is a reset, and there is none after it. -/
def IsLatestReset (interval creation : Nat) (accesses : List Nat) (r : Nat) : Prop :=
  ∃ i, resetAt interval creation accesses i = some r ∧
    ∀ j, i < j → resetAt interval creation accesses j = none

section Instants

variable {interval creation now r : Nat} {accesses : List Nat}

theorem resetAt_succ {i : Nat} (h : resetAt interval creation accesses i = some r) :
    resetAt interval creation accesses (i + 1) = accesses.find? fun t => r + interval ≤ t := by
  simp [resetAt, h]

theorem mem_of_resetAt {i : Nat} (h : resetAt interval creation accesses i = some r) :
    r ∈ creation :: accesses := by
  cases i with
  | zero =>
    obtain rfl : creation = r := by simpa [resetAt] using h
    exact List.mem_cons_self
  | succ i =>
    obtain ⟨q, -, hfind⟩ := Option.bind_eq_some_iff.mp h
    exact List.mem_cons_of_mem _ (List.mem_of_find?_eq_some hfind)

theorem add_le_of_resetAt {i r' : Nat} (h : resetAt interval creation accesses i = some r)
    (h' : resetAt interval creation accesses (i + 1) = some r') : r + interval ≤ r' := by
  rw [resetAt_succ h] at h'
  simpa using List.find?_some h'

/-- Later accesses do not move the resets that were. -/
theorem resetAt_append {i : Nat} (h : resetAt interval creation accesses i = some r) (more : List Nat) :
    resetAt interval creation (accesses ++ more) i = some r := by
  induction i generalizing r with
  | zero => exact h
  | succ i ih =>
    obtain ⟨q, hq, hfind⟩ := Option.bind_eq_some_iff.mp h
    rw [resetAt_succ (ih hq), List.find?_append, hfind]
    rfl

/-- A reset is the latest if no access has come an interval after it. -/
theorem isLatestReset_iff : IsLatestReset interval creation accesses r ↔
    (∃ i, resetAt interval creation accesses i = some r) ∧ ∀ t ∈ accesses, t < r + interval := by
  constructor
  · rintro ⟨i, hi, hlast⟩
    have hnone := hlast (i + 1) (Nat.lt_succ_self i)
    rw [resetAt_succ hi] at hnone
    exact ⟨⟨i, hi⟩, by simpa using hnone⟩
  · rintro ⟨⟨i, hi⟩, hlt⟩
    refine ⟨i, hi, fun j hj => ?_⟩
    induction j, hj using Nat.le_induction with
    | base =>
      rw [resetAt_succ hi]
      simpa using hlt
    | succ j _ ih =>
      unfold resetAt
      rw [ih]
      rfl

theorem IsLatestReset.unique {r' : Nat} (h : IsLatestReset interval creation accesses r)
    (h' : IsLatestReset interval creation accesses r') : r = r' := by
  obtain ⟨i, hi, hlast⟩ := h
  obtain ⟨i', hi', hlast'⟩ := h'
  rcases Nat.lt_trichotomy i i' with hlt | rfl | hgt
  · simp [hlast i' hlt] at hi'
  · exact Option.some.inj (hi.symm.trans hi')
  · simp [hlast' i hgt] at hi

/-- **One more access** performs a reset if it comes an interval after the latest one. -/
theorem IsLatestReset.concat (h : IsLatestReset interval creation accesses r) (hi : 0 < interval)
    (hle : ∀ t ∈ accesses, t ≤ now) :
    IsLatestReset interval creation (accesses ++ [now])
      (if r + interval ≤ now then now else r) := by
  obtain ⟨⟨i, hreset⟩, hlt⟩ := isLatestReset_iff.mp h
  have hkept := resetAt_append hreset [now]
  refine isLatestReset_iff.mpr ?_
  split_ifs with hdue
  · refine ⟨⟨i + 1, ?_⟩, fun t ht => ?_⟩
    · have hnone : accesses.find? (fun t => r + interval ≤ t) = none := by simpa using hlt
      rw [resetAt_succ hkept, List.find?_append, hnone]
      simp [hdue]
    · rcases List.mem_append.mp ht with ht | ht
      · have := hle t ht
        omega
      · obtain rfl := List.mem_singleton.mp ht
        omega
  · refine ⟨⟨i, hkept⟩, fun t ht => ?_⟩
    rcases List.mem_append.mp ht with ht | ht
    · exact hlt t ht
    · obtain rfl := List.mem_singleton.mp ht
      omega

theorem isLatestReset_nil (interval creation : Nat) : IsLatestReset interval creation [] creation :=
  isLatestReset_iff.mpr ⟨⟨0, rfl⟩, by simp⟩

end Instants

/-! ### What was written since -/

variable {W : Type}

/-- What was written at an instant or later. -/
def writtenSince (r : Nat) (writes : List (Nat × W)) : List W :=
  (writes.filter fun x => r ≤ x.1).map (·.2)

theorem writtenSince_concat {r now : Nat} (h : r ≤ now) (writes : List (Nat × W)) (w : W) :
    writtenSince r (writes ++ [(now, w)]) = writtenSince r writes ++ [w] := by
  simp [writtenSince, h]

theorem writtenSince_eq_nil {r : Nat} {run : List (Access W)}
    (h : ∀ t ∈ run.map Access.instant, t < r) : writtenSince r (writesOf run) = [] := by
  have hnone : (writesOf run).filter (fun x => r ≤ x.1) = [] := by
    refine List.filter_eq_nil_iff.mpr fun x hx => ?_
    have := h x.1 ((map_writesOf_sublist run).subset (List.mem_map_of_mem hx))
    simpa using this
  rw [writtenSince, hnone]
  rfl

namespace PeriodicReset

theorem value_access {α : Type} (p : PeriodicReset) (now : Nat) (zero value : α) :
    (p.access now zero value).value =
      if p.next ≤ now then (zero, p.reschedule now) else (value, p) := by
  unfold access due
  by_cases h : p.next ≤ now
  · simp [h]
  · simp [h]

variable {A D : Type} [Accumulator A D]

/-- A value and its schedule after an access. -/
def serve (s : A × PeriodicReset) (access : Access D) : A × PeriodicReset :=
  let s' := (s.2.access access.instant Accumulator.zero s.1).value
  match access with
  | .write _ delta => (Accumulator.add s'.1 delta, s'.2)
  | .read _ => s'

/-- A value with what was written since the reset at `r`, the latest of a run. -/
structure Holds (s : A × PeriodicReset) (interval creation : Nat) (run : List (Access D)) (r : Nat) :
    Prop where
  latest : IsLatestReset interval creation (run.map Access.instant) r
  reset_eq : s.2 = ⟨interval, r + interval⟩
  value_eq : s.1 = (writtenSince r (writesOf run)).foldl Accumulator.add Accumulator.zero

variable {s : A × PeriodicReset} {interval creation r : Nat} {run : List (Access D)}

theorem holds_create (h : creation + interval ≤ maxWord) :
    Holds ((Accumulator.zero, create interval creation) : A × PeriodicReset) interval creation []
      creation where
  latest := isLatestReset_nil interval creation
  reset_eq := by rw [create, satAdd_of_le h]
  value_eq := rfl

/-- What is written is added to what was written since the reset. -/
theorem Holds.write {s' : A × PeriodicReset} {access : Access D} (hr : r ≤ access.instant)
    (hlatest : IsLatestReset interval creation ((run ++ [access]).map Access.instant) r)
    (haccess : (s.2.access access.instant Accumulator.zero s.1).value = s')
    (hreset : s'.2 = ⟨interval, r + interval⟩)
    (hvalue : s'.1 = (writtenSince r (writesOf run)).foldl Accumulator.add Accumulator.zero) :
    Holds (serve s access) interval creation (run ++ [access]) r := by
  subst haccess
  refine ⟨hlatest, ?_, ?_⟩
  · cases access with
    | write now delta | read now => exact hreset
  · rw [writesOf_concat]
    cases access with
    | write now delta =>
      rw [Access.write?, Option.toList_some, writtenSince_concat (by exact hr), List.foldl_append, ← hvalue]
      rfl
    | read now =>
      rw [Access.write?, Option.toList_none, List.append_nil, ← hvalue]
      rfl

/-- **One access** resets the value first, if that is due. -/
theorem Holds.serve (h : Holds s interval creation run r) (hi : 0 < interval) (access : Access D)
    (hle : ∀ t ∈ creation :: run.map Access.instant, t ≤ access.instant)
    (hlimit : access.instant + interval ≤ maxWord) :
    Holds (serve s access) interval creation (run ++ [access])
      (if r + interval ≤ access.instant then access.instant else r) := by
  have hlatest := h.latest.concat hi fun t ht => hle t (List.mem_cons_of_mem _ ht)
  obtain ⟨⟨i, hreset⟩, hlt⟩ := isLatestReset_iff.mp h.latest
  have hnext : s.2.next = r + interval := by rw [h.reset_eq]
  have haccess := value_access s.2 access.instant Accumulator.zero s.1
  rw [hnext] at haccess
  rw [← List.map_singleton, ← List.map_append] at hlatest
  split_ifs at hlatest haccess ⊢ with hdue
  · refine Holds.write (Nat.le_refl _) hlatest haccess ?_ ?_
    · rw [h.reset_eq, reschedule, satAdd_of_le hlimit]
    · -- all that was written before came before the reset was due
      rw [writtenSince_eq_nil fun t ht => Nat.lt_of_lt_of_le (hlt t ht) hdue]
      rfl
  · exact Holds.write (hle r (mem_of_resetAt hreset)) hlatest haccess h.reset_eq h.value_eq

/-- **After any run** the schedule is an interval ahead of the latest reset, and the value has what was
written since. -/
theorem holds_run (hi : 0 < interval) (run : List (Access D))
    (hclock : (creation :: run.map Access.instant).Pairwise (· ≤ ·))
    (hlimit : ∀ t ∈ creation :: run.map Access.instant, t + interval < maxWord) :
    ∃ r, Holds (run.foldl PeriodicReset.serve (Accumulator.zero, create interval creation) : A × _)
      interval creation run r := by
  induction run using List.reverseRecOn with
  | nil => exact ⟨creation, holds_create (Nat.le_of_lt (hlimit creation List.mem_cons_self))⟩
  | append_singleton run access ih =>
    rw [List.map_append, ← List.cons_append, List.map_singleton] at hclock hlimit
    obtain ⟨hbefore, -, hle⟩ := List.pairwise_append.mp hclock
    obtain ⟨r, hr⟩ := ih hbefore fun t ht => hlimit t (List.mem_append_left _ ht)
    rw [List.foldl_append]
    exact ⟨_, hr.serve hi access (fun t ht => hle t ht _ List.mem_cons_self)
      (Nat.le_of_lt (hlimit _ (List.mem_append_right _ List.mem_cons_self)))⟩

/-- What is counted when a run ends with a read is less than an interval old. -/
theorem Holds.age_lt {before : List (Access D)} {now : Nat}
    (h : Holds s interval creation (before ++ [.read now]) r) {x : Nat × D} (hx : r ≤ x.1) :
    now < x.1 + interval := by
  have hlt := (isLatestReset_iff.mp h.latest).2 now (by simp [Access.instant])
  omega

end PeriodicReset

/-! ### Counters and hit ratios -/

theorem after_createPeriodic (interval creation : Nat) (run : List (Access Int64)) :
    Aggregate.after (Counter.createPeriodic interval creation) run =
      let s := run.foldl PeriodicReset.serve (0, PeriodicReset.create interval creation)
      .resetPeriodically s.2 s.1 := by
  induction run using List.reverseRecOn with
  | nil => rfl
  | append_singleton run access ih =>
    rw [Aggregate.after_concat, ih, List.foldl_append]
    cases access with
    | write now delta | read now => rfl

/-- Whether an access of a hit ratio is no update that is refused. -/
def Access.isAccepted : Access (UInt32 × UInt32) → Bool
  | .write _ d => d.1 ≤ d.2
  | .read _ => true

theorem HitRatio.update_of_refused (ratio : HitRatio) (now : Nat) {hits total : UInt32}
    (h : total < hits) :
    ratio.update now hits total = pure (.error (.hitsExceedTotal hits total), ratio) := if_pos h

theorem after_createPeriodic_hitRatio (interval creation : Nat)
    (run : List (Access (UInt32 × UInt32))) :
    Aggregate.after (HitRatio.createPeriodic interval creation) run =
      let s := (run.filter Access.isAccepted).foldl PeriodicReset.serve
        (HitCounts.zero, PeriodicReset.create interval creation)
      .resetPeriodically s.2 s.1 := by
  induction run using List.reverseRecOn with
  | nil => rfl
  | append_singleton run access ih =>
    rw [Aggregate.after_concat, ih, List.filter_append]
    cases access with
    | write now d =>
      show (HitRatio.update _ now d.1 d.2).value.2 = _
      by_cases hd : d.2 < d.1
      · rw [HitRatio.update_of_refused _ now hd,
          List.filter_cons_of_neg (by simpa [Access.isAccepted] using hd), List.filter_nil,
          List.append_nil]
        rfl
      · have hle : d.1 ≤ d.2 := UInt32.not_lt.mp hd
        unfold HitRatio.update
        rw [if_neg hd, List.filter_cons_of_pos (by simpa [Access.isAccepted] using hle),
          List.filter_nil, List.foldl_append]
        rfl
    | read now =>
      rw [List.filter_cons_of_pos rfl, List.filter_nil, List.foldl_append]
      rfl

/-- **Periodic resets.**  After any run whose clock does not go back and stays clear of the last instant,

* a counter has the wrapped sum of what was added since the latest reset, and a read returns that;
* a hit ratio has the counts that the updates accepted since the latest reset make when they are added to
  none, and a read returns their ratio;

and the next reset is due an interval after the latest.  What a read returns has nothing in it that is an
interval old.  Resets are at least an interval apart, and an update that is refused changes nothing. -/
theorem periodic_resets {interval : Nat} (hi : 0 < interval) (creation : Nat) :
    (∀ run : List (Access Int64),
      (creation :: run.map Access.instant).Pairwise (· ≤ ·) →
      (∀ t ∈ creation :: run.map Access.instant, t + interval < maxWord) →
      ∃ r sum, IsLatestReset interval creation (run.map Access.instant) r ∧
        Aggregate.after (Counter.createPeriodic interval creation) run =
          .resetPeriodically ⟨interval, r + interval⟩ sum ∧
        sum.toInt = wrap (exactSum (writtenSince r (writesOf run))) ∧
        ∀ before now, run = before ++ [.read now] →
          ((Aggregate.after (Counter.createPeriodic interval creation) before).sum now).value.1 = sum ∧
          ∀ x ∈ writesOf run, r ≤ x.1 → now < x.1 + interval) ∧
    (∀ run : List (Access (UInt32 × UInt32)),
      let accepted := run.filter Access.isAccepted
      (creation :: accepted.map Access.instant).Pairwise (· ≤ ·) →
      (∀ t ∈ creation :: accepted.map Access.instant, t + interval < maxWord) →
      ∃ r counts, IsLatestReset interval creation (accepted.map Access.instant) r ∧
        Aggregate.after (HitRatio.createPeriodic interval creation) run =
          .resetPeriodically ⟨interval, r + interval⟩ counts ∧
        counts = (writtenSince r (writesOf accepted)).foldl (fun c d => c.add d.1 d.2) .zero ∧
        ∀ before now, run = before ++ [.read now] →
          ((Aggregate.after (HitRatio.createPeriodic interval creation) before).ratio now).value.1 =
            HitRatio.ofCounts counts ∧
          ∀ x ∈ writesOf accepted, r ≤ x.1 → now < x.1 + interval) ∧
    (∀ (accesses : List Nat) (i r r' : Nat), resetAt interval creation accesses i = some r →
      resetAt interval creation accesses (i + 1) = some r' → r + interval ≤ r') ∧
    ∀ (run : List (Access (UInt32 × UInt32))) (now : Nat) (hits total : UInt32), total < hits →
      (Aggregate.after (HitRatio.createPeriodic interval creation) run).update now hits total =
        pure (.error (.hitsExceedTotal hits total),
          Aggregate.after (HitRatio.createPeriodic interval creation) run) := by
  refine ⟨?_, ?_, fun accesses i r r' => add_le_of_resetAt,
    fun run now hits total => HitRatio.update_of_refused _ now⟩
  · intro run hclock hlimit
    obtain ⟨r, hr⟩ := PeriodicReset.holds_run (A := Int64) hi run hclock hlimit
    refine ⟨r, (run.foldl PeriodicReset.serve (0, .create interval creation)).1, hr.latest, ?_, ?_, ?_⟩
    · rw [after_createPeriodic, ← hr.reset_eq]
      rfl
    · exact (congrArg Int64.toInt hr.value_eq).trans (toInt_foldl_add _)
    · rintro before now rfl
      refine ⟨?_, fun x _ hx => hr.age_lt hx⟩
      rw [after_createPeriodic, List.foldl_append]
      rfl
  · intro run accepted hclock hlimit
    obtain ⟨r, hr⟩ := PeriodicReset.holds_run (A := HitCounts) hi accepted hclock hlimit
    refine ⟨r, (accepted.foldl PeriodicReset.serve (.zero, .create interval creation)).1, hr.latest, ?_,
      hr.value_eq, ?_⟩
    · rw [after_createPeriodic_hitRatio, ← hr.reset_eq]
      rfl
    · rintro before now rfl
      have haccepted : accepted = before.filter Access.isAccepted ++ [.read now] := by
        simp [accepted, Access.isAccepted]
      refine ⟨?_, fun x _ hx => (haccepted ▸ hr).age_lt hx⟩
      rw [after_createPeriodic_hitRatio, haccepted, List.foldl_append]
      rfl

/-- An addition just when a reset is due, one after an idle gap and a sum that wraps around; an update that
is refused after a reset was due. -/
theorem periodic_resets_gap :
    let before : List (Access Int64) :=
      [.write 7 100, .write 15 3, .read 24, .write 40 Int64.maxValue, .write 41 1]
    let run := before ++ [.read 49]
    let updates : List (Access (UInt32 × UInt32)) := [.write 7 (1, 4), .write 16 (5, 4), .write 17 (2, 3)]
    let accepted := updates.filter Access.isAccepted
    (0 < 10 ∧ (5 :: run.map Access.instant).Pairwise (· ≤ ·) ∧
      (∀ t ∈ 5 :: run.map Access.instant, t + 10 < maxWord) ∧
      IsLatestReset 10 5 (run.map Access.instant) 40 ∧
      ((Aggregate.after (Counter.createPeriodic 10 5) before).sum 49).value.1.toInt = -2 ^ 63) ∧
    (5 :: accepted.map Access.instant).Pairwise (· ≤ ·) ∧
      (∀ t ∈ 5 :: accepted.map Access.instant, t + 10 < maxWord) ∧
      IsLatestReset 10 5 (accepted.map Access.instant) 17 ∧
      Aggregate.after (HitRatio.createPeriodic 10 5) updates =
        .resetPeriodically ⟨10, 27⟩ (.pack 2 3) ∧
    resetAt 10 5 (run.map Access.instant) 1 = some 15 ∧
      resetAt 10 5 (run.map Access.instant) 2 = some 40 ∧ 15 + 10 ≤ 40 ∧
    (4 : UInt32) < 5 ∧ (Aggregate.after (HitRatio.createPeriodic 10 5) updates).update 30 5 4 =
      pure (.error (.hitsExceedTotal 5 4), Aggregate.after (HitRatio.createPeriodic 10 5) updates) := by
  intro before run updates accepted
  have hi : 0 < 10 := by decide
  have hclock : (5 :: run.map Access.instant).Pairwise (· ≤ ·) := by decide
  have hlimit : ∀ t ∈ 5 :: run.map Access.instant, t + 10 < maxWord := by decide
  have hclock' : (5 :: accepted.map Access.instant).Pairwise (· ≤ ·) := by decide
  have hlimit' : ∀ t ∈ 5 :: accepted.map Access.instant, t + 10 < maxWord := by decide
  have hlatest : IsLatestReset 10 5 (run.map Access.instant) 40 :=
    isLatestReset_iff.mpr ⟨⟨2, by decide⟩, by decide⟩
  have hlatest' : IsLatestReset 10 5 (accepted.map Access.instant) 17 :=
    isLatestReset_iff.mpr ⟨⟨1, by decide⟩, by decide⟩
  have hfirst : resetAt 10 5 (run.map Access.instant) 1 = some 15 := by decide
  have hsecond : resetAt 10 5 (run.map Access.instant) 2 = some 40 := by decide
  obtain ⟨hcounter, hratio, hapart, hrefused⟩ := periodic_resets hi 5
  obtain ⟨r, sum, hr, -, hsum, hread⟩ := hcounter run hclock hlimit
  obtain ⟨r', counts, hr', hafter, hcounts, -⟩ := hratio updates hclock' hlimit'
  obtain rfl := hr.unique hlatest
  obtain rfl := hr'.unique hlatest'
  refine ⟨⟨hi, hclock, hlimit, hlatest, ?_⟩, hclock', hlimit', hlatest', ?_, hfirst, hsecond,
    hapart _ 1 15 40 hfirst hsecond, by decide, hrefused updates 30 5 4 (by decide)⟩
  · rw [(hread before 49 rfl).1, hsum]
    decide
  · rw [hafter, hcounts]
    exact congrArg (HitRatio.resetPeriodically ⟨10, 27⟩) (by decide +kernel)

end WindowedMetrics
