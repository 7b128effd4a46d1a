import WindowedMetrics.Counter
import WindowedMetrics.HitRatio.Basic
import WindowedMetrics.Proofs.Window.Live
import WindowedMetrics.Proofs.Window.Runs

/-!
# Sums over rolling windows

What a rolling counter returns and what a rolling hit ratio weighs, said in whole numbers and without
slots: the sum of the intervals of the window, of which the oldest fades out (`rolling_reads`).

Deltas of one interval wrap around like words; from one interval to the next the sum saturates.  Hence the
order of the intervals matters, and the order of the slots has to follow it.
-/

namespace WindowedMetrics

/-! ### Integers and words -/

/-- An integer, or the end of the range of words next to it. -/
def saturate (x : Int) : Int := max (-2 ^ 63) (min x (2 ^ 63 - 1))

/-- The word that an integer wraps around to. -/
def wrap (x : Int) : Int := x.bmod (2 ^ 64)

theorem toInt_saturatingSum (a b : Int64) :
    (saturatingSum a b).toInt = saturate (a.toInt + b.toInt) := by
  have hmin : Int64.minValue.toInt = -2 ^ 63 := Int64.toInt_minValue
  have hmax : Int64.maxValue.toInt = 2 ^ 63 - 1 := Int64.toInt_maxValue
  unfold saturatingSum saturate
  dsimp only
  rw [hmin, hmax]
  split_ifs with hlo hhi
  · rw [hmin]
    omega
  · rw [hmax]
    omega
  · rw [Int64.toInt_ofInt_of_le (by omega) (by omega)]
    omega

theorem saturatingSum_zero (a : Int64) : saturatingSum a 0 = a := by
  have h1 := a.le_toInt
  have h2 := a.toInt_lt
  refine Int64.toInt_inj.mp ?_
  rw [toInt_saturatingSum, Int64.toInt_zero]
  unfold saturate
  omega

/-- The sum of words as integers. -/
def exactSum (deltas : List Int64) : Int := deltas.foldl (fun sum d => sum + d.toInt) 0

/-- A sum of words wraps around once, however often its partial sums have. -/
theorem toInt_foldl_add (deltas : List Int64) :
    (deltas.foldl (· + ·) (0 : Int64)).toInt = wrap (exactSum deltas) := by
  induction deltas using List.reverseRecOn with
  | nil => rfl
  | append_singleton deltas d ih =>
    unfold exactSum at ih ⊢
    rw [List.foldl_append, List.foldl_cons, List.foldl_nil, Int64.toInt_add, ih, List.foldl_append]
    exact Int.bmod_add_bmod

/-- A part of a natural number, rounded toward zero, is not larger. -/
theorem tdiv_mul_mem {a r b : Int} (ha : 0 ≤ a) (hr : 0 ≤ r) (hrb : r ≤ b) :
    0 ≤ (a * r).tdiv b ∧ (a * r).tdiv b ≤ a := by
  have hnonneg : 0 ≤ a * r := Int.mul_nonneg ha hr
  refine ⟨Int.tdiv_nonneg hnonneg (hr.trans hrb), ?_⟩
  by_cases hb : b = 0
  · rw [hb, Int.tdiv_zero]
    exact ha
  · rw [Int.tdiv_eq_ediv_of_nonneg hnonneg]
    exact Int.ediv_le_of_le_mul (by omega) (Int.mul_le_mul_of_nonneg_left hrb ha)

/-- A share never leaves the range of words. -/
theorem toInt_scale_decaying {remaining interval : Nat} (h : remaining ≤ interval) (v : Int64) :
    ((Share.decaying remaining interval).scale v).toInt = (v.toInt * remaining).tdiv interval := by
  have h1 := v.le_toInt
  have h2 := v.toInt_lt
  have hr : (0 : Int) ≤ remaining := Int.natCast_nonneg _
  have hle : (remaining : Int) ≤ interval := Int.ofNat_le.mpr h
  show (Int64.ofInt _).toInt = _
  rcases Int.le_total 0 v.toInt with hv | hv
  · obtain ⟨hlo, hhi⟩ := tdiv_mul_mem hv hr hle
    rw [Int64.toInt_ofInt_of_le (by omega) (by omega)]
  · obtain ⟨hlo, hhi⟩ := tdiv_mul_mem (a := -v.toInt) (by omega) hr hle
    rw [Int.neg_mul, Int.neg_tdiv] at hlo hhi
    rw [Int64.toInt_ofInt_of_le (by omega) (by omega)]

/-! ### Counters -/

/-- What interval `j` of a window of `n` chunks adds to a read at `now`, if `sum` was added in it. -/
def contribution (creation interval n now : Nat) (sum : Int) (j : Nat) : Int :=
  let k := intervalIndex creation interval now
  if j + n = k then (sum * (creation + (k + 1) * interval - now)).tdiv interval else sum

theorem toInt_scale_shareAt {creation interval n now : Nat} (hi : 0 < interval) (hc : creation ≤ now)
    (v : Int64) (j : Nat) :
    ((shareAt creation interval n now j).scale v).toInt =
      contribution creation interval n now v.toInt j := by
  obtain ⟨-, hstart, hend⟩ := runsAt_intervalIndex hi hc
  have hnext : startOf creation interval (intervalIndex creation interval now + 1) =
      startOf creation interval (intervalIndex creation interval now) + 1 * interval := startOf_add _ 1
  unfold shareAt contribution
  dsimp only
  generalize intervalIndex creation interval now = k at hstart hend hnext ⊢
  have hrest : (creation + (k + 1) * interval - now : Int) =
      ((startOf creation interval (k + 1) - now : Nat) : Int) := by
    rw [Int.ofNat_sub (Nat.le_of_lt hend)]
    unfold startOf
    push_cast
    rfl
  by_cases hj : j + n = k
  · rw [if_pos hj, hrest]
    by_cases hlt : startOf creation interval k < now
    · rw [if_pos ⟨hj, hlt⟩]
      exact toInt_scale_decaying (by omega) v
    · -- at its start the last interval of the window still counts in full
      have hfull : startOf creation interval (k + 1) - now = interval := by omega
      rw [if_neg fun hc => hlt hc.2, hfull, Int.mul_tdiv_cancel _ (by omega)]
      rfl
  · rw [if_neg hj, if_neg fun hc => hj hc.1]
    rfl

/-- The sum that a window of `n` chunks has at `now`, if `sums j` was added in interval `j`: the oldest
interval first, with saturation. -/
def windowSum (creation interval n now : Nat) (sums : Nat → Int) : Int :=
  (windowIntervals n (intervalIndex creation interval now)).foldl
    (fun sum j => saturate (sum + contribution creation interval n now (sums j) j)) 0

theorem scale_zero (s : Share) : s.scale 0 = 0 := by
  cases s with
  | full => rfl
  | decaying remaining interval =>
    show Int64.ofInt ((0 * (remaining : Int)).tdiv interval) = 0
    rw [Int.zero_mul, Int.zero_tdiv]
    rfl

/-- Zeros do not change a sum. -/
theorem foldl_saturatingSum_filter (l : List (Int64 × Share)) (a : Int64) :
    (l.filter fun c => c.1 ≠ 0).foldl (fun sum c => saturatingSum sum (c.2.scale c.1)) a =
      l.foldl (fun sum c => saturatingSum sum (c.2.scale c.1)) a := by
  induction l generalizing a with
  | nil => rfl
  | cons c l ih =>
    by_cases hc : c.1 = 0
    · rw [List.filter_cons_of_neg (by simpa using hc), ih, List.foldl_cons, hc, scale_zero,
        saturatingSum_zero]
    · rw [List.filter_cons_of_pos (by simpa using hc), List.foldl_cons, ih, List.foldl_cons]

theorem toInt_foldl_saturatingSum {creation interval n now : Nat} (hi : 0 < interval)
    (hc : creation ≤ now) (total : Nat → Int64) (js : List Nat) (a : Int64) :
    ((js.map fun j => (total j, shareAt creation interval n now j)).foldl
      (fun sum c => saturatingSum sum (c.2.scale c.1)) a).toInt =
      js.foldl (fun sum j => saturate (sum + contribution creation interval n now (total j).toInt j))
        a.toInt := by
  induction js generalizing a with
  | nil => rfl
  | cons j js ih =>
    rw [List.map_cons, List.foldl_cons, ih, toInt_saturatingSum, toInt_scale_shareAt hi hc, List.foldl_cons]

theorem RollingWindow.Holds.toInt_rollingSum {w : RollingWindow Int64} {creation interval n now : Nat}
    {total : Nat → Int64}
    (h : w.Holds creation interval n total (intervalIndex creation interval now)) (hi : 0 < interval)
    (hc : creation ≤ now)
    (hbound : startOf creation interval (intervalIndex creation interval now + n + 1) ≤ dormant - 1) :
    (Counter.rollingSum w now).toInt =
      windowSum creation interval n now fun j => (total j).toInt := by
  have hlive : (w.live now).filter (fun c => c.1 ≠ 0) =
      ((windowIntervals n (intervalIndex creation interval now)).map fun j =>
        (total j, shareAt creation interval n now j)).filter fun c => c.1 ≠ 0 :=
    h.live_filter (runsAt_intervalIndex hi hc) hbound
  unfold Counter.rollingSum windowSum
  rw [← foldl_saturatingSum_filter, hlive, foldl_saturatingSum_filter, toInt_foldl_saturatingSum hi hc]
  rfl

/-! ### Runs of counters and hit ratios -/

theorem after_createRolling (n interval creation : Nat) (run : List (Access Int64)) :
    Aggregate.after (Counter.createRolling n interval creation) run =
      .rolling ((RollingWindow.create n interval creation).addAll (writesOf run)) := by
  induction run using List.reverseRecOn with
  | nil => rfl
  | append_singleton run access ih =>
    rw [Aggregate.after_concat, ih, writesOf_concat]
    cases access with
    | write now delta =>
      rw [Access.write?, Option.toList_some, RollingWindow.addAll_concat]
      rfl
    | read now =>
      rw [Access.write?, Option.toList_none, List.append_nil]
      rfl

/-- The updates of a run that are not refused, with their instants. -/
def acceptedOf (run : List (Access (UInt32 × UInt32))) : List (Nat × (UInt32 × UInt32)) :=
  (writesOf run).filter fun x => x.2.1 ≤ x.2.2

theorem after_createRolling_hitRatio (n interval creation : Nat)
    (run : List (Access (UInt32 × UInt32))) :
    Aggregate.after (HitRatio.createRolling n interval creation) run =
      .rolling ((RollingWindow.create n interval creation).addAll (acceptedOf run)) := by
  induction run using List.reverseRecOn with
  | nil => rfl
  | append_singleton run access ih =>
    unfold acceptedOf at ih ⊢
    rw [Aggregate.after_concat, ih, writesOf_concat, List.filter_append]
    cases access with
    | write now d =>
      rw [Access.write?, Option.toList_some]
      show (HitRatio.update _ now d.1 d.2).value.2 = _
      unfold HitRatio.update
      by_cases hd : d.2 < d.1
      · rw [if_pos hd, List.filter_cons_of_neg (by simpa using hd), List.filter_nil, List.append_nil]
        rfl
      · have hle : d.1 ≤ d.2 := UInt32.not_lt.mp hd
        rw [if_neg hd, List.filter_cons_of_pos (by simpa using hle), List.filter_nil,
          RollingWindow.addAll_concat]
        rfl
    | read now =>
      rw [Access.write?, Option.toList_none, List.filter_nil, List.append_nil]
      rfl

/-- Part of the writes of a run has a clock that does not go back, if the run has. -/
theorem clock_of_sublist {W : Type} {creation now : Nat} {run : List (Access W)} {writes : List (Nat × W)}
    (hclock : (creation :: run.map Access.instant ++ [now]).Pairwise (· ≤ ·))
    (hsub : writes.Sublist (writesOf run)) :
    (creation :: writes.map (·.1) ++ [now]).Pairwise (· ≤ ·) := by
  have hmap : (writes.map (·.1)).Sublist (run.map Access.instant) :=
    (hsub.map _).trans (map_writesOf_sublist run)
  exact hclock.sublist ((hmap.cons_cons creation).append (List.Sublist.refl [now]))

theorem creation_le_of_clock {creation now : Nat} {l : List Nat}
    (hclock : (creation :: l ++ [now]).Pairwise (· ≤ ·)) : creation ≤ now :=
  (List.pairwise_append.mp hclock).2.2 creation List.mem_cons_self now List.mem_cons_self

/-- **Reads of rolling counters and hit ratios.**  After any run whose clock does not go back and stays
clear of the last instant,

* a counter returns the sum of the intervals of its window, the oldest first, where each interval has the
  wrapped sum of what was added in it, and the oldest counts with the part of it that has not faded out;
* a hit ratio weighs, apart from empty chunks, the counts of the same intervals in the same order, where
  each interval has the counts of the accepted updates made in it, and only the first can be decaying. -/
theorem rolling_reads (n : Nat) {interval : Nat} (hi : 0 < interval) (creation now : Nat)
    (hbound : creation + (intervalIndex creation interval now + n + 1) * interval ≤ dormant - 1) :
    (∀ run : List (Access Int64),
      (creation :: run.map Access.instant ++ [now]).Pairwise (· ≤ ·) →
      ((Aggregate.after (Counter.createRolling n interval creation) run).sum now).value.1.toInt =
        windowSum creation interval n now fun j =>
          wrap (exactSum (deltasIn creation interval (writesOf run) j))) ∧
    ∀ run : List (Access (UInt32 × UInt32)),
      (creation :: run.map Access.instant ++ [now]).Pairwise (· ≤ ·) →
      ∃ window, Aggregate.after (HitRatio.createRolling n interval creation) run = .rolling window ∧
        (window.live now).filter (fun c => c.1 ≠ .zero) =
          ((windowIntervals n (intervalIndex creation interval now)).map fun j =>
            ((deltasIn creation interval (acceptedOf run) j).foldl (fun c d => c.add d.1 d.2) .zero,
              shareAt creation interval n now j)).filter (fun c => c.1 ≠ .zero) ∧
        ∀ c ∈ (window.live now).tail, c.2 = .full := by
  refine ⟨fun run hclock => ?_, fun run hclock => ?_⟩
  · have hc := creation_le_of_clock hclock
    have hholds := RollingWindow.holds_addAll (A := Int64) n hi (writesOf run)
      (clock_of_sublist hclock (List.Sublist.refl _)) hbound
    have hsums : (fun j => (collected Int64 creation interval (writesOf run) j).toInt) = fun j =>
        wrap (exactSum (deltasIn creation interval (writesOf run) j)) :=
      funext fun j => toInt_foldl_add _
    rw [after_createRolling, ← hsums, ← hholds.toInt_rollingSum hi hc hbound]
    rfl
  · have hc := creation_le_of_clock hclock
    have hholds := RollingWindow.holds_addAll (A := HitCounts) n hi (acceptedOf run)
      (clock_of_sublist hclock List.filter_sublist) hbound
    have hruns := runsAt_intervalIndex hi hc
    refine ⟨_, after_createRolling_hitRatio n interval creation run, ?_, ?_⟩
    · exact hholds.live_filter hruns hbound
    · exact hholds.full_of_mem_tail hruns hbound

/-- Of 100 in the oldest interval a fifth is left, and an interval between has nothing; of two updates in
the oldest interval one is refused. -/
theorem rolling_reads_fading :
    let run : List (Access Int64) := [.write 5 100, .read 15, .write 25 7]
    let updates : List (Access (UInt32 × UInt32)) := [.write 3 (1, 4), .write 4 (5, 4)]
    0 < 10 ∧ 0 + (intervalIndex 0 10 28 + 2 + 1) * 10 ≤ dormant - 1 ∧
      (0 :: run.map Access.instant ++ [28]).Pairwise (· ≤ ·) ∧
      ((Aggregate.after (Counter.createRolling 2 10 0) run).sum 28).value.1.toInt = 27 ∧
      (0 :: updates.map Access.instant ++ [28]).Pairwise (· ≤ ·) ∧
      ∃ window, Aggregate.after (HitRatio.createRolling 2 10 0) updates = .rolling window ∧
        (window.live 28).filter (fun c => c.1 ≠ .zero) = [(.pack 1 4, .decaying 2 10)] := by
  intro run updates
  have hi : 0 < 10 := by decide
  have hbound : 0 + (intervalIndex 0 10 28 + 2 + 1) * 10 ≤ dormant - 1 := by decide
  have hclock : (0 :: run.map Access.instant ++ [28]).Pairwise (· ≤ ·) := by decide
  have hclock' : (0 :: updates.map Access.instant ++ [28]).Pairwise (· ≤ ·) := by decide
  obtain ⟨hsum, hlive⟩ := rolling_reads 2 hi 0 28 hbound
  obtain ⟨window, hwindow, hshown, -⟩ := hlive updates hclock'
  refine ⟨hi, hbound, hclock, (hsum run hclock).trans (by decide +kernel), hclock', window, hwindow, ?_⟩
  exact hshown.trans (by decide +kernel)

end WindowedMetrics
