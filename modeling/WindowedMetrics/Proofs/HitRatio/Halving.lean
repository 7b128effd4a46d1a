import Mathlib.Algebra.Order.Field.Basic
import Mathlib.Algebra.Order.Field.Rat
import Mathlib.Tactic.Ring
import WindowedMetrics.Proofs.Batches
import WindowedMetrics.Proofs.Checked.Counters

/-!
# Halved counts

An addition to packed counts first halves both until the new attempts fit, and no longer than that
(`makeRoom_eq`).  As long as there are no more hits than attempts the hits fit, too, and neither half of the
word runs into the other.

* Halving keeps the share of hits up to its last place: `abs_shiftRight_mul_sub_lt`.
* Nothing is halved while all attempts since the last reset fit; the counts are then exact
  (`exact_collect`).
* No operation of a hit ratio stores more hits than attempts (`HitRatio.sound_after`).
-/

namespace WindowedMetrics

namespace HitCounts

/-! ### The number of halvings -/

/-- The numbers of halvings of the attempts after which some more fit. -/
def fitting (total room : UInt32) : Set Nat := {k | (total.toNat >>> k) + room.toNat < UInt32.size}

theorem mem_fitting {total room : UInt32} {k : Nat} :
    k ∈ fitting total room ↔ (total.toNat >>> k) + room.toNat < UInt32.size := Iff.rfl

theorem shiftRight_succ_eq (a : UInt32) (k : Nat) : a.toNat >>> (k + 1) = (a / 2).toNat >>> k := by
  rw [UInt32.toNat_div, Nat.add_comm, Nat.shiftRight_add, Nat.shiftRight_eq_div_pow a.toNat]
  rfl

theorem succ_mem_fitting {total room : UInt32} {k : Nat} :
    k + 1 ∈ fitting total room ↔ k ∈ fitting (total / 2) room := by
  rw [mem_fitting, mem_fitting, shiftRight_succ_eq]

/-- A word has nothing left after 32 halvings. -/
theorem mem_fitting_last (total room : UInt32) : 32 ∈ fitting total room := by
  have ht := total.toNat_lt
  have hr := room.toNat_lt
  have hsize : UInt32.size = 2 ^ 32 := rfl
  rw [mem_fitting, Nat.shiftRight_eq_div_pow, Nat.div_eq_of_lt ht]
  omega

/-- **Room is made by as few halvings as possible.** -/
theorem makeRoom_eq (hits total room : UInt32) : ∃ k, IsLeast (fitting total room) k ∧
    (makeRoom hits total room).1.toNat = hits.toNat >>> k ∧
    (makeRoom hits total room).2.toNat = total.toNat >>> k := by
  fun_induction makeRoom hits total room with
  | case1 hits total hroom => exact ⟨0, ⟨hroom, fun _ _ => Nat.zero_le _⟩, rfl, rfl⟩
  | case2 hits total hfull ih =>
    obtain ⟨k, ⟨hmem, hleast⟩, hhits, htotal⟩ := ih
    refine ⟨k + 1, ⟨succ_mem_fitting.mpr hmem, fun j hj => ?_⟩, ?_, ?_⟩
    · cases j with
      | zero => exact absurd hj hfull
      | succ j => exact Nat.succ_le_succ (hleast (succ_mem_fitting.mp hj))
    · rw [hhits, shiftRight_succ_eq]
    · rw [htotal, shiftRight_succ_eq]

/-! ### Additions -/

variable {c : HitCounts} {hits total : UInt32}

theorem Sound.le (h : c.Sound) : c.hits.toNat ≤ c.total.toNat := UInt32.le_iff_toNat_le.mp h

/-- **An addition** after `k` halvings, with nothing carried and nothing lost. -/
theorem Sound.add_eq (hc : c.Sound) (h : hits ≤ total) : ∃ k, IsLeast (fitting c.total total) k ∧
    (c.add hits total).hits.toNat = (c.hits.toNat >>> k) + hits.toNat ∧
    (c.add hits total).total.toNat = (c.total.toNat >>> k) + total.toNat := by
  obtain ⟨k, hk, hhits, htotal⟩ := makeRoom_eq c.hits c.total total
  have hroom : (c.total.toNat >>> k) + total.toNat < 2 ^ 32 := hk.1
  have hle : c.hits.toNat >>> k ≤ c.total.toNat >>> k := by
    rw [Nat.shiftRight_eq_div_pow, Nat.shiftRight_eq_div_pow]
    exact Nat.div_le_div_right hc.le
  rw [UInt32.le_iff_toNat_le] at h
  refine ⟨k, hk, ?_, ?_⟩
  · unfold HitCounts.add
    dsimp only
    rw [hits_pack, UInt32.toNat_add, hhits, Nat.mod_eq_of_lt (by omega)]
  · unfold HitCounts.add
    dsimp only
    rw [total_pack, UInt32.toNat_add, htotal, Nat.mod_eq_of_lt hroom]

/-- The word of counts is nothing but the counts. -/
theorem toNat_word (c : HitCounts) : c.word.toNat = c.hits.toNat * 2 ^ 32 + c.total.toNat := by
  have hw := c.word.toNat_lt
  unfold HitCounts.hits HitCounts.total
  rw [UInt64.toNat_toUInt32, UInt64.toNat_toUInt32, UInt64.toNat_shiftRight]
  show _ = (c.word.toNat >>> 32) % 2 ^ 32 * 2 ^ 32 + c.word.toNat % 2 ^ 32
  rw [Nat.shiftRight_eq_div_pow]
  omega

end HitCounts

/-! ### The share of hits -/

section Share

variable {h t : Nat}

/-- **Halving loses less than one place of the attempts.** -/
theorem abs_shiftRight_mul_sub_lt (hle : h ≤ t) (ht : 0 < t) (k : Nat) :
    |((h >>> k : Nat) : Int) * t - h * (t >>> k : Nat)| < t := by
  rw [Nat.shiftRight_eq_div_pow, Nat.shiftRight_eq_div_pow]
  have hp : 0 < 2 ^ k := Nat.two_pow_pos k
  generalize 2 ^ k = p at hp
  have hh : p * (h / p) + h % p = h := Nat.div_add_mod h p
  have hhp : h % p < p := Nat.mod_lt _ hp
  have htt : p * (t / p) + t % p = t := Nat.div_add_mod t p
  have htp : t % p < p := Nat.mod_lt _ hp
  have hdiv : h / p ≤ t / p := Nat.div_le_div_right hle
  generalize h / p = a at *
  generalize h % p = b at *
  generalize t / p = c at *
  generalize t % p = d at *
  -- what is left of the difference are the remainders, each weighed with the other quotient
  have hdiff : (a : Int) * t - h * c = a * d - b * c := by
    rw [← hh, ← htt]
    push_cast
    ring
  have had : a * d < t := by
    rcases Nat.eq_zero_or_pos c with rfl | hc
    · obtain rfl : a = 0 := Nat.le_zero.mp hdiv
      omega
    · calc a * d ≤ c * d := Nat.mul_le_mul_right d hdiv
        _ < c * p := Nat.mul_lt_mul_of_pos_left htp hc
        _ ≤ t := by rw [Nat.mul_comm]; omega
  have hbc : b * c < t := by
    rcases Nat.eq_zero_or_pos c with rfl | hc
    · omega
    · calc b * c < p * c := Nat.mul_lt_mul_of_pos_right hhp hc
        _ ≤ t := by omega
  rw [hdiff, abs_lt]
  constructor
  · have : (b : Int) * c < t := by exact_mod_cast hbc
    have : (0 : Int) ≤ a * d := Int.mul_nonneg (Int.natCast_nonneg a) (Int.natCast_nonneg d)
    omega
  · have : (a : Int) * d < t := by exact_mod_cast had
    have : (0 : Int) ≤ b * c := Int.mul_nonneg (Int.natCast_nonneg b) (Int.natCast_nonneg c)
    omega

theorem abs_share_sub_lt (hle : h ≤ t) {k : Nat} (hk : 0 < t >>> k) :
    |((h >>> k : Nat) : ℚ) / (t >>> k : Nat) - h / t| < 1 / (t >>> k : Nat) := by
  have ht : 0 < t := Nat.lt_of_lt_of_le hk (Nat.shiftRight_le t k)
  have hint := abs_shiftRight_mul_sub_lt hle ht k
  have hrat : |((h >>> k : Nat) : ℚ) * t - h * (t >>> k : Nat)| < t := by exact_mod_cast hint
  have hc : (0 : ℚ) < (t >>> k : Nat) := by exact_mod_cast hk
  have htq : (0 : ℚ) < t := by exact_mod_cast ht
  rw [div_sub_div _ _ hc.ne' htq.ne', abs_div, abs_of_pos (mul_pos hc htq),
    div_lt_div_iff₀ (mul_pos hc htq) hc, mul_comm ((t >>> k : Nat) : ℚ) (h : ℚ)]
  calc |((h >>> k : Nat) : ℚ) * t - h * (t >>> k : Nat)| * (t >>> k : Nat)
      < t * (t >>> k : Nat) := mul_lt_mul_of_pos_right hrat hc
    _ = 1 * ((t >>> k : Nat) * t) := by ring

end Share

/-! ### Additions and resets -/

namespace HitCounts

/-- What is done to packed counts. -/
inductive Call where
  | add (hits total : UInt32)
  | reset

def Call.delta? : Call → Option (UInt32 × UInt32)
  | .add hits total => some (hits, total)
  | .reset => none

/-- The counts after a call. -/
def call (c : HitCounts) : Call → HitCounts
  | .add hits total => c.add hits total
  | .reset => zero

/-- The counts after additions to none. -/
def collect (deltas : List (UInt32 × UInt32)) : HitCounts :=
  deltas.foldl Accumulator.add Accumulator.zero

theorem collect_concat (deltas : List (UInt32 × UInt32)) (d : UInt32 × UInt32) :
    collect (deltas ++ [d]) = (collect deltas).add d.1 d.2 := by
  simp [collect, Accumulator.add]

/-- Only what was added since the last reset counts. -/
theorem foldl_call (pending : List (UInt32 × UInt32)) (calls : List Call) :
    calls.foldl call (collect pending) = collect (sinceRead Call.delta? pending calls) := by
  induction calls generalizing pending with
  | nil => rfl
  | cons c calls ih =>
    cases c with
    | add hits total =>
      show calls.foldl call ((collect pending).add hits total) = _
      rw [← collect_concat pending (hits, total)]
      exact ih _
    | reset => exact ih []

variable {deltas : List (UInt32 × UInt32)}

theorem sound_collect (hfair : ∀ d ∈ deltas, d.1 ≤ d.2) : (collect deltas).Sound := by
  induction deltas using List.reverseRecOn with
  | nil => exact sound_zero
  | append_singleton deltas d ih =>
    rw [collect_concat]
    exact (ih fun x hx => hfair x (List.mem_append_left _ hx)).add
      (hfair d (List.mem_append_right _ List.mem_cons_self))

/-- The hits of some additions. -/
def hitsOf (deltas : List (UInt32 × UInt32)) : Nat := (deltas.map fun d => d.1.toNat).sum

/-- The attempts of some additions. -/
def totalOf (deltas : List (UInt32 × UInt32)) : Nat := (deltas.map fun d => d.2.toNat).sum

/-- **Counts that fit are exact.** -/
theorem exact_collect (hfair : ∀ d ∈ deltas, d.1 ≤ d.2) (hfit : totalOf deltas < UInt32.size) :
    (collect deltas).hits.toNat = hitsOf deltas ∧ (collect deltas).total.toNat = totalOf deltas := by
  induction deltas using List.reverseRecOn with
  | nil => exact ⟨rfl, rfl⟩
  | append_singleton deltas d ih =>
    have hhits : hitsOf (deltas ++ [d]) = hitsOf deltas + d.1.toNat := by simp [hitsOf]
    have htotal : totalOf (deltas ++ [d]) = totalOf deltas + d.2.toNat := by simp [totalOf]
    rw [htotal] at hfit
    have hbefore : ∀ x ∈ deltas, x.1 ≤ x.2 := fun x hx => hfair x (List.mem_append_left _ hx)
    obtain ⟨ihhits, ihtotal⟩ := ih hbefore (by omega)
    obtain ⟨k, hk, hadd⟩ := (sound_collect hbefore).add_eq
      (hfair d (List.mem_append_right _ List.mem_cons_self))
    -- the new attempts fit as they are
    have hzero : 0 ∈ fitting (collect deltas).total d.2 := by
      rw [mem_fitting, ihtotal]
      exact hfit
    obtain rfl : k = 0 := Nat.le_zero.mp (hk.2 hzero)
    rw [collect_concat, hadd.1, hadd.2, ihhits, ihtotal, hhits, htotal]
    exact ⟨rfl, rfl⟩

theorem eq_of_counts {c c' : HitCounts} (hhits : c.hits.toNat = c'.hits.toNat)
    (htotal : c.total.toNat = c'.total.toNat) : c = c' := by
  have hword : c.word = c'.word := by
    rw [← UInt64.toNat_inj, toNat_word, toNat_word, hhits, htotal]
  cases c
  cases c'
  exact congrArg HitCounts.mk hword

end HitCounts

/-! ### Hit ratios -/

namespace HitRatio

/-- All the counts that a hit ratio keeps. -/
def stored : HitRatio → List HitCounts
  | .uniform counts => [counts]
  | .resetOnSnapshot counts => [counts]
  | .resetPeriodically _ counts => [counts]
  | .rolling window => window.chunks.toList.flatMap fun chunk =>
      [chunk.phases.first.value, chunk.phases.second.value]

/-- No count has more hits than attempts. -/
def Sound : HitRatio → Prop
  | .uniform counts => counts.Sound
  | .resetOnSnapshot counts => counts.Sound
  | .resetPeriodically _ counts => counts.Sound
  | .rolling window => ∀ chunk ∈ window.chunks, chunk.Sound

variable {r : HitRatio}

theorem Sound.of_mem (h : r.Sound) {c : HitCounts} (hc : c ∈ r.stored) : c.Sound := by
  cases r with
  | uniform counts | resetOnSnapshot counts | resetPeriodically reset counts =>
    obtain rfl := List.mem_singleton.mp hc
    exact h
  | rolling window =>
    obtain ⟨chunk, hchunk, hc⟩ := List.mem_flatMap.mp hc
    have hsound := h chunk (Array.mem_toList_iff.mp hchunk)
    rcases List.mem_cons.mp hc with rfl | hc
    · exact hsound .first
    · obtain rfl := List.mem_singleton.mp hc
      exact hsound .second

theorem Sound.update (h : r.Sound) (now : Nat) (hits total : UInt32) :
    (r.update now hits total).value.2.Sound := by
  unfold HitRatio.update
  split_ifs with hlt
  · exact h
  · have hle : hits ≤ total := UInt32.not_lt.mp hlt
    cases r with
    | uniform counts | resetOnSnapshot counts => exact HitCounts.Sound.add h hle
    | resetPeriodically reset counts => exact (sound_access h reset now).add hle
    | rolling window => exact RollingWindow.sound_add h (hits, total) hle now

theorem Sound.ratio (h : r.Sound) (now : Nat) : (r.ratio now).value.2.Sound := by
  cases r with
  | uniform counts | rolling window => exact h
  | resetOnSnapshot counts => exact HitCounts.sound_zero
  | resetPeriodically reset counts => exact sound_access h reset now

theorem sound_after (h : r.Sound) (run : List (Access (UInt32 × UInt32))) :
    (Aggregate.after r run).Sound := by
  induction run using List.reverseRecOn with
  | nil => exact h
  | append_singleton run access ih =>
    rw [Aggregate.after_concat]
    cases access with
    | write now w => exact ih.update now w.1 w.2
    | read now => exact ih.ratio now

end HitRatio

/-- **Packed counts are safe and faithful.**
* With no more hits than attempts on either side, an addition halves the counts as often as is needed to make
  the attempts fit, adds without a carry and packs without a loss, and there are no more hits than attempts
  again.  Halving moves the share of hits by less than one place of the attempts that are left.
* No hit ratio ever stores more hits than attempts, whatever is written and read at whatever instants.
* If the attempts since the last reset fit, the counts are the sums of what was added, in any order. -/
theorem counts_halved_or_exact :
    (∀ hits total : UInt32, (HitCounts.pack hits total).hits = hits ∧
      (HitCounts.pack hits total).total = total) ∧
    (∀ (c : HitCounts) (hits total : UInt32), c.hits ≤ c.total → hits ≤ total →
      ∃ k ≤ 32, IsLeast {k | (c.total.toNat >>> k) + total.toNat < UInt32.size} k ∧
        (c.add hits total).hits.toNat = (c.hits.toNat >>> k) + hits.toNat ∧
        (c.add hits total).total.toNat = (c.total.toNat >>> k) + total.toNat ∧
        (c.add hits total).word.toNat = (c.add hits total).hits.toNat * 2 ^ 32 +
          (c.add hits total).total.toNat ∧
        c.add? hits total = some (c.add hits total) ∧
        (c.add hits total).hits ≤ (c.add hits total).total ∧
        (0 < c.total.toNat → |((c.hits.toNat >>> k : Nat) : Int) * c.total.toNat -
          c.hits.toNat * (c.total.toNat >>> k : Nat)| < c.total.toNat) ∧
        (0 < c.total.toNat >>> k → |((c.hits.toNat >>> k : Nat) : ℚ) / (c.total.toNat >>> k : Nat) -
          c.hits.toNat / c.total.toNat| < 1 / (c.total.toNat >>> k : Nat))) ∧
    (∀ r : HitRatio, (r = .uniform .zero ∨ r = .resetOnSnapshot .zero ∨
        (∃ interval creation, r = .createPeriodic interval creation) ∨
        ∃ chunks interval creation, r = .createRolling chunks interval creation) →
      ∀ run : List (Access (UInt32 × UInt32)), ∀ c ∈ (Aggregate.after r run).stored, c.hits ≤ c.total) ∧
    ∀ calls : List HitCounts.Call,
      let deltas := sinceRead HitCounts.Call.delta? [] calls
      (∀ d ∈ deltas, d.1 ≤ d.2) → HitCounts.totalOf deltas < UInt32.size →
        (calls.foldl HitCounts.call .zero).hits.toNat = HitCounts.hitsOf deltas ∧
        (calls.foldl HitCounts.call .zero).total.toNat = HitCounts.totalOf deltas ∧
        ∀ calls' : List HitCounts.Call, (sinceRead HitCounts.Call.delta? [] calls').Perm deltas →
          calls'.foldl HitCounts.call .zero = calls.foldl HitCounts.call .zero := by
  refine ⟨fun hits total => ⟨HitCounts.hits_pack hits total, HitCounts.total_pack hits total⟩, ?_, ?_, ?_⟩
  · intro c hits total hc hle
    have hsound : c.Sound := hc
    obtain ⟨k, hk, hhits, htotal⟩ := hsound.add_eq hle
    exact ⟨k, hk.2 (HitCounts.mem_fitting_last _ _), hk, hhits, htotal, HitCounts.toNat_word _,
      HitCounts.add?_of hsound hle, hsound.add hle, fun ht => abs_shiftRight_mul_sub_lt hsound.le ht k,
      fun hlive => abs_share_sub_lt hsound.le hlive⟩
  · intro r hr run c hc
    have hsound : r.Sound := by
      rcases hr with rfl | rfl | ⟨interval, creation, rfl⟩ | ⟨chunks, interval, creation, rfl⟩
      · exact HitCounts.sound_zero
      · exact HitCounts.sound_zero
      · exact HitCounts.sound_zero
      · exact RollingWindow.sound_create chunks interval creation
    exact (HitRatio.sound_after hsound run).of_mem hc
  · intro calls deltas hfair hfit
    have hcalls : calls.foldl HitCounts.call .zero = HitCounts.collect deltas :=
      HitCounts.foldl_call [] calls
    obtain ⟨hhits, htotal⟩ := HitCounts.exact_collect hfair hfit
    refine ⟨hcalls ▸ hhits, hcalls ▸ htotal, fun calls' hperm => ?_⟩
    have hhitsum : HitCounts.hitsOf (sinceRead HitCounts.Call.delta? [] calls') =
        HitCounts.hitsOf deltas := (hperm.map _).sum_nat
    have hsum : HitCounts.totalOf (sinceRead HitCounts.Call.delta? [] calls') =
        HitCounts.totalOf deltas := (hperm.map _).sum_nat
    obtain ⟨hhits', htotal'⟩ := HitCounts.exact_collect
      (fun d hd => hfair d (hperm.mem_iff.mp hd)) (hsum ▸ hfit)
    have hcalls' : calls'.foldl HitCounts.call .zero =
      HitCounts.collect (sinceRead HitCounts.Call.delta? [] calls') := HitCounts.foldl_call [] calls'
    rw [hcalls, hcalls']
    exact HitCounts.eq_of_counts ((hhits'.trans hhitsum).trans hhits.symm)
      ((htotal'.trans hsum).trans htotal.symm)

/-- The largest word of attempts is halved once for ten more. -/
theorem counts_halved_or_exact_largest :
    let c := HitCounts.pack 7 4294967295
    let calls : List HitCounts.Call := [.add 9 9, .reset, .add 3 4, .add 0 5]
    let run : List (Access (UInt32 × UInt32)) := [.write 5 (3, 4), .write 120 (2, 1), .read 130]
    (c.hits ≤ c.total ∧ (3 : UInt32) ≤ 10 ∧ (c.add 3 10).hits.toNat = 6 ∧
      (c.add 3 10).total.toNat = 2147483657) ∧
    (∀ c ∈ (Aggregate.after (HitRatio.createRolling 2 100 0) run).stored, c.hits ≤ c.total) ∧
    ((∀ d ∈ sinceRead HitCounts.Call.delta? [] calls, d.1 ≤ d.2) ∧
      (calls.foldl HitCounts.call .zero).hits.toNat = 3 ∧
      (calls.foldl HitCounts.call .zero).total.toNat = 9) := by
  intro c calls run
  obtain ⟨hpack, hadd, hratio, hexact⟩ := counts_halved_or_exact
  obtain ⟨hhits, htotal⟩ := hpack 7 4294967295
  have hle : c.hits ≤ c.total := by
    rw [hhits, htotal]
    decide
  have hall : ((sinceRead HitCounts.Call.delta? [] calls).all fun d => decide (d.1 ≤ d.2)) = true := by decide
  have hfair : ∀ d ∈ sinceRead HitCounts.Call.delta? [] calls, d.1 ≤ d.2 := fun d hd =>
    of_decide_eq_true (List.all_eq_true.mp hall d hd)
  obtain ⟨k, -, hk, hh, ht, -⟩ := hadd c 3 10 hle (by decide)
  rw [htotal] at hk ht
  rw [hhits] at hh
  have hone : k ≤ 1 := hk.2 (by decide)
  obtain rfl : k = 1 := by
    refine Nat.le_antisymm hone (Nat.one_le_iff_ne_zero.mpr ?_)
    rintro rfl
    exact absurd hk.1 (by decide)
  obtain ⟨hsum, hsum', -⟩ := hexact calls hfair (by decide)
  exact ⟨⟨hle, by decide, hh, ht⟩,
    hratio _ (Or.inr (Or.inr (Or.inr ⟨2, 100, 0, rfl⟩))) run, hfair, hsum, hsum'⟩

end WindowedMetrics
