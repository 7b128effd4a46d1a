import WindowedMetrics.HitRatio.Counts
import WindowedMetrics.Proofs.Window.Sums

/-!
# Checked arithmetic

Arithmetic of machine integers that gives no result where the result does not fit: where a sum is larger
than the largest word, a difference is negative, a divisor is zero, an index is past the end, a number of
128 or 64 bits is out of range.  Sums that saturate or wrap on purpose have nothing to check.

`boundary?` also insists that a boundary stays below the mark of dormant phases, and `Share.scale?` that a
share lies between zero and the value it is a share of.
-/

namespace WindowedMetrics

/-- A value for which a condition is needed. -/
def ensure {α : Type} (p : Prop) [Decidable p] (a : α) : Option α := if p then some a else none

theorem ensure_of {α : Type} {p : Prop} [Decidable p] (h : p) (a : α) : ensure p a = some a := if_pos h

/-! ### Words -/

def add? (a b : Nat) : Option Nat := ensure (a + b ≤ maxWord) (a + b)

def sub? (a b : Nat) : Option Nat := ensure (b ≤ a) (a - b)

def div? (a b : Nat) : Option Nat := ensure (b ≠ 0) (a / b)

def mod? (a b : Nat) : Option Nat := ensure (b ≠ 0) (a % b)

theorem add?_of {a b : Nat} (h : a + b ≤ maxWord) : add? a b = some (a + b) := ensure_of h _

theorem sub?_of {a b : Nat} (h : b ≤ a) : sub? a b = some (a - b) := ensure_of h _

theorem div?_of {a b : Nat} (h : 0 < b) : div? a b = some (a / b) := ensure_of (Nat.ne_of_gt h) _

theorem mod?_of {a b : Nat} (h : 0 < b) : mod? a b = some (a % b) := ensure_of (Nat.ne_of_gt h) _

/-- A boundary that is not the mark of dormant phases. -/
def boundary? (creation intervals interval : Nat) : Option Nat :=
  ensure (boundary creation intervals interval < dormant) (boundary creation intervals interval)

theorem boundary?_eq (creation intervals interval : Nat) :
    boundary? creation intervals interval = some (boundary creation intervals interval) :=
  ensure_of (boundary_lt_dormant ..) _

def intervalIndex? (creation interval now : Nat) : Option Nat := div? (now - creation) interval

theorem intervalIndex?_of {creation interval now : Nat} (h : 0 < interval) :
    intervalIndex? creation interval now = some (intervalIndex creation interval now) := div?_of h

/-- Intervals of some length that fit in the time there is. -/
theorem intervalIndex_le {creation interval now least : Nat} (hl : 0 < least) (h : least ≤ interval)
    (hnow : now ≤ maxWord) : intervalIndex creation interval now ≤ maxWord / least :=
  (Nat.div_le_div_left h hl).trans (Nat.div_le_div_right (by omega))

/-- The side with a number. -/
def Side.ofIndex? : Nat → Option Side
  | 0 => some .first
  | 1 => some .second
  | _ => none

@[simp] theorem Side.ofIndex?_index (s : Side) : Side.ofIndex? s.index = some s := by cases s <;> rfl

@[simp] theorem Side.ofIndex?_xor (s : Side) : Side.ofIndex? (s.index ^^^ 1) = some s.other := by
  cases s <;> rfl

/-! ### Shares -/

/-- Product of 128 bits. -/
def product? (a b : Int) : Option Int := ensure (-2 ^ 127 ≤ a * b ∧ a * b < 2 ^ 127) (a * b)

/-- Quotient rounded toward zero. -/
def quotient? (a b : Int) : Option Int := ensure (b ≠ 0) (a.tdiv b)

/-- The 64 bits of a number that has no more. -/
def narrow? (a : Int) : Option Int64 := ensure (-2 ^ 63 ≤ a ∧ a < 2 ^ 63) (Int64.ofInt a)

/-- A number between zero and another one. -/
def IsPart (part whole : Int64) : Prop :=
  (0 ≤ part.toInt ∧ part.toInt ≤ whole.toInt) ∨ (whole.toInt ≤ part.toInt ∧ part.toInt ≤ 0)

instance (part whole : Int64) : Decidable (IsPart part whole) :=
  inferInstanceAs (Decidable (_ ∨ _))

def Share.scale? (s : Share) (value : Int64) : Option Int64 :=
  match s with
  | .full => some value
  | .decaying remaining interval => do
    let product ← product? value.toInt remaining
    let quotient ← quotient? product interval
    let part ← narrow? quotient
    ensure (IsPart part value) part

/-- A decaying share is part of its value. -/
theorem isPart_scale {remaining interval : Nat} (h : remaining ≤ interval) (v : Int64) :
    IsPart ((Share.decaying remaining interval).scale v) v := by
  have hr : (0 : Int) ≤ remaining := Int.natCast_nonneg _
  have hle : (remaining : Int) ≤ interval := Int.ofNat_le.mpr h
  unfold IsPart
  rw [toInt_scale_decaying h]
  rcases Int.le_total 0 v.toInt with hv | hv
  · exact Or.inl (tdiv_mul_mem hv hr hle)
  · obtain ⟨hlo, hhi⟩ := tdiv_mul_mem (a := -v.toInt) (by omega) hr hle
    rw [Int.neg_mul, Int.neg_tdiv] at hlo hhi
    exact Or.inr ⟨by omega, by omega⟩

theorem Share.scale?_decaying {remaining interval : Nat} (h : remaining < interval)
    (hi : interval ≤ maxWord) (v : Int64) : (Share.decaying remaining interval).scale? v =
      some ((Share.decaying remaining interval).scale v) := by
  have hw := maxWord_eq
  have hlo := v.le_toInt
  have hhi := v.toInt_lt
  have hscale := toInt_scale_decaying (Nat.le_of_lt h) v
  have hslo := ((Share.decaying remaining interval).scale v).le_toInt
  have hshi := ((Share.decaying remaining interval).scale v).toInt_lt
  have hr : (0 : Int) ≤ remaining := Int.natCast_nonneg _
  have hproduct : product? v.toInt remaining = some (v.toInt * remaining) := by
    have hlow := Int.mul_le_mul_of_nonneg_right hlo hr
    have hhigh := Int.mul_le_mul_of_nonneg_right (Int.le_of_lt hhi) hr
    exact ensure_of ⟨by omega, by omega⟩ _
  have hquotient : quotient? (v.toInt * remaining) interval =
      some ((v.toInt * remaining).tdiv interval) := ensure_of (by omega) _
  have hnarrow : narrow? ((v.toInt * remaining).tdiv interval) =
      some ((Share.decaying remaining interval).scale v) := ensure_of (by omega) _
  unfold Share.scale?
  simp only [hproduct, hquotient, hnarrow, Option.bind_eq_bind, Option.bind_some]
  exact ensure_of (isPart_scale (Nat.le_of_lt h) v) _

/-! ### Hit counts -/

namespace HitCounts

def addHalf? (a b : UInt32) : Option UInt32 := ensure (a.toNat + b.toNat < UInt32.size) (a + b)

def add? (c : HitCounts) (hits total : UInt32) : Option HitCounts := do
  let (h, t) := makeRoom c.hits c.total total
  let h ← addHalf? h hits
  let t ← addHalf? t total
  return pack h t

/-- The word of two counts. -/
theorem toNat_pack (hits total : UInt32) :
    (pack hits total).word.toNat = hits.toNat * 2 ^ 32 + total.toNat := by
  have hh := hits.toNat_lt
  have ht := total.toNat_lt
  have hshift : (hits.toUInt64 <<< 32).toNat = hits.toNat <<< 32 := by
    rw [UInt64.toNat_shiftLeft, UInt32.toNat_toUInt64]
    refine Nat.mod_eq_of_lt ?_
    show hits.toNat <<< 32 < 2 ^ 64
    rw [Nat.shiftLeft_eq]
    omega
  unfold pack
  rw [UInt64.toNat_or, hshift, UInt32.toNat_toUInt64, ← Nat.shiftLeft_add_eq_or_of_lt ht,
    Nat.shiftLeft_eq]

theorem hits_pack (hits total : UInt32) : (pack hits total).hits = hits := by
  have hh := hits.toNat_lt
  have ht := total.toNat_lt
  refine UInt32.toNat_inj.mp ?_
  unfold HitCounts.hits
  rw [UInt64.toNat_toUInt32, UInt64.toNat_shiftRight, toNat_pack]
  show ((hits.toNat * 2 ^ 32 + total.toNat) >>> 32) % 2 ^ 32 = _
  rw [Nat.shiftRight_eq_div_pow]
  omega

theorem total_pack (hits total : UInt32) : (pack hits total).total = total := by
  have ht := total.toNat_lt
  refine UInt32.toNat_inj.mp ?_
  unfold HitCounts.total
  rw [UInt64.toNat_toUInt32, toNat_pack]
  omega

/-- Halving keeps hits below attempts and ends with room. -/
theorem makeRoom_spec {hits total : UInt32} (h : hits ≤ total) (room : UInt32) :
    (makeRoom hits total room).1 ≤ (makeRoom hits total room).2 ∧
      (makeRoom hits total room).2.toNat + room.toNat < UInt32.size := by
  fun_induction makeRoom hits total room with
  | case1 hits total hroom => exact ⟨h, hroom⟩
  | case2 hits total hfull ih =>
    refine ih ?_
    rw [UInt32.le_iff_toNat_le, UInt32.toNat_div, UInt32.toNat_div]
    exact Nat.div_le_div_right (UInt32.le_iff_toNat_le.mp h)

/-- No more hits than attempts. -/
def Sound (c : HitCounts) : Prop := c.hits ≤ c.total

theorem sound_zero : zero.Sound := UInt32.le_iff_toNat_le.mpr (Nat.le_refl _)

variable {c : HitCounts} {hits total : UInt32}

theorem add?_of (hc : c.Sound) (h : hits ≤ total) : c.add? hits total = some (c.add hits total) := by
  obtain ⟨hle, hroom⟩ := makeRoom_spec hc total
  rw [UInt32.le_iff_toNat_le] at h hle
  have hhits : addHalf? (makeRoom c.hits c.total total).1 hits =
      some ((makeRoom c.hits c.total total).1 + hits) := ensure_of (by omega) _
  have htotal : addHalf? (makeRoom c.hits c.total total).2 total =
      some ((makeRoom c.hits c.total total).2 + total) := ensure_of hroom _
  unfold add?
  simp only [hhits, htotal, Option.bind_eq_bind, Option.bind_some]
  rfl

theorem Sound.add (hc : c.Sound) (h : hits ≤ total) : (c.add hits total).Sound := by
  obtain ⟨hle, hroom⟩ := makeRoom_spec hc total
  have hsize : UInt32.size = 2 ^ 32 := rfl
  unfold Sound HitCounts.add
  dsimp only
  rw [hits_pack, total_pack]
  rw [UInt32.le_iff_toNat_le] at h hle ⊢
  rw [UInt32.toNat_add, UInt32.toNat_add, Nat.mod_eq_of_lt (by omega), Nat.mod_eq_of_lt (by omega)]
  omega

end HitCounts

end WindowedMetrics
