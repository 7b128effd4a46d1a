import WindowedMetrics.Text.Decimal

/-!
# Shortest decimal text of doubles

All numbers in an interval around a double round to it (`Dyadic.holds`).  `shortest` writes the fewest digits
that lie in this interval: it looks at ever finer decimal grids, from that of the leading digit on, and takes
the first grid on which a neighbour of the double lies in the interval (`search`).  Of two such neighbours the
nearer is taken, and of two as near the larger (`closest?`).

`holds_search` says that what is found rounds to the double.
-/

namespace WindowedMetrics.Decimal

/-! ### The numbers that round to a double -/

namespace Dyadic

/-- Whether the double below is half as far away as the double above. -/
def isNarrowBelow (x : Dyadic) : Bool := x.mantissa == 1 <<< 52 && -1074 < x.exponent

/-- The number in units of ten to the power, as a fraction: its numerator. -/
def unitsNum (x : Dyadic) (power : Int) : Nat := x.num * Nat.pow 10 (-power).toNat

/-- The number in units of ten to the power, as a fraction: its denominator. -/
def unitsDen (x : Dyadic) (power : Int) : Nat := x.den * Nat.pow 10 power.toNat

/-- A quarter of the distance to the double above. -/
def quarter (x : Dyadic) : Dyadic := ⟨1, x.exponent - 2⟩

/-- Whether the digits times ten to the power round to the double: they lie halfway to its neighbours at
most, and exactly halfway only if the mantissa is even. -/
def holds (x : Dyadic) (digits : Nat) (power : Int) : Bool :=
  let low := (4 * x.mantissa - if x.isNarrowBelow then 1 else 2) * x.quarter.unitsNum power
  let high := (4 * x.mantissa + 2) * x.quarter.unitsNum power
  let place := digits * x.quarter.unitsDen power
  if x.mantissa % 2 = 0 then low ≤ place && place ≤ high else low < place && place < high

/-! ### The search -/

/-- Of the two neighbours of the double on the grid of this power of ten, the one to take. -/
def closest? (x : Dyadic) (power : Int) : Option Nat :=
  let below := x.unitsNum power / x.unitsDen power
  match x.holds below power, x.holds (below + 1) power with
  | true, true =>
    some (if 2 * (x.unitsNum power % x.unitsDen power) < x.unitsDen power then below else below + 1)
  | true, false => some below
  | false, true => some (below + 1)
  | false, false => none

theorem holds_of_closest? {x : Dyadic} {digits : Nat} {power : Int}
    (h : x.closest? power = some digits) : x.holds digits power := by
  unfold closest? at h
  dsimp only at h
  split at h
  · rename_i hb ha
    split at h <;> cases h <;> assumption
  all_goals cases h <;> assumption

/-- All digits of the number. -/
def exact (x : Dyadic) : Nat × Int :=
  if 0 ≤ x.exponent then (x.num, 0) else (x.mantissa * Nat.pow 5 (-x.exponent).toNat, x.exponent)

/-- The digits on the first of `fuel` grids, from that of `power` on, that has any; all digits if none
has. -/
def search (x : Dyadic) : (fuel : Nat) → (power : Int) → Nat × Int
  | 0, _ => x.exact
  | fuel + 1, power =>
    match x.closest? power with
    | some digits => (digits, power)
    | none => search x fuel (power - 1)

/-- With all digits written the number lies at four quarters of its mantissa. -/
theorem place_exact (x : Dyadic) :
    x.exact.1 * x.quarter.unitsDen x.exact.2 = 4 * x.mantissa * x.quarter.unitsNum x.exact.2 := by
  unfold exact quarter unitsNum unitsDen num den
  split
  · rename_i h
    obtain ⟨n, hn⟩ := Int.eq_ofNat_of_zero_le h
    have h0 : (0 : Int).toNat = 0 ∧ (-0 : Int).toNat = 0 := ⟨rfl, rfl⟩
    have h1 : x.exponent.toNat = n := by omega
    match n with
    | 0 =>
      have h2 : (x.exponent - 2).toNat = 0 := by omega
      have h3 : (-(x.exponent - 2)).toNat = 2 := by omega
      simp only [h0, h1, h2, h3, Nat.shiftLeft_eq, Nat.pow_eq, Nat.pow_zero]
      omega
    | 1 =>
      have h2 : (x.exponent - 2).toNat = 0 := by omega
      have h3 : (-(x.exponent - 2)).toNat = 1 := by omega
      simp only [h0, h1, h2, h3, Nat.shiftLeft_eq, Nat.pow_eq, Nat.pow_zero]
      omega
    | n + 2 =>
      have h2 : (x.exponent - 2).toNat = n := by omega
      have h3 : (-(x.exponent - 2)).toNat = 0 := by omega
      simp only [h0, h1, h2, h3, Nat.shiftLeft_eq, Nat.pow_eq, Nat.pow_add, Nat.pow_zero]
      simp only [Nat.mul_comm, Nat.mul_left_comm, Nat.one_mul, Nat.mul_one, Nat.reducePow]
  · rename_i h
    obtain ⟨n, hn⟩ := Int.exists_eq_neg_ofNat (by omega : x.exponent ≤ 0)
    have h1 : (-(x.exponent - 2)).toNat = n + 2 := by omega
    have h2 : (x.exponent - 2).toNat = 0 := by omega
    have h3 : (-x.exponent).toNat = n := by omega
    have h4 : x.exponent.toNat = 0 := by omega
    have h5 : Nat.pow 10 n = Nat.pow 5 n * Nat.pow 2 n := Nat.mul_pow 5 2 n
    simp only [h1, h2, h3, h4, h5, Nat.shiftLeft_eq, Nat.pow_add, Nat.pow_eq]
    simp only [Nat.mul_comm, Nat.mul_left_comm, Nat.mul_assoc, Nat.pow_zero, Nat.one_mul, Nat.mul_one]

theorem quarter_unitsNum_pos (x : Dyadic) (power : Int) : 0 < x.quarter.unitsNum power :=
  Nat.mul_pos (by rw [num, Nat.shiftLeft_eq]; exact Nat.mul_pos Nat.one_pos (Nat.two_pow_pos _))
    (Nat.pow_pos (by decide))

/-- A number other than zero lies in its own interval. -/
theorem holds_exact {x : Dyadic} (h : 0 < x.mantissa) : x.holds x.exact.1 x.exact.2 := by
  have hq := x.quarter_unitsNum_pos x.exact.2
  have low : (4 * x.mantissa - if x.isNarrowBelow then 1 else 2) * x.quarter.unitsNum x.exact.2
      < 4 * x.mantissa * x.quarter.unitsNum x.exact.2 :=
    Nat.mul_lt_mul_of_pos_right (by split <;> omega) hq
  have high : 4 * x.mantissa * x.quarter.unitsNum x.exact.2
      < (4 * x.mantissa + 2) * x.quarter.unitsNum x.exact.2 :=
    Nat.mul_lt_mul_of_pos_right (by omega) hq
  simp only [holds, place_exact]
  by_cases he : x.mantissa % 2 = 0
  · rw [if_pos he, Bool.and_eq_true, decide_eq_true_eq, decide_eq_true_eq]
    exact ⟨Nat.le_of_lt low, Nat.le_of_lt high⟩
  · rw [if_neg he, Bool.and_eq_true, decide_eq_true_eq, decide_eq_true_eq]
    exact ⟨low, high⟩

/-- What the search finds rounds to the number. -/
theorem holds_search {x : Dyadic} (h : 0 < x.mantissa) (fuel : Nat) (power : Int) :
    x.holds (x.search fuel power).1 (x.search fuel power).2 := by
  induction fuel generalizing power with
  | zero => exact holds_exact h
  | succ fuel ih =>
    unfold search
    split
    · rename_i hc
      exact holds_of_closest? hc
    · exact ih (power - 1)

end Dyadic

/-! ### Layout -/

/-- The power of ten of the leading digit of the positive number `num / den`. -/
def leadingPower (num den : Nat) : Int :=
  if den ≤ num then ((toString (num / den)).length : Int) - 1
  else -((toString ((den + num - 1) / num - 1)).length : Int)

/-- Drop the zeros at the end of the digits. -/
def strip : (fuel digits : Nat) → Int → Nat × Int
  | 0, digits, power => (digits, power)
  | fuel + 1, digits, power =>
    if digits % 10 = 0 ∧ digits ≠ 0 then strip fuel (digits / 10) (power + 1) else (digits, power)

/-- Positional text of the digits times ten to the power, with at least one decimal place. -/
def positional (digits : Nat) (power : Int) : String :=
  if 0 ≤ power then toString (digits * Nat.pow 10 power.toNat) ++ ".0"
  else
    let places := (-power).toNat
    toString (digits / Nat.pow 10 places) ++ "." ++ padded places (digits % Nat.pow 10 places)

/-- Text of the digits times ten to the power, with one digit before the point and the power of ten
behind `e`. -/
def scientific (digits : Nat) (power : Int) : String :=
  match (toString digits).toList with
  | [] => ""
  | [d] => String.singleton d ++ "e" ++ toString power
  | d :: ds =>
    String.singleton d ++ "." ++ String.ofList ds ++ "e" ++ toString (power + ds.length)

/-- The fewest digits that round to the double.  A leading digit from the fourth decimal place up to the
sixteenth whole place is written positionally. -/
def shortest (x : Float) : String :=
  match special? x with
  | some text => text
  | none =>
    let sign := if isNegative x then "-" else ""
    let v := Dyadic.ofBits x.toBits
    if v.mantissa = 0 then sign ++ "0.0"
    else
      let lead := leadingPower v.num v.den
      let found := v.search 17 lead
      let (digits, power) := strip 17 found.1 found.2
      sign ++ (if -4 ≤ lead ∧ lead < 16 then positional digits power else scientific digits power)

end WindowedMetrics.Decimal
