/-!
# Decimal text of doubles

A finite double is a whole mantissa times a power of two, so its text can be computed in whole numbers.
`twoPlaces` rounds to hundredths, a half going to the even neighbour (`roundDiv`).
-/

namespace WindowedMetrics.Decimal

/-! ### Rounding a quotient -/

/-- The whole number nearest to `num / den`; a half goes to the even neighbour. -/
def roundDiv (num den : Nat) : Nat :=
  let q := num / den
  let r := num % den
  if 2 * r < den then q
  else if den < 2 * r then q + 1
  else q + q % 2

/-- The rounded quotient is within half a unit of the quotient. -/
theorem roundDiv_near (num den : Nat) (h : 0 < den) :
    2 * num ≤ 2 * (roundDiv num den * den) + den ∧ 2 * (roundDiv num den * den) ≤ 2 * num + den := by
  have hd := Nat.div_add_mod num den
  have hr := Nat.mod_lt num h
  rw [Nat.mul_comm] at hd
  unfold roundDiv
  dsimp only
  have h2 : num / den % 2 = 0 ∨ num / den % 2 = 1 := by omega
  split
  · omega
  · split
    · rw [Nat.add_mul]; omega
    · rcases h2 with h2 | h2 <;> rw [h2, Nat.add_mul] <;> omega

/-! ### The value of a double -/

/-- A nonnegative dyadic number: the mantissa times two to the exponent. -/
structure Dyadic where
  mantissa : Nat
  exponent : Int
  deriving DecidableEq

namespace Dyadic

/-- The size of the finite double with these bits, its sign left out. -/
def ofBits (bits : UInt64) : Dyadic :=
  let hidden := 1 <<< 52
  let fraction := bits.toNat % hidden
  let biased := bits.toNat / hidden % 2048
  if biased = 0 then ⟨fraction, -1074⟩ else ⟨hidden + fraction, (biased : Int) - 1075⟩

def num (x : Dyadic) : Nat := x.mantissa <<< x.exponent.toNat

def den (x : Dyadic) : Nat := 1 <<< (-x.exponent).toNat

end Dyadic

def isNegative (x : Float) : Bool := x.toBits ≥ 0x8000000000000000

/-- A text for the doubles that are not finite. -/
def special? (x : Float) : Option String :=
  if x.isNaN then some "NaN"
  else if x.isInf then some (if isNegative x then "-inf" else "inf")
  else none

/-- Right-aligned digits of a number, padded with zeros. -/
def padded (width n : Nat) : String :=
  let digits := toString n
  "".pushn '0' (width - digits.length) ++ digits

/-- Two decimal places, all digits of the whole part written out. -/
def twoPlaces (x : Float) : String :=
  match special? x with
  | some text => text
  | none =>
    let v := Dyadic.ofBits x.toBits
    let hundredths := roundDiv (v.num * 100) v.den
    (if isNegative x then "-" else "") ++ toString (hundredths / 100) ++ "." ++
      padded 2 (hundredths % 100)

end WindowedMetrics.Decimal
