/-!
# Saturating arithmetic of words

Sums and products of 64-bit words as natural numbers, stopping at the largest word.
-/

namespace WindowedMetrics

/-- The largest 64-bit word. -/
def maxWord : Nat := UInt64.size - 1

theorem maxWord_eq : maxWord = 18446744073709551615 := rfl

/-- Sum that stops at the largest word. -/
def satAdd (a b : Nat) : Nat := min (a + b) maxWord

/-- Product that stops at the largest word. -/
def satMul (a b : Nat) : Nat := min (a * b) maxWord

theorem satAdd_le (a b : Nat) : satAdd a b ≤ maxWord := Nat.min_le_right _ _

theorem satMul_le (a b : Nat) : satMul a b ≤ maxWord := Nat.min_le_right _ _

theorem satAdd_of_le {a b : Nat} (h : a + b ≤ maxWord) : satAdd a b = a + b := Nat.min_eq_left h

theorem satMul_of_le {a b : Nat} (h : a * b ≤ maxWord) : satMul a b = a * b := Nat.min_eq_left h

end WindowedMetrics
