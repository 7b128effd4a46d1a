/-!
# Twins

Two values of one kind that take turns, told apart by their side.
-/

namespace WindowedMetrics

inductive Side where
  | first
  | second
  deriving DecidableEq

namespace Side

def other : Side → Side
  | .first => .second
  | .second => .first

/-- The side as a number. -/
def index : Side → Nat
  | .first => 0
  | .second => 1

@[simp] theorem other_other (s : Side) : s.other.other = s := by cases s <;> rfl

theorem other_ne (s : Side) : s.other ≠ s := by cases s <;> decide

theorem eq_or_eq_other (s t : Side) : t = s ∨ t = s.other := by cases s <;> cases t <;> decide

end Side

structure Twin (α : Type) where
  first : α
  second : α
  deriving DecidableEq

namespace Twin

variable {α : Type}

def get (t : Twin α) : Side → α
  | .first => t.first
  | .second => t.second

def set (t : Twin α) : Side → α → Twin α
  | .first, a => { t with first := a }
  | .second, a => { t with second := a }

@[simp] theorem get_set_self (t : Twin α) (s : Side) (a : α) : (t.set s a).get s = a := by
  cases s <;> rfl

@[simp] theorem get_set_other (t : Twin α) (s : Side) (a : α) :
    (t.set s a).get s.other = t.get s.other := by cases s <;> rfl

@[simp] theorem get_set_of_other (t : Twin α) (s : Side) (a : α) :
    (t.set s.other a).get s = t.get s := by cases s <;> rfl

@[simp] theorem set_set (t : Twin α) (s : Side) (a b : α) : (t.set s a).set s b = t.set s b := by
  cases s <;> rfl

@[simp] theorem set_get (t : Twin α) (s : Side) : t.set s (t.get s) = t := by cases s <;> rfl

end Twin

end WindowedMetrics
