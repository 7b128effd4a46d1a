import WindowedMetrics.Text.Described

/-!
# Bounded rankings

A ranking keeps the heaviest positions offered to it, at most `capacity` of them and at most one per
identity, ascending by weight; among equal weights the position that came later stands later.
Offers below `threshold` are refused.

* `offer` applies one offer and says what became of it.
* `mergeInto` offers the positions of one ranking to another, heaviest first, up to the first that is
  too small.
* `floor` is a weight below which no offer is inserted.
-/

namespace WindowedMetrics

/-- An identity with the weight it is ranked by. -/
structure Position (I : Type) where
  weight : Int64
  identity : I
  deriving DecidableEq

instance {I : Type} [Described I] : Described (Position I) where
  describe p := Text.record "Position"
    [("weight", describe p.weight), ("identity", describe p.identity)]

/-- What became of an offer. -/
inductive Verdict where
  | inserted
  /-- Under the threshold, or not heavier than the lightest position of a full ranking. -/
  | tooSmall
  /-- The identity is ranked already and is not lighter. -/
  | duplicate
  deriving DecidableEq

/-- The heaviest positions seen, ascending by weight. -/
structure Ranking (I : Type) where
  capacity : Nat
  threshold : Int64
  positions : List (Position I) := []
  deriving DecidableEq

namespace Ranking

variable {I : Type}

/-- A ranking with no positions. -/
def blank (capacity : Nat) (threshold : Int64) : Ranking I := ⟨capacity, threshold, []⟩

/-- Drop all positions. -/
def reset (r : Ranking I) : Ranking I := { r with positions := [] }

def size (r : Ranking I) : Nat := r.positions.length

def isFull (r : Ranking I) : Bool := r.capacity ≤ r.positions.length

/-- The positions, heaviest first. -/
def descending (r : Ranking I) : List (Position I) := r.positions.reverse

/-- The weight of the lightest position. -/
def lightest? (r : Ranking I) : Option Int64 := r.positions.head?.map (·.weight)

@[simp] theorem positions_blank (capacity : Nat) (threshold : Int64) :
    (blank capacity threshold : Ranking I).positions = [] := rfl

@[simp] theorem positions_reset (r : Ranking I) : r.reset.positions = [] := rfl

@[simp] theorem capacity_reset (r : Ranking I) : r.reset.capacity = r.capacity := rfl

@[simp] theorem threshold_reset (r : Ranking I) : r.reset.threshold = r.threshold := rfl

/-! ### Offers -/

/-- Put a position behind all that are not heavier. -/
def place (p : Position I) : List (Position I) → List (Position I)
  | [] => [p]
  | q :: l => if p.weight < q.weight then p :: q :: l else q :: place p l

theorem place_perm (p : Position I) (l : List (Position I)) : (place p l).Perm (p :: l) := by
  induction l with
  | nil => exact List.Perm.refl _
  | cons q l ih =>
    unfold place
    split
    · exact List.Perm.refl _
    · exact (ih.cons q).trans (List.Perm.swap p q l)

@[simp] theorem length_place (p : Position I) (l : List (Position I)) :
    (place p l).length = l.length + 1 := (place_perm p l).length_eq

variable [DecidableEq I]

/-- The weight an identity is ranked with. -/
def weightOf? (r : Ranking I) (identity : I) : Option Int64 :=
  (r.positions.find? fun p => p.identity = identity).map (·.weight)

/-- The positions without that of an identity. -/
def without (r : Ranking I) (identity : I) : List (Position I) :=
  r.positions.eraseP fun p => p.identity = identity

/-- Offer a position.  A ranked identity moves up if the offer is heavier; a full ranking makes room
by giving up its first position, if the offer is heavier than that. -/
def offer (r : Ranking I) (weight : Int64) (identity : I) : Verdict × Ranking I :=
  if weight < r.threshold ∨ r.capacity = 0 then (.tooSmall, r)
  else
    match r.weightOf? identity with
    | some ranked =>
      if weight ≤ ranked then (.duplicate, r)
      else (.inserted, { r with positions := place ⟨weight, identity⟩ (r.without identity) })
    | none =>
      if r.isFull then
        match r.positions with
        | [] => (.tooSmall, r)
        | lightest :: rest =>
          if weight ≤ lightest.weight then (.tooSmall, r)
          else (.inserted, { r with positions := place ⟨weight, identity⟩ rest })
      else (.inserted, { r with positions := place ⟨weight, identity⟩ r.positions })

/-- The ranking after an offer. -/
def add (r : Ranking I) (weight : Int64) (identity : I) : Ranking I := (r.offer weight identity).2

/-- Offer positions one by one, up to the first that is too small. -/
def addUntilTooSmall (r : Ranking I) : List (Position I) → Ranking I
  | [] => r
  | p :: ps =>
    match r.offer p.weight p.identity with
    | (.tooSmall, _) => r
    | (_, r') => addUntilTooSmall r' ps

/-- Offer the positions of `r` to `other`, heaviest first. -/
def mergeInto (r other : Ranking I) : Ranking I := other.addUntilTooSmall r.descending

@[simp] theorem capacity_offer (r : Ranking I) (weight : Int64) (identity : I) :
    (r.offer weight identity).2.capacity = r.capacity := by
  unfold offer
  repeat' split
  all_goals rfl

@[simp] theorem threshold_offer (r : Ranking I) (weight : Int64) (identity : I) :
    (r.offer weight identity).2.threshold = r.threshold := by
  unfold offer
  repeat' split
  all_goals rfl

/-! ### The admission floor -/

/-- The next weight up; the largest weight stays. -/
def nextWeight (weight : Int64) : Int64 :=
  if weight = Int64.maxValue then weight else weight + 1

omit [DecidableEq I] in
/-- A weight below which no offer is inserted: a full ranking asks for more than its lightest
position. -/
def floor (r : Ranking I) : Int64 :=
  match r.lightest? with
  | some lightest => if r.isFull then max (nextWeight lightest) r.threshold else r.threshold
  | none => r.threshold

end Ranking

instance {I : Type} [Described I] : Described (Ranking I) where
  describe r := Text.record "SingleThreadedRanking"
    [("capacity", describe r.capacity), ("threshold", describe r.threshold),
      ("positions", describe r.positions)]

end WindowedMetrics
