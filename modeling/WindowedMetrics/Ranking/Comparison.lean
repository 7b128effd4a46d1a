import WindowedMetrics.Ranking.Basic

/-!
# Compared identities

An offer that is not refused at once looks for its identity: the identity is compared with those of the
positions, the lightest first, up to its own.  `compares` says whether a watched identity takes part, on
either side; `mergeCompares` says so of a merge.

* An identity watches itself over a ranking exactly if the offer looks at a position
  (`searchCompares_self`).
* Nothing is compared in an empty ranking (`compares_eq_false_of_positions_nil`).
-/

namespace WindowedMetrics.Ranking

variable {I : Type} [DecidableEq I]

/-- Whether the search for an identity in a list of positions compares a watched identity. -/
def searchCompares (watched identity : I) : List (Position I) → Bool
  | [] => false
  | p :: ps =>
    p.identity = watched || identity = watched ||
      (p.identity ≠ identity && searchCompares watched identity ps)

/-- Whether an offer compares a watched identity. -/
def compares (r : Ranking I) (watched : I) (weight : Int64) (identity : I) : Bool :=
  r.threshold ≤ weight && r.capacity ≠ 0 && searchCompares watched identity r.positions

/-- Whether offering positions one by one, up to the first that is too small, compares a watched
identity. -/
def mergeCompares (r : Ranking I) (watched : I) : List (Position I) → Bool
  | [] => false
  | p :: ps =>
    r.compares watched p.weight p.identity ||
      match r.offer p.weight p.identity with
      | (.tooSmall, _) => false
      | (_, r') => mergeCompares r' watched ps

theorem searchCompares_self (identity : I) (l : List (Position I)) :
    searchCompares identity identity l = !l.isEmpty := by
  cases l <;> simp [searchCompares]

theorem compares_eq_false_of_positions_nil {r : Ranking I} (h : r.positions = []) (watched : I)
    (weight : Int64) (identity : I) : r.compares watched weight identity = false := by
  simp [compares, searchCompares, h]

end WindowedMetrics.Ranking
