import WindowedMetrics.Actor.Pause
import WindowedMetrics.Ranking.Comparison
import WindowedMetrics.Ranking.Shared

/-!
# Held updates

What comes of an update whose writer is held up where an offer it applies, its own or a queued one, first
compares the identity it offers, and of offers that others make meanwhile.

* `updateUntil` offers a position up to that point, `resume` goes on from there; without anything in
  between that is an update (`updateUntil_bind_resume?`).
* Meanwhile an offer below the published floor returns, one that gets a slot is queued, and the first one
  that overflows waits for the lock; no more are made then (`offerWhileHeld`).
* The writer then goes on to its end, and the waiting offer is applied (`heldUpdate`).  The offers not
  made by then are made after that (`stall`).
-/

namespace WindowedMetrics

/-- Whether running a queued offer compares a watched identity. -/
def QueuedOffer.compares {I : Type} [DecidableEq I] (watched : I) (b : Board I)
    (o : QueuedOffer I) : Bool :=
  match o.identity with
  | none => false
  | some identity => b.ranking.compares watched o.weight identity

/-- What came of offers that were made while a writer was held up. -/
structure Meanwhile (I : Type) where
  /-- How many were made. -/
  made : Nat := 0
  /-- The overflow action of the last one, if that has to wait for the lock. -/
  waiting : Option (Handle (QueuedOffer I)) := none
  /-- The offers not made. -/
  rest : List (Int64 × I)

/-- With one more offer made before the others. -/
def Meanwhile.another {I : Type} (m : Meanwhile I) : Meanwhile I := { m with made := m.made + 1 }

/-- What came of an update whose writer was to be held up. -/
structure HeldReport (I : Type) where
  /-- Whether the writer was held up at all. -/
  stalled : Bool := false
  /-- The offers that were made while it was held up. -/
  made : Nat := 0
  /-- Whether the last of them overflowed and waited for the lock. -/
  overflowed : Bool := false
  /-- Statistics right before the release, if nobody waited for it. -/
  during : Option ActorStats := none
  /-- Statistics once the writer and the waiting offer were done. -/
  after : ActorStats
  /-- The offers not made. -/
  rest : List (Int64 × I)

/-- The report with the statistics of another actor added. -/
def HeldReport.merge {I : Type} (h : HeldReport I) (s : ActorStats) : HeldReport I :=
  { h with during := h.during.map (·.merge s), after := h.after.merge s }

namespace SharedRanking

variable {I : Type} [DecidableEq I]

/-! ### The writer -/

/-- Offer a position, and stop the writer where the identity is first compared. -/
def updateUntil (r : SharedRanking I) (weight : Int64) (identity : I) :
    Logged (Option (Pause (QueuedOffer I)) × SharedRanking I) := do
  if weight < r.floor then return (none, r)
  else
    let (h, actor) ← r.actor.acquire
    let (h, actor) := actor.fill ⟨weight, some identity⟩ h
    let (pause, actor) ← actor.submitUntil (QueuedOffer.compares identity) h
    return (pause, { r with actor })

/-- Let a writer go on that was held up. -/
def resume (r : SharedRanking I) (pause : Pause (QueuedOffer I)) : Logged (SharedRanking I) := do
  let actor ← r.actor.resume pause
  return { r with actor }

/-- Let a writer go on if it was held up. -/
def resume? (r : SharedRanking I) : Option (Pause (QueuedOffer I)) → Logged (SharedRanking I)
  | none => pure r
  | some pause => r.resume pause

theorem resume?_eq (r : SharedRanking I) (pause : Option (Pause (QueuedOffer I))) :
    r.resume? pause = r.actor.resume? pause >>= fun actor => pure { r with actor } := by
  cases pause <;> rfl

/-- Stopping a writer and letting it go on at once is its update. -/
theorem updateUntil_bind_resume? (r : SharedRanking I) (weight : Int64) (identity : I) :
    (r.updateUntil weight identity >>= fun out => out.2.resume? out.1) =
      r.update weight identity := by
  unfold updateUntil update Actor.send
  split
  · rfl
  · simp only [bind_assoc, pure_bind, resume?_eq]
    congr 1
    funext out
    obtain ⟨h, actor⟩ := out
    rw [← Actor.submitUntil_bind_resume? _ (QueuedOffer.compares identity), bind_assoc]

/-- Whether somebody who takes the lock compares a watched identity while applying what is queued. -/
def comparesOnEntry (r : SharedRanking I) (watched : I) : Bool :=
  r.actor.meetsOnEntry (QueuedOffer.compares watched)

/-! ### The others -/

/-- Make offers while the lock is held, up to the first that overflows and has to wait. -/
def offerWhileHeld (r : SharedRanking I) :
    List (Int64 × I) → Logged (Meanwhile I × SharedRanking I)
  | [] => pure ({ rest := [] }, r)
  | (weight, identity) :: rest => do
    if weight < r.floor then
      let (m, r) ← offerWhileHeld r rest
      return (m.another, r)
    else
      let (h, actor) ← r.actor.acquire
      let (h, actor) := actor.fill ⟨weight, some identity⟩ h
      if h.isOverflow then return ({ made := 1, waiting := some h, rest }, { r with actor })
      else
        let actor ← actor.submit h
        let (m, r) ← offerWhileHeld { r with actor } rest
        return (m.another, r)

/-! ### Both -/

/-- Offer a position, hold its writer up where the identity is first compared, make the other offers
meanwhile, and let the writer go on.  The first offer that overflows waits for the lock, and no more
are made; it is applied once the writer is done. -/
def heldUpdate (r : SharedRanking I) (weight : Int64) (identity : I) (offers : List (Int64 × I)) :
    Logged (HeldReport I × SharedRanking I) := do
  let (pause, r) ← r.updateUntil weight identity
  match pause with
  | none => return ({ after := r.stats, rest := offers }, r)
  | some pause =>
    let (m, r) ← r.offerWhileHeld offers
    let before := r.stats
    let r ← r.resume pause
    let actor ← match m.waiting with
      | none => pure r.actor
      | some h => r.actor.submit h
    let r := { r with actor }
    return ({
      stalled := true
      made := m.made
      overflowed := m.waiting.isSome
      during := if m.waiting.isSome then none else some before
      after := r.stats
      rest := m.rest }, r)

/-- A held update, and after it the offers that were not made meanwhile. -/
def stall (r : SharedRanking I) (weight : Int64) (identity : I) (offers : List (Int64 × I)) :
    Logged (HeldReport I × SharedRanking I) := do
  let (report, r) ← r.heldUpdate weight identity offers
  let r ← r.updateAll report.rest
  return (report, r)

end SharedRanking

end WindowedMetrics
