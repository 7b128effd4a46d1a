import WindowedMetrics.Actor.Basic
import WindowedMetrics.Ranking.Basic
import WindowedMetrics.Ranking.Settings

/-!
# Shared rankings

A ranking owned by a buffered actor.  Writers queue their offers, and whoever holds the lock applies
them.  After every change the holder of the lock publishes the floor of the ranking; a writer whose
offer is below the published floor returns at once.
-/

namespace WindowedMetrics

/-- A ranking and the floor published for it. -/
structure Board (I : Type) where
  ranking : Ranking I
  floor : Int64
  deriving DecidableEq

namespace Board

variable {I : Type}

/-- A ranking with its own floor published. -/
def publish (ranking : Ranking I) : Board I := ⟨ranking, ranking.floor⟩

variable [DecidableEq I]

def offer (b : Board I) (weight : Int64) (identity : I) : Board I :=
  publish (b.ranking.add weight identity)

end Board

/-- An offer as an action; without an identity it does nothing. -/
structure QueuedOffer (I : Type) where
  weight : Int64
  identity : Option I
  deriving DecidableEq

instance {I : Type} [DecidableEq I] : Action (Board I) (QueuedOffer I) where
  blank := ⟨0, none⟩
  script o :=
    match o.identity with
    | none => .done
    | some identity => .edit (fun b => b.offer o.weight identity) .done
  spent o := { o with identity := none }

structure SharedRanking (I : Type) where
  actor : Actor (Board I) (QueuedOffer I)
  capacity : Nat

namespace SharedRanking

variable {I : Type} [DecidableEq I]

def create (s : RankingSettings) : Except ConfigFault (SharedRanking I) := do
  s.validate
  let actor ← Actor.create (Board.publish (Ranking.blank s.capacity s.threshold)) s.poolSize s.batchSize
  return { actor, capacity := s.capacity }

omit [DecidableEq I] in
/-- The floor that writers see. -/
def floor (r : SharedRanking I) : Int64 := r.actor.state.floor

omit [DecidableEq I] in
def stats (r : SharedRanking I) : ActorStats := r.actor.stats

/-! ### Offers -/

/-- Offer a position. -/
def update (r : SharedRanking I) (weight : Int64) (identity : I) : Logged (SharedRanking I) := do
  if weight < r.floor then return r
  else
    let actor ← r.actor.send ⟨weight, some identity⟩
    return { r with actor }

/-- Offer positions one by one. -/
def updateAll (r : SharedRanking I) (offers : List (Int64 × I)) : Logged (SharedRanking I) :=
  offers.foldlM (fun r o => r.update o.1 o.2) r

/-! ### Exclusive access -/

/-- Look at the ranking after all queued offers. -/
def inspect {B : Type} (r : SharedRanking I) (f : Ranking I → B) :
    Logged (B × SharedRanking I) := do
  let (b, actor) ← r.actor.exclusively fun b => (f b.ranking, b)
  return (b, { r with actor })

/-- The positions, heaviest first. -/
def descending (r : SharedRanking I) : Logged (List (Position I) × SharedRanking I) :=
  r.inspect Ranking.descending

/-- Offer the positions to another ranking, which is the answer. -/
def mergeInto (r : SharedRanking I) (other : Ranking I) : Logged (Ranking I × SharedRanking I) :=
  r.inspect fun ranking => ranking.mergeInto other

/-- Put another ranking in the place of the one that is there, which is the answer. -/
def exchange (r : SharedRanking I) (other : Ranking I) : Logged (Ranking I × SharedRanking I) := do
  let (old, actor) ← r.actor.exclusively fun b => (b.ranking, Board.publish other)
  return (old, { r with actor })

/-- Drop all positions. -/
def reset (r : SharedRanking I) : Logged (SharedRanking I) := do
  let (_, actor) ← r.actor.exclusively fun b => ((), Board.publish b.ranking.reset)
  return { r with actor }

end SharedRanking

instance {I : Type} : Described (SharedRanking I) where
  describe r := Text.record "ConcurrentRanking"
    [("capacity", describe r.capacity), ("floor", describe r.actor.state.floor),
      ("actor", describe r.actor)]

end WindowedMetrics
