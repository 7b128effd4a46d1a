import WindowedMetrics.Proofs.Actor.Crew
import WindowedMetrics.Proofs.Actor.Service

/-!
# What a move comes to

`Crew.Turn` has one case for each thing that a move of a thread can do, with all that is known then.  What is
proved about every move is proved case by case, and `Crew.turn_act` carries it over.
-/

namespace WindowedMetrics

variable {S A : Type} [Action S A]

/-- Whether the next step ends a capped drain. -/
def Task.reportsCap (w : Ledger S A) : Task S A → Bool
  | .test (.release limit) ran => (w.endDrain limit ran).1
  | _ => false

namespace Crew

/-- Whether the drain that a thread ends with this move was capped. -/
def reportsCap (c : Crew S A) (i : Nat) : Move S A → Bool
  | .go =>
    match c.stages[i]?, c.holder with
    | some .holding, some (j, task) => decide (i = j) && task.reportsCap c.ledger
    | _, _ => false
  | .ask _ => false

/-- What a move of a thread comes to. -/
inductive Turn (c : Crew S A) (i : Nat) : Move S A → Crew S A → Prop where
  | stay {move : Move S A} : c.reportsCap i move = false → Turn c i move c
  | giveWay (stage : Stage A) : c.stages[i]? = some stage → stage = .trying ∨ stage = .retrying →
      c.ledger.actor.locked = true → Turn c i .go (c.setStage i .idle)
  | grab (stage : Stage A) : c.stages[i]? = some stage → stage = .trying ∨ stage = .retrying →
      c.ledger.actor.locked = false →
      Turn c i .go (c.grab i (.take (.release c.ledger.actor.batchSize) 0))
  | grabWaiting (number : Nat) (content : A) : c.stages[i]? = some (.waiting number content) →
      c.ledger.actor.locked = false → Turn c i .go (c.grab i (.take (.overflow number content) 0))
  | grabEntering : c.stages[i]? = some .entering → c.ledger.actor.locked = false →
      Turn c i .go (c.grab i (.take .access 0))
  | report : c.stages[i]? = some .reporting →
      Turn c i .go { c.setStage i .idle with ledger.actor.capHits := c.ledger.actor.capHits + 1 }
  | turnAway : c.stages[i]? = some .looking → c.ledger.actor.pool.queueEmpty = true →
      Turn c i .go (c.setStage i .idle)
  | lookAgain : c.stages[i]? = some .looking → c.ledger.actor.pool.queueEmpty = false →
      Turn c i .go (c.setStage i .retrying)
  | work (task : Task S A) : c.stages[i]? = some .holding → c.holder = some (i, task) →
      task.isBusy = true → Turn c i .go (c.work i task)
  | unlock (capped : Bool) : c.stages[i]? = some .holding → c.holder = some (i, .unlock capped) →
      Turn c i .go (c.unlock i (if capped then .reporting else .looking))
  | serve (request : Request S A) : request.isServed = true → Turn c i (.ask request) (c.serve request)
  | submit {place number slot : Nat} : c.stages[i]? = some .idle →
      c.held[place]? = some ⟨number, .slot slot⟩ →
      Turn c i (.ask (.submit place)) ((c.queue place number slot).setStage i .trying)
  | submitInside {place number slot : Nat} : c.stages[i]? = some .holding → c.holder = some (i, .access) →
      c.held[place]? = some ⟨number, .slot slot⟩ →
      Turn c i (.ask (.submit place)) (c.queue place number slot)
  | count {place number : Nat} {content : A} : c.stages[i]? = some .idle →
      c.held[place]? = some ⟨number, .overflow content⟩ →
      Turn c i (.ask (.submit place)) ((c.count place number).setStage i (.waiting number content))
  | enter : c.stages[i]? = some .idle → Turn c i (.ask .enter) (c.setStage i .entering)
  | leave : c.stages[i]? = some .holding → c.holder = some (i, .access) →
      Turn c i (.ask .leave) (c.unlock i .idle)

theorem turn_work (c : Crew S A) {i : Nat} {task : Task S A} (hget : c.stages[i]? = some .holding)
    (hholder : c.holder = some (i, task)) : c.Turn i .go (c.work i task) := by
  cases task with
  | access => exact .stay (by simp [reportsCap, hget, hholder, Task.reportsCap])
  | unlock capped => exact .unlock capped hget hholder
  | take | run | slot | test | begin | overflow => exact .work _ hget hholder rfl

theorem turn_go (c : Crew S A) (i : Nat) : c.Turn i .go (c.go i) := by
  unfold go
  cases hget : c.stages[i]? with
  | none => exact .stay (by simp [reportsCap, hget])
  | some stage =>
    have hstay : stage ≠ .holding → c.Turn i .go c := by
      intro hstage
      refine .stay ?_
      cases stage <;> first | exact absurd rfl hstage | simp [reportsCap, hget]
    cases stage with
    | idle => exact hstay (by simp)
    | trying | retrying =>
      dsimp only
      split
      · exact .giveWay _ hget (by simp) ‹_›
      · exact .grab _ hget (by simp) (eq_false_of_ne_true ‹_›)
    | waiting number content =>
      dsimp only
      split
      · exact hstay (by simp)
      · exact .grabWaiting number content hget (eq_false_of_ne_true ‹_›)
    | entering =>
      dsimp only
      split
      · exact hstay (by simp)
      · exact .grabEntering hget (eq_false_of_ne_true ‹_›)
    | reporting => exact .report hget
    | looking =>
      dsimp only
      split
      · exact .turnAway hget ‹_›
      · exact .lookAgain hget (eq_false_of_ne_true ‹_›)
    | holding =>
      cases hholder : c.holder with
      | none => exact .stay (by simp [reportsCap, hget, hholder])
      | some taken =>
        obtain ⟨j, task⟩ := taken
        dsimp only
        split
        · rename_i heq
          exact c.turn_work hget (heq ▸ hholder)
        · exact .stay (by simp [reportsCap, *])

theorem turn_ask (c : Crew S A) (i : Nat) (request : Request S A) :
    c.Turn i (.ask request) (c.ask i request) := by
  have hstay : c.Turn i (.ask request) c := .stay rfl
  unfold ask
  cases hget : c.stages[i]? with
  | none => exact hstay
  | some stage =>
    cases stage with
    | idle =>
      cases request with
      | take | fill | drop => exact .serve _ rfl
      | submit place =>
        unfold askOutside
        dsimp only
        rcases hx : c.held[place]? with _ | ⟨number, slot | content⟩
        · exact hstay
        · exact .submit hget hx
        · exact .count hget hx
      | enter => exact .enter hget
      | edit | leave => exact hstay
    | holding =>
      dsimp only
      split
      · rename_i j hholder
        split
        · rename_i heq
          obtain rfl := heq
          cases request with
          | take | fill | drop | edit => exact .serve _ rfl
          | submit place =>
            unfold askInside
            dsimp only
            rcases hx : c.held[place]? with _ | ⟨number, slot | content⟩
            · exact hstay
            · exact .submitInside hget hholder hx
            · exact hstay
          | enter => exact hstay
          | leave => exact .leave hget hholder
        · exact hstay
      · exact hstay
    | trying | waiting | entering | reporting | looking | retrying => exact hstay

theorem turn_act (c : Crew S A) (i : Nat) (move : Move S A) : c.Turn i move (c.act i move) := by
  cases move with
  | go => exact c.turn_go i
  | ask request => exact c.turn_ask i request

end Crew

end WindowedMetrics
