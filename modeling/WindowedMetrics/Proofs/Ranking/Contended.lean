import WindowedMetrics.Proofs.Ranking.Backlog
import WindowedMetrics.Proofs.Ranking.Merge
import WindowedMetrics.Proofs.Ranking.Recording

/-!
# Shared rankings under contention

Writers offer positions to a shared ranking, readers look at it and reset it, and a writer that has the lock
may be held up before any action it runs; others then drop their offers for the floor, queue them, or wait
for the lock with an overflow offer (`Contention.act`).

`Contention.offers` are the offers made since the last reset, in the order in which they count: an overflow
offer when it begins to run, every other when it is made.  All reads are those of a ranking that is given
these offers one by one (`Contention.reads_eq_sequential`): nobody can tell the queue, the lock and the
floor from outside.
-/

namespace WindowedMetrics

variable {I : Type} [DecidableEq I]

/-! ### Where a writer is held up -/

namespace Pause

/-- The slots that the drain has in hand. -/
def hand {A : Type} : Option (Pause A) → List Nat
  | some (.draining left) | some (.drainingAhead left _) => left.slots
  | _ => []

/-- The overflow offer that is being run. -/
def begun {I : Type} : Option (Pause (QueuedOffer I)) → List (Position I)
  | some (.overflow o) => o.position?.toList
  | _ => []

/-- The overflow offer that will be run after the drain. -/
def ahead {I : Type} : Option (Pause (QueuedOffer I)) → List (Position I)
  | some (.drainingAhead _ o) => o.position?.toList
  | _ => []

end Pause

namespace Actor

/-- What is known of an actor while a writer is held up, or while none is: once everything that counts has
been run the ranking is `goal`. -/
structure Held (x : Actor (Board I) (QueuedOffer I)) (pause : Option (Pause (QueuedOffer I)))
    (goal : Ranking I) : Prop where
  ready : x.Ready (Pause.hand pause)
  small : x.pool.size < maxWord
  locked : x.locked = pause.isSome
  /-- The drain ahead of an overflow action will run the whole queue. -/
  unlimited : ∀ left o, pause = some (.drainingAhead left o) → left.ran < left.limit
  outlook : x.state.ranking.addAll (Pause.begun pause ++ x.todo (Pause.hand pause)) = goal

variable {x y : Actor (Board I) (QueuedOffer I)} {goal : Ranking I}

/-- Nobody has the lock. -/
theorem Held.of_kept {hand : List Nat} (hkept : x.Kept hand y []) (hsmall : x.pool.size < maxWord)
    (hlocked : y.locked = false) (hgoal : x.outlook hand = goal) : y.Held none goal where
  ready := hkept.ready
  small := hkept.size.symm ▸ hsmall
  locked := hlocked
  unlimited := by rintro left o ⟨⟩
  outlook := hkept.outlook.trans hgoal

/-- The counters do not matter. -/
theorem Held.of_eq {pause : Option (Pause (QueuedOffer I))} (h : x.Held pause goal)
    (hpool : y.pool = x.pool) (hcontents : y.contents = x.contents) (hstate : y.state = x.state)
    (hlocked : y.locked = x.locked) : y.Held pause goal := by
  have hkept := h.ready.kept.of_eq hpool hcontents hstate
  have htodo : y.todo (Pause.hand pause) = x.todo (Pause.hand pause) := by
    have hcontent : ∀ j, y.content j = x.content j := by
      intro j
      rw [content, hcontents]
      rfl
    unfold todo
    simp only [hpool, hcontent]
  refine ⟨hkept.ready, hpool.symm ▸ h.small, hlocked.trans h.locked, h.unlimited, ?_⟩
  rw [hstate, htodo]
  exact h.outlook

/-- What is below the floor comes to nothing, whatever is still to be run and is offered later. -/
theorem Held.add_eq_self {pause : Option (Pause (QueuedOffer I))} (h : x.Held pause goal) {w : Int64}
    (hlt : w < x.state.floor) (later : List (Position I)) (identity : I) :
    (goal.addAll later).add w identity = goal.addAll later := by
  rw [h.ready.published] at hlt
  rw [← h.outlook, ← Ranking.addAll_append]
  exact (Ranking.tooLight_of_lt_floor hlt).add_addAll h.ready.ascending _ identity

/-- An offer that is queued counts at once. -/
theorem Held.queueOffer {pause : Option (Pause (QueuedOffer I))} {slot : Nat} {pool : SlotPool}
    (h : x.Held pause goal) (hpop : x.pool.popFree = some (slot, pool)) (o : QueuedOffer I) :
    ((({ x with pool } : Actor (Board I) (QueuedOffer I)).setContent slot o).schedule slot).Held pause
      (goal.addAll o.position?.toList) := by
  obtain ⟨hready, htodo, hsize⟩ := h.ready.queueOffer hpop o
  refine ⟨hready, hsize.symm ▸ h.small, h.locked, h.unlimited, ?_⟩
  rw [htodo, ← h.outlook, ← List.append_assoc, Ranking.addAll_append]
  rfl

/-- A writer takes the lock and drains, and may be held up. -/
theorem Held.drainUntil (hold : Board I → QueuedOffer I → Bool) (h : x.Held none goal)
    (hy : x.Kept [] y []) (hlocked : y.locked = true) (limit : Nat) :
    ∃ d z, (y.drainUntil hold limit 0).value = (d, z) ∧ x.Kept [] z d.slots ∧ z.pool.queued = [] ∧
      z.locked = true ∧ ∀ left, d = .stopped left → left.limit = limit ∧ left.ran < maxWord := by
  have hstays := locked_drainUntil hold y limit 0
  obtain ⟨d, z, hvalue, hkept, hqueued, hleft⟩ := hy.ready.drainUntil hold limit
  rw [hvalue] at hstays
  refine ⟨d, z, hvalue, hy.trans hkept, hqueued, hstays.trans hlocked, fun left hd => ?_⟩
  obtain ⟨hlimit, hran⟩ := hleft left hd
  exact ⟨hlimit, Nat.lt_of_le_of_lt (hy.size ▸ hran) h.small⟩

/-- What a writer does after the drain that follows the submission of a slot. -/
def afterSlot (out : Drained × Actor (Board I) (QueuedOffer I)) :
    Option (Pause (QueuedOffer I)) × Actor (Board I) (QueuedOffer I) :=
  match out.1 with
  | .stopped left => (some (.draining left), out.2)
  | .ended capped => (none, (out.2.release capped).value)

/-- What a writer does after the drain ahead of its overflow offer. -/
def afterAhead (hold : Board I → QueuedOffer I → Bool) (o : QueuedOffer I)
    (out : Drained × Actor (Board I) (QueuedOffer I)) :
    Option (Pause (QueuedOffer I)) × Actor (Board I) (QueuedOffer I) :=
  match out.1 with
  | .stopped left => (some (.drainingAhead left o), out.2)
  | .ended _ =>
    if hold out.2.state o then (some (.overflow o), out.2) else (none, (out.2.runOverflow o).value)

theorem submitUntil_slot_eq (hold : Board I → QueuedOffer I → Bool) {slot : Nat}
    (hfree : (x.schedule slot).locked = false) :
    (x.submitUntil hold (.slot slot)).value =
      afterSlot (drainUntil hold { x.schedule slot with locked := true }
        (x.schedule slot).batchSize 0).value := by
  unfold submitUntil afterSlot
  dsimp only
  rw [if_neg (by simp [hfree]), Logged.value_bind]
  generalize (drainUntil hold _ _ 0).value = out
  obtain ⟨d, y⟩ := out
  cases d <;> rfl

theorem submitUntil_overflow_eq (hold : Board I → QueuedOffer I → Bool) (o : QueuedOffer I)
    (hfree : x.locked = false) :
    (x.submitUntil hold (.overflow o)).value = afterAhead hold o
      (drainUntil hold { x with locked := true, submitted := x.submitted + 1 } maxWord 0).value := by
  unfold submitUntil afterAhead
  dsimp only
  rw [if_neg (by simp [hfree]), Logged.value_bind]
  generalize (drainUntil hold _ _ 0).value = out
  obtain ⟨d, y⟩ := out
  cases d with
  | stopped left => rfl
  | ended capped =>
    dsimp only
    split <;> rfl

/-- A slot submitted while nobody has the lock. -/
theorem Held.submitUntil_slot (hold : Board I → QueuedOffer I → Bool) {slot : Nat}
    (h : (x.schedule slot).Held none goal) :
    ∃ pause z, (x.submitUntil hold (.slot slot)).value = (pause, z) ∧ Pause.ahead pause = [] ∧
      z.Held pause goal := by
  have hkept : (x.schedule slot).Kept [] { x.schedule slot with locked := true } [] :=
    h.ready.kept.of_eq rfl rfl rfl
  obtain ⟨d, z, hvalue, hz, hqueued, hlocked, hleft⟩ := h.drainUntil hold hkept rfl (x.schedule slot).batchSize
  rw [submitUntil_slot_eq hold h.locked, hvalue]
  cases d with
  | stopped left =>
    refine ⟨_, z, rfl, rfl, hz.ready, hz.size.symm ▸ h.small, hlocked, by rintro left o ⟨⟩, ?_⟩
    exact hz.outlook.trans h.outlook
  | ended capped =>
    obtain ⟨hreleased, hunlocked, -⟩ := hz.release capped
    exact ⟨none, _, rfl, rfl, .of_kept hreleased h.small hunlocked h.outlook⟩

/-- An overflow offer submitted while nobody has the lock counts when it begins to run. -/
theorem Held.submitUntil_overflow (hold : Board I → QueuedOffer I → Bool) (h : x.Held none goal)
    (o : QueuedOffer I) :
    ∃ pause z, (x.submitUntil hold (.overflow o)).value = (pause, z) ∧
      (Pause.ahead pause = [] ∧ z.Held pause (goal.addAll o.position?.toList) ∨
        Pause.ahead pause = o.position?.toList ∧ z.Held pause goal) := by
  obtain ⟨y, hy⟩ : ∃ y : Actor (Board I) (QueuedOffer I),
    y = { x with locked := true, submitted := x.submitted + 1 } := ⟨_, rfl⟩
  have hkept : x.Kept [] y [] := h.ready.kept.of_eq (by rw [hy]) (by rw [hy]) (by rw [hy])
  obtain ⟨d, z, hvalue, hz, hqueued, hlocked, hleft⟩ := h.drainUntil hold hkept (by rw [hy]) maxWord
  have hgoal : x.outlook [] = goal := h.outlook
  rw [submitUntil_overflow_eq hold o h.locked, ← hy, hvalue]
  cases d with
  | stopped left =>
    refine ⟨_, z, rfl, Or.inr ⟨rfl, hz.ready, hz.size.symm ▸ h.small, hlocked, ?_, hz.outlook.trans hgoal⟩⟩
    rintro left' o' ⟨⟩
    obtain ⟨hlimit, hran⟩ := hleft left rfl
    exact hlimit.symm ▸ hran
  | ended capped =>
    have hranking : z.state.ranking = goal := by
      rw [← outlook_of_queued_nil hqueued]
      exact hz.outlook.trans hgoal
    have htodo : z.todo [] = [] := by rw [todo, hqueued]; rfl
    unfold afterAhead
    dsimp only
    split
    · refine ⟨_, z, rfl, Or.inl ⟨rfl, hz.ready, hz.size.symm ▸ h.small, hlocked, by rintro left o ⟨⟩, ?_⟩⟩
      show z.state.ranking.addAll (o.position?.toList ++ z.todo []) = _
      rw [htodo, List.append_nil, hranking]
    · obtain ⟨hready, hunlocked, hsize, houtlook⟩ := hz.ready.runOverflow o
      refine ⟨none, _, rfl, Or.inl ⟨rfl, hready, ?_, hunlocked, by rintro left o ⟨⟩, ?_⟩⟩
      · rw [hsize, hz.size]
        exact h.small
      · rw [htodo, List.append_nil, hranking] at houtlook
        exact houtlook

/-- **A writer that goes on** runs what it has in hand, and an overflow offer behind that. -/
theorem Held.resume {pause : Pause (QueuedOffer I)} (h : x.Held (some pause) goal) :
    (x.resume pause).value.Held none (goal.addAll (Pause.ahead (some pause))) := by
  cases pause with
  | draining left =>
    have hrest : x.Kept left.slots (x.drainRest left).value.2 [] := (Ready.drainRest h.ready).1
    obtain ⟨hreleased, hunlocked, -⟩ := hrest.release (x.drainRest left).value.1
    exact .of_kept hreleased h.small hunlocked h.outlook
  | drainingAhead left o =>
    -- the drain ahead is not capped, so it leaves no queue to the overflow offer
    have hready : x.Ready left.slots := h.ready
    obtain ⟨hrest, hempty⟩ := hready.drainRest
    have hqueued := hempty (h.unlimited left o rfl)
    have hranking : (x.drainRest left).value.2.state.ranking = goal := by
      rw [← outlook_of_queued_nil hqueued]
      exact hrest.outlook.trans h.outlook
    have htodo : (x.drainRest left).value.2.todo [] = [] := by rw [todo, hqueued]; rfl
    obtain ⟨hran, hunlocked, hsize, houtlook⟩ := hrest.ready.runOverflow o
    rw [htodo, List.append_nil, hranking] at houtlook
    refine ⟨hran, ?_, hunlocked, by rintro left o ⟨⟩, houtlook⟩
    exact (hsize.trans hrest.size).symm ▸ h.small
  | overflow o =>
    obtain ⟨hready, hunlocked, hsize, houtlook⟩ := h.ready.runOverflow o
    exact ⟨hready, hsize.symm ▸ h.small, hunlocked, by rintro left o ⟨⟩, houtlook.trans h.outlook⟩

/-- **Exclusive access** while nobody has the lock: the ranking is there, with its floor published. -/
theorem Held.enter (h : x.Held none goal) : x.Kept [] x.enter.value [] ∧
    x.enter.value.pool.queued = [] ∧ x.enter.value.state = Board.publish goal := by
  have hlocked : x.Kept [] { x with locked := true } [] := h.ready.kept.of_eq rfl rfl rfl
  obtain ⟨hdrain, hempty⟩ := hlocked.ready.drain maxWord 0
  have hkept : x.Kept [] x.enter.value [] := hlocked.trans hdrain
  have hqueued : x.enter.value.pool.queued = [] := hempty
  refine ⟨hkept, hqueued, ?_⟩
  rw [hkept.ready.published, ← outlook_of_queued_nil hqueued, hkept.outlook]
  exact congrArg Board.publish h.outlook

/-- What was done to the ranking under the lock stays. -/
theorem Held.exclusively {B : Type} (h : x.Held none goal) (f : Board I → B × Board I) :
    (x.exclusively f).value.1 = (f (Board.publish goal)).1 ∧
      ∀ goal', Ascending goal'.positions → (f (Board.publish goal)).2 = Board.publish goal' →
        (x.exclusively f).value.2.Held none goal' := by
  obtain ⟨hkept, hqueued, hstate⟩ := h.enter
  have hvalue : (x.exclusively f).value = ((f x.enter.value.state).1,
    { x.enter.value with state := (f x.enter.value.state).2, locked := false }) := rfl
  rw [hvalue, hstate]
  refine ⟨rfl, fun goal' hascending hgoal' => ?_⟩
  rw [hgoal']
  refine ⟨⟨hkept.ready.owned, hkept.ready.size, rfl, hascending⟩, ?_, rfl, by rintro left o ⟨⟩, ?_⟩
  · show x.enter.value.pool.size < maxWord
    rw [hkept.size]
    exact h.small
  · show goal'.addAll (List.filterMap _ ([] ++ x.enter.value.pool.queued)) = goal'
    rw [hqueued]
    rfl

end Actor

/-! ### Writers and readers -/

/-- What can happen to a shared ranking. -/
inductive RankingMove (I : Type) where
  /-- A writer offers a position, and may look at the floor first.  If it takes the lock it is held up before
  the first action it runs that `hold` is true of. -/
  | offer (look : Bool) (hold : Board I → QueuedOffer I → Bool) (p : Position I)
  /-- The writer that is held up goes on. -/
  | resume
  /-- A writer with an overflow offer, who has waited for the lock, gets it. -/
  | grant (place : Nat) (hold : Board I → QueuedOffer I → Bool)
  | read
  | merge (other : Ranking I)
  | reset

/-- A shared ranking with those who are at it. -/
structure Contention (I : Type) where
  shared : SharedRanking I
  /-- Where a writer is held up. -/
  stopped : Option (Pause (QueuedOffer I)) := none
  /-- The overflow offers whose writers wait for the lock. -/
  waiting : List (Position I) := []
  /-- What has been offered since the last reset, in the order in which it counts. -/
  offers : List (Position I) := []

namespace Contention

/-- The action that offers a position. -/
def action {I : Type} (p : Position I) : QueuedOffer I := ⟨p.weight, some p.identity⟩

/-- An action taken from the pool and filled, and the actor then. -/
def taken (c : Contention I) (p : Position I) : Handle (QueuedOffer I) × Actor (Board I) (QueuedOffer I) :=
  c.shared.actor.acquire.value.2.fill (action p) c.shared.actor.acquire.value.1

def setActor {I : Type} (c : Contention I) (actor : Actor (Board I) (QueuedOffer I)) : Contention I :=
  { c with shared := { c.shared with actor } }

/-- Submit an offer while nobody has the lock. -/
def submit (c : Contention I) (hold : Board I → QueuedOffer I → Bool) (p : Position I)
    (h : Handle (QueuedOffer I)) : Contention I :=
  let out := (c.shared.actor.submitUntil hold h).value
  { c.setActor out.2 with
    stopped := out.1
    offers := c.offers ++ if Pause.ahead out.1 = [] then [p] else [] }

/-- A writer offers a position. -/
def offer (c : Contention I) (look : Bool) (hold : Board I → QueuedOffer I → Bool) (p : Position I) :
    Contention I :=
  if look && p.weight < c.shared.floor then { c with offers := c.offers ++ [p] }
  else
    let (h, actor) := c.taken p
    if c.stopped.isNone then (c.setActor actor).submit hold p h
    else if h.isOverflow then { c.setActor actor with waiting := c.waiting ++ [p] }
    else { c.setActor (actor.submit h).value with offers := c.offers ++ [p] }

/-- The writer that is held up goes on. -/
def resume (c : Contention I) : Contention I :=
  match c.stopped with
  | none => c
  | some pause =>
    { c.setActor (c.shared.actor.resume pause).value with
      stopped := none
      offers := c.offers ++ Pause.ahead (some pause) }

/-- A writer that has waited gets the lock. -/
def grant (c : Contention I) (place : Nat) (hold : Board I → QueuedOffer I → Bool) : Contention I :=
  match c.waiting[place]? with
  | some p => { c with waiting := c.waiting.eraseIdx place }.submit hold p (.overflow (action p))
  | none => c

/-- One thing happens.  Who needs the lock while a writer is held up does nothing. -/
def act (c : Contention I) : RankingMove I → Contention I
  | .offer look hold p => c.offer look hold p
  | .resume => c.resume
  | .grant place hold => if c.stopped.isNone then c.grant place hold else c
  | .read => if c.stopped.isNone then { c with shared := c.shared.descending.value.2 } else c
  | .merge other =>
    if c.stopped.isNone then { c with shared := (c.shared.mergeInto other).value.2 } else c
  | .reset =>
    if c.stopped.isNone then { c with shared := c.shared.reset.value, offers := [] } else c

def run (r : SharedRanking I) (moves : List (RankingMove I)) : Contention I :=
  moves.foldl act { shared := r }

/-! ### The operations of a shared ranking -/

theorem offer_of_lt_floor {c : Contention I} {look : Bool} (hold : Board I → QueuedOffer I → Bool)
    {p : Position I} (h : (look && p.weight < c.shared.floor) = true) :
    c.offer look hold p = { c with offers := c.offers ++ [p] } := by
  rw [offer, if_pos h]

theorem offer_of_not_lt_floor {c : Contention I} {look : Bool} (hold : Board I → QueuedOffer I → Bool)
    {p : Position I} (h : ¬ (look && p.weight < c.shared.floor) = true) :
    c.offer look hold p =
      if c.stopped.isNone then (c.setActor (c.taken p).2).submit hold p (c.taken p).1
      else if (c.taken p).1.isOverflow then { c.setActor (c.taken p).2 with waiting := c.waiting ++ [p] }
      else { c.setActor ((c.taken p).2.submit (c.taken p).1).value with offers := c.offers ++ [p] } := by
  rw [offer, if_neg h]

/-- While nobody is held up, an offer is that of a shared ranking. -/
theorem offer_eq_updateUntil {c : Contention I} (h : c.stopped = none) (weight : Int64) (identity : I) :
    ((c.offer true (QueuedOffer.compares identity) ⟨weight, identity⟩).stopped,
      (c.offer true (QueuedOffer.compares identity) ⟨weight, identity⟩).shared) =
        (c.shared.updateUntil weight identity).value := by
  by_cases hlt : weight < c.shared.floor
  · rw [offer_of_lt_floor _ (by simpa using hlt), SharedRanking.updateUntil, if_pos hlt]
    exact congrArg (·, c.shared) h
  · rw [offer_of_not_lt_floor _ (by simpa using hlt), SharedRanking.updateUntil, if_neg hlt, h]
    rfl

/-- A submission whose writer goes on at once. -/
theorem submit_resume (c : Contention I) (hold : Board I → QueuedOffer I → Bool) (p : Position I)
    (h : Handle (QueuedOffer I)) :
    (c.submit hold p h).resume.shared = { c.shared with actor := (c.shared.actor.submit h).value } := by
  rw [← Actor.submitUntil_bind_resume? _ hold, Logged.value_bind]
  unfold submit
  generalize (c.shared.actor.submitUntil hold h).value = out
  obtain ⟨_ | pause, actor⟩ := out <;> rfl

/-- An offer whose writer goes on at once is an update. -/
theorem offer_resume {c : Contention I} (h : c.stopped = none) (hold : Board I → QueuedOffer I → Bool)
    (weight : Int64) (identity : I) :
    (c.offer true hold ⟨weight, identity⟩).resume.shared = (c.shared.update weight identity).value := by
  have hnone : c.stopped.isNone = true := by rw [h]; rfl
  by_cases hlt : weight < c.shared.floor
  · rw [offer_of_lt_floor _ (by simpa using hlt), SharedRanking.update, if_pos hlt, resume]
    simp only [h]
    rfl
  · rw [offer_of_not_lt_floor _ (by simpa using hlt), SharedRanking.update, if_neg hlt,
      if_pos hnone]
    exact submit_resume _ hold _ _

/-- While somebody is held up, an offer is one made while the lock is held. -/
theorem offer_of_stopped {c : Contention I} (h : c.stopped ≠ none) (hold : Board I → QueuedOffer I → Bool)
    (weight : Int64) (identity : I) :
    (c.offer true hold ⟨weight, identity⟩).shared =
      (c.shared.offerWhileHeld [(weight, identity)]).value.2 := by
  have hsome : ¬ c.stopped.isNone = true := by simpa using h
  by_cases hlt : weight < c.shared.floor
  · rw [offer_of_lt_floor _ (by simpa using hlt), SharedRanking.offerWhileHeld, if_pos hlt]
    rfl
  · have hmeanwhile : (c.shared.offerWhileHeld [(weight, identity)]).value.2 =
        if (c.taken ⟨weight, identity⟩).1.isOverflow then
          { c.shared with actor := (c.taken ⟨weight, identity⟩).2 }
        else
          { c.shared with
            actor := ((c.taken ⟨weight, identity⟩).2.submit (c.taken ⟨weight, identity⟩).1).value } := by
      rw [SharedRanking.offerWhileHeld, if_neg hlt]
      show (if (c.taken ⟨weight, identity⟩).1.isOverflow = true then _ else _ :
        Logged (Meanwhile I × SharedRanking I)).value.2 = _
      split <;> rfl
    rw [offer_of_not_lt_floor _ (by simpa using hlt), if_neg hsome, hmeanwhile]
    split <;> rfl

/-! ### What is offered counts -/

/-- Once everything that counts has been run, the ranking is that of the offers. -/
def Sound (settings : RankingSettings) (c : Contention I) : Prop :=
  c.shared.actor.Held c.stopped ((Ranking.blank settings.capacity settings.threshold).addAll c.offers)

variable {settings : RankingSettings} {c : Contention I}

theorem sound_create {r : SharedRanking I} (h : SharedRanking.create settings = .ok r) :
    Sound settings { shared := r } := by
  obtain ⟨-, -, h⟩ := exists_ok_of_bind h
  obtain ⟨x, hx, h⟩ := exists_ok_of_bind h
  obtain rfl := Except.ok.inj h
  unfold Actor.create at hx
  split at hx
  · cases hx
  rename_i hpool
  split at hx
  · cases hx
  cases hx
  have hsize : (SlotPool.fresh settings.poolSize).size = settings.poolSize := Array.size_ofFn
  have hbound : Limits.poolSizeBound < maxWord := by decide
  refine ⟨⟨SlotPool.owned_fresh _, ?_, rfl, .nil⟩, ?_, rfl, by rintro left o ⟨⟩, ?_⟩
  · exact Array.size_replicate.trans hsize.symm
  · show (SlotPool.fresh settings.poolSize).size < maxWord
    omega
  · show (Ranking.blank settings.capacity settings.threshold).addAll
      (List.filterMap _ ([] ++ (SlotPool.fresh settings.poolSize).queued)) = _
    rw [SlotPool.queued_fresh]
    rfl

theorem taken_of_popFree_none (h : c.shared.actor.pool.popFree = none) (p : Position I) :
    c.taken p = (.overflow (action p), { c.shared.actor with overflows := c.shared.actor.overflows + 1 }) := by
  simp [taken, Actor.acquire, h, Actor.fill]

theorem taken_of_popFree {slot : Nat} {pool : SlotPool}
    (h : c.shared.actor.pool.popFree = some (slot, pool)) (p : Position I) :
    c.taken p = (.slot slot,
      ({ c.shared.actor with pool } : Actor (Board I) (QueuedOffer I)).setContent slot (action p)) := by
  simp [taken, Actor.acquire, h, Actor.fill]

theorem submit_eq {hold : Board I → QueuedOffer I → Bool} {p : Position I} {h : Handle (QueuedOffer I)}
    {pause : Option (Pause (QueuedOffer I))} {x : Actor (Board I) (QueuedOffer I)}
    (hvalue : (c.shared.actor.submitUntil hold h).value = (pause, x)) :
    c.submit hold p h = { c.setActor x with
      stopped := pause
      offers := c.offers ++ if Pause.ahead pause = [] then [p] else [] } := by
  rw [submit, hvalue]

/-- An overflow offer submitted while nobody has the lock. -/
theorem Sound.submit_overflow (h : c.Sound settings) (hnone : c.stopped = none)
    (hold : Board I → QueuedOffer I → Bool) (p : Position I) :
    (c.submit hold p (.overflow (action p))).Sound settings := by
  have hheld := h
  rw [Sound, hnone] at hheld
  obtain ⟨pause, z, hvalue, hcases⟩ := hheld.submitUntil_overflow hold (action p)
  rw [submit_eq hvalue]
  rcases hcases with ⟨hahead, hz⟩ | ⟨hahead, hz⟩
  · rw [if_pos hahead]
    show z.Held pause (Ranking.addAll _ (c.offers ++ [p]))
    rw [Ranking.addAll_append]
    exact hz
  · have hne : Pause.ahead pause ≠ [] := by
      rw [hahead]
      exact List.cons_ne_nil p []
    rw [if_neg hne, List.append_nil]
    exact hz

/-- A slot that is queued counts; the writer takes the lock if nobody has it. -/
theorem submit_slot {slot : Nat} {x : Actor (Board I) (QueuedOffer I)} {p : Position I}
    (h : (x.schedule slot).Held c.stopped
      ((Ranking.blank settings.capacity settings.threshold).addAll (c.offers ++ [p])))
    (hold : Board I → QueuedOffer I → Bool) :
    (if c.stopped.isNone then (c.setActor x).submit hold p (.slot slot)
      else { c.setActor (x.submit (.slot slot)).value with offers := c.offers ++ [p] }).Sound settings := by
  cases hstopped : c.stopped with
  | none =>
    rw [hstopped] at h
    obtain ⟨pause, z, hvalue, hahead, hz⟩ := h.submitUntil_slot hold
    have hsubmit := submit_eq (c := c.setActor x) (p := p) hvalue
    rw [if_pos hahead] at hsubmit
    rw [if_pos Option.isNone_none, hsubmit]
    exact hz
  | some pause =>
    have hlocked : (x.schedule slot).locked = true := by
      rw [h.locked, hstopped]
      rfl
    have hsubmit : (x.submit (.slot slot)).value = x.schedule slot := by
      unfold Actor.submit
      dsimp only
      rw [if_pos hlocked]
      rfl
    have hsome : ¬ (some pause).isNone = true := Bool.false_ne_true
    rw [if_neg hsome, hsubmit]
    exact h

theorem Sound.offer (h : c.Sound settings) (look : Bool) (hold : Board I → QueuedOffer I → Bool)
    (p : Position I) : (c.offer look hold p).Sound settings := by
  by_cases hlt : (look && p.weight < c.shared.floor) = true
  · -- dropped for the floor: it counts, and comes to nothing
    rw [offer_of_lt_floor hold hlt]
    have hfloor : p.weight < c.shared.floor := by
      simpa using (Bool.and_eq_true_iff.mp hlt).2
    show c.shared.actor.Held c.stopped (Ranking.addAll _ (c.offers ++ [p]))
    have hsame := Actor.Held.add_eq_self h hfloor [] p.identity
    rw [Ranking.addAll_concat]
    exact hsame.symm ▸ h
  rw [offer_of_not_lt_floor hold hlt]
  cases hpop : c.shared.actor.pool.popFree with
  | none =>
    have hcounted : (c.setActor { c.shared.actor with overflows := c.shared.actor.overflows + 1 }).Sound
      settings := Actor.Held.of_eq h rfl rfl rfl rfl
    rw [taken_of_popFree_none hpop]
    by_cases hnone : c.stopped.isNone = true
    · rw [if_pos hnone]
      exact hcounted.submit_overflow (Option.isNone_iff_eq_none.mp hnone) hold p
    · rw [if_neg hnone]
      exact hcounted
  | some popped =>
    obtain ⟨slot, pool⟩ := popped
    have hqueued := Actor.Held.queueOffer h hpop (action p)
    rw [taken_of_popFree hpop]
    refine submit_slot ?_ hold
    rw [Ranking.addAll_append]
    exact hqueued

theorem Sound.resume (h : c.Sound settings) : c.resume.Sound settings := by
  unfold Contention.resume
  cases hstopped : c.stopped with
  | none => exact h
  | some pause =>
    have hheld := h
    rw [Sound, hstopped] at hheld
    show (c.shared.actor.resume pause).value.Held none
      (Ranking.addAll _ (c.offers ++ Pause.ahead (some pause)))
    rw [Ranking.addAll_append]
    exact hheld.resume

/-- Looking at the ranking changes nothing that counts. -/
theorem Sound.inspect {B : Type} (h : c.Sound settings) (hnone : c.stopped = none) (f : Ranking I → B) :
    (c.shared.inspect f).value.1 =
        f ((Ranking.blank settings.capacity settings.threshold).addAll c.offers) ∧
      ({ c with shared := (c.shared.inspect f).value.2 } : Contention I).Sound settings := by
  have hheld := h
  rw [Sound, hnone] at hheld
  obtain ⟨hvalue, hstate⟩ := hheld.exclusively fun b => (f b.ranking, b)
  refine ⟨hvalue, ?_⟩
  have hascending := Ranking.ascending_addAll (r := Ranking.blank settings.capacity settings.threshold)
    List.Pairwise.nil c.offers
  have hafter := hstate _ hascending rfl
  rw [Sound, hnone]
  exact hafter

theorem Sound.reset (h : c.Sound settings) (hnone : c.stopped = none) :
    ({ c with shared := c.shared.reset.value, offers := [] } : Contention I).Sound settings := by
  have hheld := h
  rw [Sound, hnone] at hheld
  obtain ⟨-, hstate⟩ := hheld.exclusively fun b => ((), Board.publish b.ranking.reset)
  have hafter := hstate (Ranking.blank settings.capacity settings.threshold) .nil (by
    simp [Board.publish, Ranking.reset, Ranking.blank])
  rw [Sound, hnone]
  exact hafter

theorem Sound.act (h : c.Sound settings) (move : RankingMove I) : (c.act move).Sound settings := by
  cases move with
  | offer look hold p => exact h.offer look hold p
  | resume => exact h.resume
  | grant place hold =>
    unfold Contention.act
    dsimp only
    split
    · rename_i hnone
      unfold Contention.grant
      cases c.waiting[place]? with
      | none => exact h
      | some p =>
        have hless : ({ c with waiting := c.waiting.eraseIdx place } : Contention I).Sound settings := h
        exact hless.submit_overflow (Option.isNone_iff_eq_none.mp hnone) hold p
    · exact h
  | read =>
    unfold Contention.act
    dsimp only
    split
    · rename_i hnone
      exact (h.inspect (Option.isNone_iff_eq_none.mp hnone) Ranking.descending).2
    · exact h
  | merge other =>
    unfold Contention.act
    dsimp only
    split
    · rename_i hnone
      exact (h.inspect (Option.isNone_iff_eq_none.mp hnone) fun ranking => ranking.mergeInto other).2
    · exact h
  | reset =>
    unfold Contention.act
    dsimp only
    split
    · rename_i hnone
      exact h.reset (Option.isNone_iff_eq_none.mp hnone)
    · exact h

theorem sound_run {r : SharedRanking I} (h : SharedRanking.create settings = .ok r)
    (moves : List (RankingMove I)) : (run r moves).Sound settings := by
  induction moves using List.reverseRecOn with
  | nil => exact sound_create h
  | append_singleton moves move ih =>
    rw [run, List.foldl_concat]
    exact Sound.act ih move

/-- **Reads under contention** are those of a ranking that is given, one by one, all that has been offered
since the last reset, an overflow offer when it begins to run and every other when it is made; merges are
those of that ranking as well.
* It does not matter which writers look at the floor: what one drops comes to nothing, however late it would
  have been run.
* The floor that is published is always that of the ranking.
* Offers are those of shared rankings, by writers that go on at once and while one is held up. -/
theorem reads_eq_sequential (hv : settings.validate = .ok ())
    (hp : settings.poolSize < Limits.poolSizeBound) :
    ∃ r : SharedRanking I, SharedRanking.create settings = .ok r ∧ ∀ moves : List (RankingMove I),
      let c := run r moves
      let sequential := (Ranking.blank settings.capacity settings.threshold).addAll c.offers
      (c.stopped = none → c.shared.descending.value.1 = sequential.descending ∧
        ∀ other, (c.shared.mergeInto other).value.1 = sequential.mergeInto other) ∧
      (∀ p : Position I, p.weight < c.shared.floor → ∀ later,
        (sequential.addAll later).add p.weight p.identity = sequential.addAll later) ∧
      c.shared.floor = c.shared.actor.state.ranking.floor ∧
      ∀ hold (p : Position I),
        (c.stopped = none →
          (c.offer true hold p).resume.shared = (c.shared.update p.weight p.identity).value) ∧
        (c.stopped ≠ none → (c.offer true hold p).shared =
          (c.shared.offerWhileHeld [(p.weight, p.identity)]).value.2) := by
  obtain ⟨r, hr⟩ := SharedRanking.exists_create (I := I) hv hp
  refine ⟨r, hr, fun moves => ?_⟩
  have hsound := sound_run hr moves
  refine ⟨fun hnone => ⟨?_, fun other => ?_⟩, fun p hlt later => ?_, ?_, fun hold p => ⟨?_, ?_⟩⟩
  · exact (hsound.inspect hnone Ranking.descending).1
  · exact (hsound.inspect hnone fun ranking => ranking.mergeInto other).1
  · exact Actor.Held.add_eq_self hsound hlt later p.identity
  · exact congrArg Board.floor hsound.ready.published
  · exact fun hnone => offer_resume hnone hold p.weight p.identity
  · exact fun hsome => offer_of_stopped hsome hold p.weight p.identity

/-- While a writer is held up before its own offer, one offer is dropped for the floor and another waits for
the lock. -/
theorem reads_eq_sequential_waiting :
    let settings : RankingSettings := ⟨2, 0, 1, 1⟩
    let moves : List (RankingMove Nat) :=
      [.offer true (fun _ _ => true) ⟨5, 1⟩, .offer true (fun _ _ => false) ⟨7, 2⟩,
        .offer true (fun _ _ => false) ⟨-1, 3⟩, .resume, .grant 0 fun _ _ => false]
    ∃ r : SharedRanking Nat, SharedRanking.create settings = .ok r ∧
      (run r moves).offers = [⟨5, 1⟩, ⟨-1, 3⟩, ⟨7, 2⟩] ∧
      (run r moves).shared.descending.value.1 =
        ((Ranking.blank 2 0).addAll (run r moves).offers).descending := by
  intro settings moves
  have hv : settings.validate = .ok () := rfl
  obtain ⟨r, hr, hreads⟩ := reads_eq_sequential (I := Nat) hv (by decide)
  have hcreate : SharedRanking.create (I := Nat) settings = .ok _ := rfl
  obtain rfl := Except.ok.inj (hcreate.symm.trans hr)
  exact ⟨_, hr, by decide +kernel, ((hreads moves).1 (by decide +kernel)).1⟩

end Contention

end WindowedMetrics
