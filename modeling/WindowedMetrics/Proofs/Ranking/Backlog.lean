import WindowedMetrics.Proofs.Actor.Frames
import WindowedMetrics.Proofs.Actor.Pool
import WindowedMetrics.Proofs.Ranking.Floor
import WindowedMetrics.Proofs.Ranking.Offers
import WindowedMetrics.Ranking.Held

/-!
# Offers on their way

An actor that owns a ranking may have offers in its queue, and those of a drain that was stopped in hand.
`Actor.outlook` is the ranking once all of them have been applied.  Running offers and draining, stopped or
not, keep the outlook (`Actor.Kept`), and offers queue nothing, so a drain ends with an empty queue.

`Actor.Stopped` says how things stand while a writer is held up, or while none is: what the outlook is, and
who has the lock.  It is kept by whatever writers do meanwhile, and by the writer that goes on.
-/

namespace WindowedMetrics

variable {I : Type} [DecidableEq I]

/-! ### Offers -/

/-- The position that an action offers. -/
def QueuedOffer.position? {I : Type} (o : QueuedOffer I) : Option (Position I) :=
  o.identity.map fun identity => ⟨o.weight, identity⟩

namespace Ranking

/-- What is too light for a ranking comes to nothing after any offers. -/
theorem TooLight.add_addAll {r : Ranking I} {w : Int64} (h : r.TooLight w) (ha : Ascending r.positions)
    (offers : List (Position I)) (identity : I) : (r.addAll offers).add w identity = r.addAll offers := by
  induction offers generalizing r with
  | nil => exact h.add_eq_self ha identity
  | cons o offers ih =>
    exact ih (h.add ha o.weight o.identity) (ascending_add ha o.weight o.identity)

end Ranking

namespace Actor

variable {x y z : Actor (Board I) (QueuedOffer I)} {hand : List Nat}

/-- The offers to be run: those of the slots in hand, then those of the queue. -/
def todo (x : Actor (Board I) (QueuedOffer I)) (hand : List Nat) : List (Position I) :=
  (hand ++ x.pool.queued).filterMap fun slot => (x.content slot).position?

/-- The ranking once all offers to be run have been run. -/
def outlook (x : Actor (Board I) (QueuedOffer I)) (hand : List Nat) : Ranking I :=
  x.state.ranking.addAll (x.todo hand)

/-- No action is being run; a drain has the slots `hand` in hand, and the ranking is published. -/
structure Ready (x : Actor (Board I) (QueuedOffer I)) (hand : List Nat) : Prop where
  owned : x.pool.Owned hand
  size : x.contents.size = x.pool.size
  published : x.state = Board.publish x.state.ranking
  ascending : Ascending x.state.ranking.positions

/-- Of the offers to be run some have been run. -/
structure Kept (x : Actor (Board I) (QueuedOffer I)) (hand : List Nat)
    (y : Actor (Board I) (QueuedOffer I)) (hand' : List Nat) : Prop where
  ready : y.Ready hand'
  outlook : y.outlook hand' = x.outlook hand
  size : y.pool.size = x.pool.size

theorem Ready.kept (h : x.Ready hand) : x.Kept hand x hand := ⟨h, rfl, rfl⟩

theorem Kept.trans {hand' hand'' : List Nat} (hxy : x.Kept hand y hand') (hyz : y.Kept hand' z hand'') :
    x.Kept hand z hand'' :=
  ⟨hyz.ready, hyz.outlook.trans hxy.outlook, hyz.size.trans hxy.size⟩

/-- With an empty queue and nothing in hand the outlook is there. -/
theorem outlook_of_queued_nil (h : x.pool.queued = []) : x.outlook [] = x.state.ranking := by
  rw [outlook, todo, h]
  rfl

/-! ### Running offers -/

theorem runScript_published {ranking : Ranking I} (h : x.state = Board.publish ranking)
    (o : QueuedOffer I) :
    (runScript (Action.script o) [] x).value =
      { x with state := Board.publish (ranking.addAll o.position?.toList) } := by
  obtain ⟨weight, _ | identity⟩ := o
  · obtain ⟨state, pool, contents, batchSize, locked, submitted, executed, overflows, capHits⟩ := x
    cases h
    rfl
  · show ({ x with state := x.state.offer weight identity } : Actor (Board I) (QueuedOffer I)) = _
    rw [h]
    rfl

/-- Running the first slot in hand. -/
theorem Ready.runSlot {slot : Nat} {rest : List Nat} (h : x.Ready (slot :: rest)) :
    x.Kept (slot :: rest) (x.runSlot slot).value rest ∧
      (x.runSlot slot).value.pool.queued = x.pool.queued := by
  obtain ⟨howned, hqueued⟩ := h.owned.pushFree
  have hrun := runScript_published h.published (x.content slot)
  obtain ⟨y, hy⟩ : ∃ y, y = (x.runSlot slot).value := ⟨_, rfl⟩
  obtain ⟨ran, hran⟩ : ∃ ran : Actor (Board I) (QueuedOffer I), ran = { x with
    state := Board.publish (x.state.ranking.addAll (x.content slot).position?.toList) } := ⟨_, rfl⟩
  have hyran : y = (ran.setContent slot (Action.spent (x.content slot))).discard (.slot slot) := by
    rw [hy, hran]
    simp only [Actor.runSlot, Logged.value_bind, Logged.value_pure, hrun]
  have hpool : y.pool = x.pool.pushFree slot := by rw [hyran, hran]; rfl
  have hsize : y.pool.size = x.pool.size := by
    rw [hpool]
    exact SlotPool.size_setLink ..
  have hstate : y.state = Board.publish (x.state.ranking.addAll (x.content slot).position?.toList) := by
    rw [hyran, hran]
    rfl
  have hcontents : y.contents.size = x.contents.size := by
    rw [hyran, hran]
    exact Array.size_setIfInBounds
  have hcontent : ∀ j, slot ≠ j → y.content j = x.content j := by
    intro j hj
    rw [hyran, hran]
    exact content_setContent_of_ne _ _ hj
  have htodo : y.todo rest = x.todo rest := by
    rw [todo, hpool, hqueued]
    refine List.filterMap_congr fun j hj => ?_
    rw [hcontent j]
    rintro rfl
    rcases List.mem_append.mp hj with hj | hj
    · exact (List.nodup_cons.mp h.owned.nodup).1 hj
    · exact h.owned.not_mem_queued List.mem_cons_self hj
  rw [← hy]
  refine ⟨⟨⟨hpool ▸ howned, hcontents.trans (h.size.trans hsize.symm), ?_, ?_⟩, ?_, hsize⟩, hpool ▸ hqueued⟩
  · rw [hstate]
    rfl
  · rw [hstate]
    exact Ranking.ascending_addAll h.ascending _
  · have hcons : x.todo (slot :: rest) = (x.content slot).position?.toList ++ x.todo rest := by
      unfold todo
      rw [List.cons_append, List.filterMap_cons]
      cases (x.content slot).position? <;> rfl
    rw [outlook, outlook, htodo, hstate, hcons, Ranking.addAll_append]
    rfl

theorem Ready.runSlots {slots : List Nat} (h : x.Ready slots) :
    x.Kept slots (x.runSlots slots).value [] ∧ (x.runSlots slots).value.pool.queued = x.pool.queued := by
  induction slots generalizing x with
  | nil => exact ⟨h.kept, rfl⟩
  | cons slot slots ih =>
    obtain ⟨hkept, hqueued⟩ := h.runSlot
    obtain ⟨hrest, hqueued'⟩ := ih hkept.ready
    exact ⟨hkept.trans hrest, hqueued'.trans hqueued⟩

theorem Ready.runSlotsUntil (hold : Board I → QueuedOffer I → Bool) {slots : List Nat}
    (h : x.Ready slots) :
    x.Kept slots (x.runSlotsUntil hold slots).value.2 (x.runSlotsUntil hold slots).value.1 ∧
      (x.runSlotsUntil hold slots).value.2.pool.queued = x.pool.queued := by
  induction slots generalizing x with
  | nil => exact ⟨h.kept, rfl⟩
  | cons slot slots ih =>
    unfold Actor.runSlotsUntil
    split
    · exact ⟨h.kept, rfl⟩
    · obtain ⟨hkept, hqueued⟩ := h.runSlot
      obtain ⟨hrest, hqueued'⟩ := ih hkept.ready
      exact ⟨hkept.trans hrest, hqueued'.trans hqueued⟩

/-! ### Draining -/

/-- Taking the whole queue into one's hand. -/
theorem Ready.takeQueue (h : x.Ready []) {slots : List Nat} {pool : SlotPool}
    (htake : x.pool.takeQueue = some (slots, pool)) :
    x.Kept [] { x with pool } slots ∧ pool.queued = [] ∧ slots.length ≤ x.pool.size := by
  have hlength := h.owned.length_le
  obtain ⟨rfl, howned, hqueued, hsize⟩ := h.owned.takeQueue htake
  rw [List.append_nil] at howned
  refine ⟨⟨⟨howned, h.size.trans hsize.symm, h.published, h.ascending⟩, ?_, hsize⟩, hqueued, hlength⟩
  show x.state.ranking.addAll ((x.pool.queued ++ pool.queued).filterMap _) = _
  rw [hqueued, List.append_nil]
  rfl

/-- The lock and the counters do not matter. -/
theorem Kept.of_eq {hand' : List Nat} (h : x.Kept hand y hand') (hpool : z.pool = y.pool)
    (hcontents : z.contents = y.contents) (hstate : z.state = y.state) : x.Kept hand z hand' := by
  obtain ⟨⟨howned, hsize, hpublished, hascending⟩, houtlook, hpoolSize⟩ := h
  have hcontent : ∀ j, z.content j = y.content j := by
    intro j
    rw [content, hcontents]
    rfl
  refine ⟨⟨?_, ?_, ?_, ?_⟩, ?_, ?_⟩
  · rwa [hpool]
  · rwa [hcontents, hpool]
  · rwa [hstate]
  · rwa [hstate]
  · rw [← houtlook]
    unfold Actor.outlook todo
    simp only [hstate, hpool, hcontent]
  · rwa [hpool]

/-- A drain empties the queue: offers queue nothing. -/
theorem Ready.drain (h : x.Ready []) (limit ran : Nat) :
    x.Kept [] (x.drain limit ran).value.2 [] ∧ (x.drain limit ran).value.2.pool.queued = [] := by
  cases hq : x.pool.takeQueue with
  | none =>
    rw [drain_of_takeQueue_none hq]
    exact ⟨h.kept.of_eq rfl rfl rfl, SlotPool.queued_of_takeQueue_none hq⟩
  | some taken =>
    obtain ⟨slots, pool⟩ := taken
    obtain ⟨htaken, hempty, -⟩ := h.takeQueue hq
    obtain ⟨hran, hqueued⟩ := htaken.ready.runSlots
    have hkept := htaken.trans hran
    have hnil : (Actor.runSlots { x with pool } slots).value.pool.queued = [] := hqueued.trans hempty
    rw [drain_of_takeQueue_some hq]
    simp only [Logged.value_bind, drainRest, Actor.runSlots, Logged.value_pure]
    split
    · exact ⟨hkept.of_eq rfl rfl rfl, hnil⟩
    · rw [drain_of_takeQueue_none (hkept.ready.owned.takeQueue_eq_none hnil)]
      exact ⟨hkept.of_eq rfl rfl rfl, hnil⟩

end Actor

/-- The slots that a drain has still in hand. -/
def Drained.slots : Drained → List Nat
  | .ended _ => []
  | .stopped left => left.slots

namespace Actor

variable {x y : Actor (Board I) (QueuedOffer I)}

theorem drainUntil_of_takeQueue_none (hold : Board I → QueuedOffer I → Bool)
    (h : x.pool.takeQueue = none) (limit ran : Nat) :
    (x.drainUntil hold limit ran).value =
      (.ended (x.endDrain limit ran).1, (x.endDrain limit ran).2) := by
  rw [drainUntil]
  split
  · rfl
  · simp_all

theorem drainUntil_of_takeQueue_some (hold : Board I → QueuedOffer I → Bool) {slots : List Nat}
    {pool : SlotPool} (h : x.pool.takeQueue = some (slots, pool)) (limit ran : Nat) :
    (x.drainUntil hold limit ran).value =
      let out := (runSlotsUntil hold { x with pool } slots).value
      if out.1 ≠ [] then (.stopped ⟨limit, out.1, ran + slots.length⟩, out.2)
      else if limit ≤ ran + slots.length then
        (.ended (out.2.endDrain limit (ran + slots.length)).1, (out.2.endDrain limit (ran + slots.length)).2)
      else (drainUntil hold out.2 limit (ran + slots.length)).value := by
  rw [drainUntil]
  split
  · simp_all
  · rename_i slots' pool' h'
    rw [h] at h'
    cases h'
    simp only [Logged.value_bind]
    split
    · rfl
    · split <;> rfl

/-- A drain that could be stopped: what it has still in hand, it has from the queue it found. -/
theorem Ready.drainUntil (hold : Board I → QueuedOffer I → Bool) (h : x.Ready []) (limit : Nat) :
    ∃ d y, (x.drainUntil hold limit 0).value = (d, y) ∧ x.Kept [] y d.slots ∧ y.pool.queued = [] ∧
      ∀ left, d = .stopped left → left.limit = limit ∧ left.ran ≤ x.pool.size := by
  cases hq : x.pool.takeQueue with
  | none =>
    refine ⟨_, _, drainUntil_of_takeQueue_none hold hq limit 0, h.kept.of_eq rfl rfl rfl,
      SlotPool.queued_of_takeQueue_none hq, ?_⟩
    rintro left ⟨⟩
  | some taken =>
    obtain ⟨slots, pool⟩ := taken
    obtain ⟨htaken, hempty, hlength⟩ := h.takeQueue hq
    obtain ⟨hran, hqueued⟩ := htaken.ready.runSlotsUntil hold
    have hkept := htaken.trans hran
    have hnil := hqueued.trans hempty
    rw [drainUntil_of_takeQueue_some hold hq]
    generalize (Actor.runSlotsUntil hold { x with pool } slots).value = out at hkept hnil
    obtain ⟨left, y⟩ := out
    dsimp only at hkept hnil ⊢
    by_cases hleft : left = []
    · -- the queue has been run, and nothing was queued meanwhile
      rw [if_neg (not_not_intro hleft)]
      subst hleft
      split
      · exact ⟨_, _, rfl, hkept.of_eq rfl rfl rfl, hnil, by rintro left ⟨⟩⟩
      · rw [drainUntil_of_takeQueue_none hold (hkept.ready.owned.takeQueue_eq_none hnil)]
        exact ⟨_, _, rfl, hkept.of_eq rfl rfl rfl, hnil, by rintro left ⟨⟩⟩
    · rw [if_pos hleft]
      refine ⟨_, y, rfl, hkept, hnil, ?_⟩
      rintro left' ⟨⟩
      exact ⟨rfl, by rwa [Nat.zero_add]⟩

/-- The rest of a drain that was stopped.  What was queued meanwhile is run, too, unless the limit has been
reached. -/
theorem Ready.drainRest {left : Remainder} (h : x.Ready left.slots) :
    x.Kept left.slots (x.drainRest left).value.2 [] ∧
      (left.ran < left.limit → (x.drainRest left).value.2.pool.queued = []) := by
  obtain ⟨hran, -⟩ := h.runSlots
  unfold Actor.drainRest
  simp only [Logged.value_bind]
  split
  · rename_i hle
    exact ⟨hran.of_eq rfl rfl rfl, fun hlt => absurd hle (Nat.not_le.mpr hlt)⟩
  · obtain ⟨hdrain, hnil⟩ := hran.ready.drain left.limit left.ran
    exact ⟨hran.trans hdrain, fun _ => hnil⟩

/-- A release changes the lock and a counter. -/
theorem Kept.release {hand : List Nat} (h : x.Kept hand y []) (capped : Bool) :
    x.Kept hand (y.release capped).value [] ∧ (y.release capped).value.locked = false ∧
      (y.release capped).value.pool = y.pool := by
  cases capped <;> exact ⟨h.of_eq rfl rfl rfl, rfl, rfl⟩

theorem Ready.drainAndRelease (h : x.Ready []) :
    x.Kept [] x.drainAndRelease.value [] ∧ x.drainAndRelease.value.locked = false := by
  obtain ⟨hdrain, -⟩ := h.drain x.batchSize 0
  obtain ⟨hkept, hlocked, -⟩ := hdrain.release (x.drain x.batchSize 0).value.1
  exact ⟨hkept, hlocked⟩

/-- Running an overflow offer, which comes before what is queued. -/
theorem Ready.runOverflow (h : x.Ready []) (o : QueuedOffer I) :
    (x.runOverflow o).value.Ready [] ∧ (x.runOverflow o).value.locked = false ∧
      (x.runOverflow o).value.pool.size = x.pool.size ∧
      (x.runOverflow o).value.outlook [] = x.state.ranking.addAll (o.position?.toList ++ x.todo []) := by
  have hrun := runScript_published h.published o
  obtain ⟨y, hy⟩ : ∃ y : Actor (Board I) (QueuedOffer I), y = { x with
    state := Board.publish (x.state.ranking.addAll o.position?.toList)
    executed := x.executed + 1 } := ⟨_, rfl⟩
  have hvalue : (x.runOverflow o).value = y.drainAndRelease.value := by
    rw [hy]
    simp only [Actor.runOverflow, Logged.value_bind, hrun]
  have hready : y.Ready [] := by
    rw [hy]
    exact ⟨h.owned, h.size, rfl, Ranking.ascending_addAll h.ascending _⟩
  have houtlook : y.outlook [] = x.state.ranking.addAll (o.position?.toList ++ x.todo []) := by
    rw [Ranking.addAll_append, hy]
    rfl
  have hsize : y.pool.size = x.pool.size := by rw [hy]
  obtain ⟨hkept, hlocked⟩ := hready.drainAndRelease
  rw [hvalue]
  exact ⟨hkept.ready, hlocked, hkept.size.trans hsize, hkept.outlook.trans houtlook⟩

/-! ### Queueing offers -/

/-- An offer put into a free slot and queued will be run last. -/
theorem Ready.queueOffer {hand : List Nat} {slot : Nat} {pool : SlotPool} (h : x.Ready hand)
    (hpop : x.pool.popFree = some (slot, pool)) (o : QueuedOffer I) :
    ((({ x with pool } : Actor (Board I) (QueuedOffer I)).setContent slot o).schedule slot).Ready hand ∧
      ((({ x with pool } : Actor (Board I) (QueuedOffer I)).setContent slot o).schedule slot).todo hand =
        x.todo hand ++ o.position?.toList ∧
      ((({ x with pool } : Actor (Board I) (QueuedOffer I)).setContent slot o).schedule slot).pool.size =
        x.pool.size := by
  obtain ⟨howned, hqueued, hsize⟩ := h.owned.popFree hpop
  obtain ⟨hscheduled, hlast⟩ := howned.enqueue
  have hlt : slot < x.contents.size := by
    rw [h.size, ← hsize]
    exact howned.lt_size List.mem_cons_self
  have hnot : slot ∉ hand ++ x.pool.queued := by
    intro hmem
    rcases List.mem_append.mp hmem with hmem | hmem
    · exact (List.nodup_cons.mp howned.nodup).1 hmem
    · exact howned.not_mem_queued List.mem_cons_self (hqueued ▸ hmem)
  obtain ⟨y, hy⟩ : ∃ y : Actor (Board I) (QueuedOffer I),
    y = (({ x with pool } : Actor (Board I) (QueuedOffer I)).setContent slot o).schedule slot := ⟨_, rfl⟩
  have hpool : y.pool = pool.enqueue slot := by rw [hy]; rfl
  have hpoolSize : y.pool.size = x.pool.size := by
    rw [hpool, ← hsize]
    exact SlotPool.size_setLink ..
  have hcontents : y.contents.size = x.contents.size := by
    rw [hy]
    exact Array.size_setIfInBounds
  have hstate : y.state = x.state := by rw [hy]; rfl
  have hself : y.content slot = o := by
    rw [hy]
    exact content_setContent_self (x := { x with pool }) o hlt
  have hcontent : ∀ j, slot ≠ j → y.content j = x.content j := by
    intro j hj
    rw [hy]
    exact content_setContent_of_ne { x with pool } o hj
  rw [← hy]
  refine ⟨⟨hpool ▸ hscheduled, hcontents.trans (h.size.trans hpoolSize.symm), ?_, ?_⟩, ?_, hpoolSize⟩
  · rw [hstate]
    exact h.published
  · rw [hstate]
    exact h.ascending
  · unfold todo
    rw [hpool, hlast, hqueued, ← List.append_assoc, List.filterMap_append]
    refine congr_arg₂ (· ++ ·) (List.filterMap_congr fun j hj => ?_) ?_
    · rw [hcontent j fun hslot => hnot (hslot ▸ hj)]
    · rw [List.filterMap_cons, hself]
      cases o.position? <;> rfl

end Actor

end WindowedMetrics
