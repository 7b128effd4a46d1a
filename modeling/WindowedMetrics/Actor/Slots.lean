/-!
# Slot pools

A pool of numbered slots with two stacks over one array of links: the free slots, and the queue of
slots whose actions are scheduled.  A slot that is on neither stack is owned by whoever took it, and
its link means nothing.

* `popFree`, `pushFree` work on the free stack: the slot freed last is taken first.
* `enqueue` puts a slot on top of the queue; `takeQueue` empties the queue, turns its links around and lists
  its slots in the order they came.
-/

namespace WindowedMetrics

structure SlotPool where
  /-- The slot below each slot, on the stack it is on. -/
  links : Array (Option Nat)
  freeTop : Option Nat
  queueTop : Option Nat

namespace SlotPool

/-- All of `size` slots are free, the first on top. -/
def fresh (size : Nat) : SlotPool where
  links := Array.ofFn fun i : Fin size => if i.val + 1 < size then some (i.val + 1) else none
  freeTop := if size = 0 then none else some 0
  queueTop := none

def size (p : SlotPool) : Nat := p.links.size

/-- The slot below a slot. -/
def link (p : SlotPool) (slot : Nat) : Option Nat := p.links[slot]?.join

def setLink (p : SlotPool) (slot : Nat) (below : Option Nat) : SlotPool :=
  { p with links := p.links.setIfInBounds slot below }

@[simp] theorem size_setLink (p : SlotPool) (slot : Nat) (below : Option Nat) :
    (p.setLink slot below).size = p.size := Array.size_setIfInBounds

theorem link_setLink_self {p : SlotPool} {slot : Nat} (below : Option Nat) (h : slot < p.size) :
    (p.setLink slot below).link slot = below := by
  unfold link setLink
  rw [Array.getElem?_setIfInBounds_self_of_lt h]
  rfl

theorem link_setLink_of_ne (p : SlotPool) {slot other : Nat} (below : Option Nat)
    (h : slot ≠ other) : (p.setLink slot below).link other = p.link other := by
  unfold link setLink
  rw [Array.getElem?_setIfInBounds_ne h]

/-! ### The free stack -/

/-- Take the slot that was freed last. -/
def popFree (p : SlotPool) : Option (Nat × SlotPool) :=
  p.freeTop.map fun slot => (slot, { p with freeTop := p.link slot })

def pushFree (p : SlotPool) (slot : Nat) : SlotPool :=
  { p.setLink slot p.freeTop with freeTop := some slot }

/-! ### The queue -/

def enqueue (p : SlotPool) (slot : Nat) : SlotPool :=
  { p.setLink slot p.queueTop with queueTop := some slot }

def queueEmpty (p : SlotPool) : Bool := p.queueTop.isNone

/-- The slots from `slot` downwards, at most `fuel` of them below it. -/
def chain (p : SlotPool) : (fuel slot : Nat) → List Nat
  | 0, slot => [slot]
  | fuel + 1, slot =>
    slot :: match p.link slot with
      | none => []
      | some below => chain p fuel below

theorem chain_ne_nil (p : SlotPool) (fuel slot : Nat) : p.chain fuel slot ≠ [] := by
  cases fuel <;> simp [chain]

/-- Turn the links of that chain around, so that they lead from its last slot up to `slot` and then to
`above`. -/
def turn (p : SlotPool) : (fuel slot : Nat) → (above : Option Nat) → SlotPool
  | 0, slot, above => p.setLink slot above
  | fuel + 1, slot, above =>
    match p.link slot with
    | none => p.setLink slot above
    | some below => turn (p.setLink slot above) fuel below (some slot)

/-- Empty the queue; its slots, the one queued first in front, and linked in this order. -/
def takeQueue (p : SlotPool) : Option (List Nat × SlotPool) :=
  p.queueTop.map fun top =>
    ((p.chain p.size top).reverse, { p.turn p.size top none with queueTop := none })

@[simp] theorem size_turn (p : SlotPool) (fuel slot : Nat) (above : Option Nat) :
    (p.turn fuel slot above).size = p.size := by
  induction fuel generalizing p slot above with
  | zero => exact p.size_setLink slot above
  | succ fuel ih =>
    unfold turn
    split
    · exact p.size_setLink slot above
    · exact (ih ..).trans (p.size_setLink slot above)

@[simp] theorem freeTop_turn (p : SlotPool) (fuel slot : Nat) (above : Option Nat) :
    (p.turn fuel slot above).freeTop = p.freeTop := by
  induction fuel generalizing p slot above with
  | zero => rfl
  | succ fuel ih =>
    unfold turn
    split
    · rfl
    · exact ih ..

theorem takeQueue_eq_none_iff (p : SlotPool) : p.takeQueue = none ↔ p.queueEmpty := by
  simp [takeQueue, queueEmpty]

theorem takeQueue_ne_nil {p q : SlotPool} {slots : List Nat} (h : p.takeQueue = some (slots, q)) :
    slots ≠ [] := by
  obtain ⟨top, -, he⟩ := Option.map_eq_some_iff.1 h
  cases he
  simpa using p.chain_ne_nil _ _

end SlotPool

end WindowedMetrics
