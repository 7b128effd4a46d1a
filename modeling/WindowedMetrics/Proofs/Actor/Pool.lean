import Mathlib.Data.List.Range
import WindowedMetrics.Actor.Slots

/-!
# The lists in a slot pool

A pool keeps two stacks in one array of links.  `SlotPool.Stack` reads a stack as a list.
`SlotPool.Splits free queue out` says that the slots are, each once, those on the free stack, those in the
queue, the oldest first, and those that are out: taken by somebody, or being run.  Each operation on a pool
moves one slot from one list to another, or the whole queue out.  `SlotPool.Owned` says the same of the
slots that are out, where nobody cares which slots are free; the queue is then `SlotPool.queued`.
-/

namespace WindowedMetrics.SlotPool

/-! ### Stacks -/

/-- The links lead from `top` down through these slots. -/
inductive Stack (p : SlotPool) : Option Nat → List Nat → Prop
  | bottom : Stack p none []
  | slot (i : Nat) (l : List Nat) : i < p.size → Stack p (p.link i) l → Stack p (some i) (i :: l)

namespace Stack

variable {p q : SlotPool} {top : Option Nat} {l : List Nat}

theorem lt_size (h : p.Stack top l) {i : Nat} (hi : i ∈ l) : i < p.size := by
  induction h with
  | bottom => exact absurd hi List.not_mem_nil
  | slot j l hj _ ih =>
    rcases List.mem_cons.mp hi with rfl | hi
    · exact hj
    · exact ih hi

/-- A stack depends on the links of its slots only. -/
theorem congr (h : p.Stack top l) (hsize : q.size = p.size) (hlink : ∀ i ∈ l, q.link i = p.link i) :
    q.Stack top l := by
  induction h with
  | bottom => exact .bottom
  | slot i l hi _ ih =>
    refine .slot i l (hsize ▸ hi) ?_
    rw [hlink i List.mem_cons_self]
    exact ih fun j hj => hlink j (List.mem_cons_of_mem _ hj)

theorem setLink (h : p.Stack top l) {i : Nat} (hi : i ∉ l) (below : Option Nat) :
    (p.setLink i below).Stack top l := by
  refine h.congr (size_setLink ..) fun j hj => link_setLink_of_ne p below ?_
  rintro rfl
  exact hi hj

theorem push (h : p.Stack top l) {i : Nat} (hi : i ∉ l) (hsize : i < p.size) :
    (p.setLink i top).Stack (some i) (i :: l) := by
  refine .slot i l (by rwa [size_setLink]) ?_
  rw [link_setLink_self _ hsize]
  exact h.setLink hi top

theorem top_eq_none_iff (h : p.Stack top l) : top = none ↔ l = [] := by
  cases h <;> simp

/-- The links lead one way. -/
theorem unique (h : p.Stack top l) {l' : List Nat} (h' : p.Stack top l') : l = l' := by
  induction h generalizing l' with
  | bottom =>
    cases h'
    rfl
  | slot i l _ _ ih =>
    cases h' with
    | slot _ l' _ hbelow => rw [ih hbelow]

theorem chain_eq {i : Nat} (h : p.Stack (some i) l) {fuel : Nat} (hfuel : l.length ≤ fuel + 1) :
    p.chain fuel i = l := by
  induction fuel generalizing i l with
  | zero =>
    cases h with
    | slot _ l _ hl =>
      obtain rfl : l = [] := List.eq_nil_of_length_eq_zero (by simpa using hfuel)
      rfl
  | succ fuel ih =>
    cases h with
    | slot _ l _ hl =>
      rw [chain]
      cases hlink : p.link i with
      | none =>
        rw [hlink] at hl
        cases hl
        rfl
      | some below =>
        rw [hlink] at hl
        exact congrArg (List.cons i) (ih hl (by simpa using hfuel))

/-- Turned around, a stack leads from its last slot up to its top and then on. -/
theorem turn {i fuel : Nat} {above : Option Nat} {r : List Nat} (h : p.Stack (some i) l)
    (habove : p.Stack above r) (hnodup : (l ++ r).Nodup) (hfuel : l.length ≤ fuel + 1) :
    (p.turn fuel i above).Stack l.getLast? (l.reverse ++ r) ∧
      ∀ j, j ∉ l → (p.turn fuel i above).link j = p.link j := by
  induction fuel generalizing p i l above r with
  | zero =>
    cases h with
    | slot _ l hi hl =>
      obtain rfl : l = [] := List.eq_nil_of_length_eq_zero (by simpa using hfuel)
      have hout : i ∉ r := (List.nodup_cons.mp hnodup).1
      exact ⟨habove.push hout hi, fun j hj =>
        link_setLink_of_ne p above fun hij => hj (hij ▸ List.mem_singleton_self i)⟩
  | succ fuel ih =>
    cases h with
    | slot _ l hi hl =>
      obtain ⟨hout, hrest⟩ := List.nodup_cons.mp hnodup
      have hpushed : (p.setLink i above).Stack (some i) (i :: r) :=
        habove.push (fun hr => hout (List.mem_append_right _ hr)) hi
      have hother : ∀ j, j ∉ i :: l → (p.setLink i above).link j = p.link j := fun j hj =>
        link_setLink_of_ne p above fun hij => hj (hij ▸ List.mem_cons_self)
      unfold SlotPool.turn
      cases hlink : p.link i with
      | none =>
        rw [hlink] at hl
        cases hl
        exact ⟨hpushed, hother⟩
      | some below =>
        have hbelow := (hlink ▸ hl).setLink (fun hl => hout (List.mem_append_left _ hl)) above
        have hmoved : (l ++ i :: r).Nodup := List.perm_middle.nodup_iff.mpr hnodup
        obtain ⟨hturned, hsame⟩ := ih hbelow hpushed hmoved (by simpa using hfuel)
        refine ⟨?_, fun j hj => (hsame j fun hl => hj (List.mem_cons_of_mem _ hl)).trans (hother j hj)⟩
        have hne : l ≠ [] := by
          rintro rfl
          rw [hlink] at hl
          cases hl
        rw [List.getLast?_cons, List.reverse_cons, List.append_assoc]
        simpa [List.getLast?_eq_some_getLast hne] using hturned

end Stack

/-! ### The slots of a pool -/

/-- Each slot is free, in the queue, or out. -/
structure Splits (p : SlotPool) (free queue out : List Nat) : Prop where
  freeStack : p.Stack p.freeTop free
  queueStack : p.Stack p.queueTop queue.reverse
  all : (free ++ queue ++ out).Perm (List.range p.size)

/-- The links of a new pool, from any slot on. -/
theorem stack_fresh {size : Nat} (k i : Nat) (h : i + k = size) :
    (fresh size).Stack (if i < size then some i else none) (List.range' i k) := by
  have hsize : (fresh size).size = size := Array.size_ofFn
  induction k generalizing i with
  | zero =>
    rw [if_neg (by omega)]
    exact .bottom
  | succ k ih =>
    have hi : i < size := by omega
    have hlink : (fresh size).link i = if i + 1 < size then some (i + 1) else none := by
      unfold link fresh
      rw [Array.getElem?_ofFn, dif_pos hi]
      rfl
    rw [if_pos hi, List.range'_succ]
    refine .slot i _ (hsize.symm ▸ hi) ?_
    rw [hlink]
    exact ih (i + 1) (by omega)

theorem splits_fresh (size : Nat) : (fresh size).Splits (List.range size) [] [] where
  freeStack := by
    have h := stack_fresh size 0 (Nat.zero_add size)
    rw [← List.range_eq_range'] at h
    by_cases h0 : size = 0
    · subst h0
      exact .bottom
    · rw [if_pos (Nat.pos_of_ne_zero h0)] at h
      simpa [fresh, h0] using h
  queueStack := .bottom
  all := by
    have hsize : (fresh size).size = size := Array.size_ofFn
    rw [hsize, List.append_nil, List.append_nil]

namespace Splits

variable {p : SlotPool} {free queue out : List Nat}

theorem nodup (h : p.Splits free queue out) : (free ++ queue ++ out).Nodup :=
  h.all.nodup_iff.mpr List.nodup_range

theorem lt_size (h : p.Splits free queue out) {i : Nat} (hi : i ∈ free ++ queue ++ out) :
    i < p.size := List.mem_range.mp (h.all.mem_iff.mp hi)

theorem nodup_queue (h : p.Splits free queue out) : queue.Nodup :=
  (List.nodup_append.mp (List.nodup_append.mp h.nodup).1).2.1

theorem nodup_out (h : p.Splits free queue out) : out.Nodup := (List.nodup_append.mp h.nodup).2.1

theorem not_mem_of_out (h : p.Splits free queue out) {i : Nat} (hi : i ∈ out) :
    i ∉ free ∧ i ∉ queue := by
  have hd := (List.nodup_append.mp h.nodup).2.2
  exact ⟨fun hf => hd i (List.mem_append_left _ hf) i hi rfl,
    fun hq => hd i (List.mem_append_right _ hq) i hi rfl⟩

theorem not_mem_of_free (h : p.Splits free queue out) {i : Nat} (hi : i ∈ free) : i ∉ queue :=
  fun hq => (List.nodup_append.mp (List.nodup_append.mp h.nodup).1).2.2 i hi i hq rfl

theorem length_le (h : p.Splits free queue out) : queue.length + out.length ≤ p.size := by
  have hlen := h.all.length_eq
  simp only [List.length_append, List.length_range] at hlen
  omega

/-- The slots that are out have no order. -/
theorem perm_out (h : p.Splits free queue out) {out' : List Nat} (hperm : out'.Perm out) :
    p.Splits free queue out' := ⟨h.freeStack, h.queueStack, (hperm.append_left _).trans h.all⟩

theorem queueTop_eq_none_iff (h : p.Splits free queue out) : p.queueTop = none ↔ queue = [] := by
  rw [h.queueStack.top_eq_none_iff, List.reverse_eq_nil_iff]

theorem popFree_eq_none (h : p.Splits [] queue out) : p.popFree = none := by
  simp [SlotPool.popFree, h.freeStack.top_eq_none_iff]

/-- Taking a slot: the one freed last is out. -/
theorem popFree {i : Nat} (h : p.Splits (i :: free) queue out) :
    ∃ q, p.popFree = some (i, q) ∧ q.size = p.size ∧ q.Splits free queue (i :: out) := by
  have hf := h.freeStack
  generalize htop : p.freeTop = top at hf
  cases hf with
  | slot _ _ hi hbelow =>
    refine ⟨{ p with freeTop := p.link i }, ?_, rfl, ?_, ?_, ?_⟩
    · simp [SlotPool.popFree, htop]
    · exact hbelow.congr rfl fun _ _ => rfl
    · exact h.queueStack.congr rfl fun _ _ => rfl
    · refine List.Perm.trans ?_ h.all
      exact List.perm_middle.trans (by simp)

/-- Giving a slot back that is out. -/
theorem pushFree {i : Nat} (h : p.Splits free queue (i :: out)) :
    (p.pushFree i).Splits (i :: free) queue out := by
  obtain ⟨hf, hq⟩ := h.not_mem_of_out List.mem_cons_self
  have hi : i < p.size := h.lt_size (by simp)
  refine ⟨?_, ?_, ?_⟩
  · exact (h.freeStack.push hf hi).congr rfl fun _ _ => rfl
  · exact (h.queueStack.setLink (by simpa using hq) p.freeTop).congr rfl fun _ _ => rfl
  · have hsize : (p.pushFree i).size = p.size := size_setLink ..
    rw [hsize]
    refine List.Perm.trans ?_ h.all
    exact (List.perm_middle.trans (by simp)).symm

/-- Queueing a slot that is out. -/
theorem enqueue {i : Nat} (h : p.Splits free queue (i :: out)) :
    (p.enqueue i).Splits free (queue ++ [i]) out := by
  obtain ⟨hf, hq⟩ := h.not_mem_of_out List.mem_cons_self
  have hi : i < p.size := h.lt_size (by simp)
  refine ⟨?_, ?_, ?_⟩
  · exact (h.freeStack.setLink hf p.queueTop).congr rfl fun _ _ => rfl
  · rw [List.reverse_append]
    exact (h.queueStack.push (by simpa using hq) hi).congr rfl fun _ _ => rfl
  · have hsize : (p.enqueue i).size = p.size := size_setLink ..
    rw [hsize]
    refine List.Perm.trans ?_ h.all
    simp

theorem takeQueue_eq_none (h : p.Splits free [] out) : p.takeQueue = none := by
  simp [SlotPool.takeQueue, h.queueTop_eq_none_iff.mpr rfl]

/-- Taking the queue: its slots come out in the order in which they were queued, and linked so. -/
theorem takeQueue (h : p.Splits free queue out) (hne : queue ≠ []) :
    ∃ q, p.takeQueue = some (queue, q) ∧ q.size = p.size ∧ q.Splits free [] (queue ++ out) ∧
      q.Stack queue.head? queue := by
  cases htop : p.queueTop with
  | none => exact absurd (h.queueTop_eq_none_iff.mp htop) hne
  | some top =>
    have hq := h.queueStack
    rw [htop] at hq
    have hfuel : queue.reverse.length ≤ p.size + 1 := by
      have hlen := h.length_le
      rw [List.length_reverse]
      omega
    have hchain : p.chain p.size top = queue.reverse := hq.chain_eq hfuel
    have hnodup : (queue.reverse ++ []).Nodup := by
      rw [List.append_nil]
      exact (List.reverse_perm queue).nodup_iff.mpr h.nodup_queue
    obtain ⟨hturned, hsame⟩ := hq.turn .bottom hnodup hfuel
    refine ⟨{ p.turn p.size top none with queueTop := none }, ?_, size_turn .., ⟨?_, .bottom, ?_⟩, ?_⟩
    · simp [SlotPool.takeQueue, htop, hchain]
    · have hfree := h.freeStack.congr (size_turn p p.size top none) fun i hi => hsame i fun hqueue =>
        h.not_mem_of_free hi (List.mem_reverse.mp hqueue)
      rw [← freeTop_turn p p.size top none] at hfree
      exact hfree.congr rfl fun _ _ => rfl
    · have hsize : ({ p.turn p.size top none with queueTop := none } : SlotPool).size = p.size := size_turn ..
      rw [hsize, List.append_nil, ← List.append_assoc]
      exact h.all
    · rw [List.append_nil, List.reverse_reverse, List.getLast?_reverse] at hturned
      exact hturned.congr rfl fun _ _ => rfl

end Splits

/-! ### The slots that are out -/

/-- The slots in the queue, the oldest first. -/
def queued (p : SlotPool) : List Nat := (p.takeQueue.map (·.1)).getD []

theorem Splits.queued_eq {p : SlotPool} {free queue out : List Nat} (h : p.Splits free queue out) :
    p.queued = queue := by
  rcases List.eq_nil_or_concat queue with rfl | ⟨l, i, rfl⟩
  · simp [queued, h.takeQueue_eq_none]
  · obtain ⟨q, htake, -⟩ := h.takeQueue (by simp)
    simp [queued, htake]

/-- Exactly these slots are out. -/
def Owned (p : SlotPool) (out : List Nat) : Prop := ∃ free, p.Splits free p.queued out

theorem Splits.owned {p : SlotPool} {free queue out : List Nat} (h : p.Splits free queue out) :
    p.Owned out := ⟨free, h.queued_eq.symm ▸ h⟩

theorem queued_fresh (size : Nat) : (fresh size).queued = [] := (splits_fresh size).queued_eq

theorem owned_fresh (size : Nat) : (fresh size).Owned [] := (splits_fresh size).owned

namespace Owned

variable {p q : SlotPool} {out : List Nat} {i : Nat}

theorem perm (h : p.Owned out) {out' : List Nat} (hperm : out'.Perm out) : p.Owned out' := by
  obtain ⟨free, h⟩ := h
  exact ⟨free, h.perm_out hperm⟩

theorem lt_size (h : p.Owned out) (hi : i ∈ out) : i < p.size := by
  obtain ⟨free, h⟩ := h
  exact h.lt_size (List.mem_append_right _ hi)

theorem nodup (h : p.Owned out) : out.Nodup := by
  obtain ⟨free, h⟩ := h
  exact h.nodup_out

theorem not_mem_queued (h : p.Owned out) (hi : i ∈ out) : i ∉ p.queued := by
  obtain ⟨free, h⟩ := h
  exact (h.not_mem_of_out hi).2

theorem length_le (h : p.Owned out) : p.queued.length + out.length ≤ p.size := by
  obtain ⟨free, h⟩ := h
  exact h.length_le

theorem popFree (h : p.Owned out) (hpop : p.popFree = some (i, q)) :
    q.Owned (i :: out) ∧ q.queued = p.queued ∧ q.size = p.size := by
  obtain ⟨_ | ⟨j, free⟩, h⟩ := h
  · rw [h.popFree_eq_none] at hpop
    cases hpop
  · obtain ⟨q', hpop', hsize, hq⟩ := h.popFree
    rw [hpop'] at hpop
    cases hpop
    exact ⟨hq.owned, hq.queued_eq, hsize⟩

theorem pushFree (h : p.Owned (i :: out)) :
    (p.pushFree i).Owned out ∧ (p.pushFree i).queued = p.queued := by
  obtain ⟨free, h⟩ := h
  exact ⟨h.pushFree.owned, h.pushFree.queued_eq⟩

theorem enqueue (h : p.Owned (i :: out)) :
    (p.enqueue i).Owned out ∧ (p.enqueue i).queued = p.queued ++ [i] := by
  obtain ⟨free, h⟩ := h
  exact ⟨h.enqueue.owned, h.enqueue.queued_eq⟩

theorem takeQueue (h : p.Owned out) {slots : List Nat} (htake : p.takeQueue = some (slots, q)) :
    slots = p.queued ∧ q.Owned (slots ++ out) ∧ q.queued = [] ∧ q.size = p.size := by
  obtain ⟨free, h⟩ := h
  have hne : p.queued ≠ [] := by
    simpa [SlotPool.queued, htake] using takeQueue_ne_nil htake
  obtain ⟨q', htake', hsize, hq, -⟩ := h.takeQueue hne
  rw [htake] at htake'
  cases htake'
  exact ⟨rfl, hq.owned, hq.queued_eq, hsize⟩

/-- The slots taken from the queue are linked in their order. -/
theorem stack_takeQueue (h : p.Owned out) {slots : List Nat} (htake : p.takeQueue = some (slots, q)) :
    q.Stack slots.head? slots := by
  obtain ⟨free, h⟩ := h
  have hne : p.queued ≠ [] := by
    simpa [SlotPool.queued, htake] using takeQueue_ne_nil htake
  obtain ⟨q', htake', -, -, hq⟩ := h.takeQueue hne
  rw [htake] at htake'
  cases htake'
  exact hq

theorem takeQueue_eq_none (h : p.Owned out) (hqueued : p.queued = []) : p.takeQueue = none := by
  obtain ⟨free, h⟩ := h
  rw [hqueued] at h
  exact h.takeQueue_eq_none

end Owned

theorem queued_of_takeQueue_none {p : SlotPool} (h : p.takeQueue = none) : p.queued = [] := by
  simp [queued, h]

end WindowedMetrics.SlotPool
