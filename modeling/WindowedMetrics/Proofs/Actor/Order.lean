import Mathlib.Data.List.Perm.Basic
import WindowedMetrics.Proofs.Actor.Frames
import WindowedMetrics.Proofs.Actor.Ledger
import WindowedMetrics.Proofs.Actor.Pool

/-!
# The order in which actions run

The ledger of an actor shows that slots are run in the order in which they were queued, each once and with
the content it was queued with.

* `Ledger.Sound` holds between any two operations.  It says that what is queued and has not run is what the
  drain under way still has in hand, followed by the queue; `Moment` says what is in hand.
* A drain starts with the whole queue it finds, so what was queued before it has run after it
  (`Ledger.Sound.ran_drain`), whatever its limit is.
* `Extends` says that a ledger goes on with deeds of slots alone: no action but that of a submission itself
  runs as an overflow action.
-/

namespace WindowedMetrics

/-! ### Lists of deeds -/

namespace Deed

variable {A : Type}

/-- The actions queued, in this order. -/
def queuedIn (deeds : List (Deed A)) : List (Nat × A) := deeds.filterMap queued?

/-- The actions run from their slots, in this order. -/
def ranIn (deeds : List (Deed A)) : List (Nat × A) := deeds.filterMap ran?

/-- The actions run as overflow actions, in this order. -/
def overflowsIn (deeds : List (Deed A)) : List (Nat × A) := deeds.filterMap ranOverflow?

/-- The numbers of the actions given back. -/
def droppedIn (deeds : List (Deed A)) : List Nat := deeds.filterMap dropped?

/-- The numbers of the actions that got out of their owners' hands. -/
def partedIn (deeds : List (Deed A)) : List Nat := deeds.filterMap parted?

@[simp] theorem queuedIn_append (ds es : List (Deed A)) :
    queuedIn (ds ++ es) = queuedIn ds ++ queuedIn es := List.filterMap_append

@[simp] theorem ranIn_append (ds es : List (Deed A)) : ranIn (ds ++ es) = ranIn ds ++ ranIn es :=
  List.filterMap_append

@[simp] theorem overflowsIn_append (ds es : List (Deed A)) :
    overflowsIn (ds ++ es) = overflowsIn ds ++ overflowsIn es := List.filterMap_append

@[simp] theorem partedIn_append (ds es : List (Deed A)) :
    partedIn (ds ++ es) = partedIn ds ++ partedIn es := List.filterMap_append

@[simp] theorem queuedIn_singleton (d : Deed A) : queuedIn [d] = d.queued?.toList := by
  cases d <;> rfl

@[simp] theorem ranIn_singleton (d : Deed A) : ranIn [d] = d.ran?.toList := by cases d <;> rfl

@[simp] theorem overflowsIn_singleton (d : Deed A) : overflowsIn [d] = d.ranOverflow?.toList := by
  cases d <;> rfl

@[simp] theorem partedIn_singleton (d : Deed A) : partedIn [d] = d.parted?.toList := by
  cases d <;> rfl

/-- Who got out of his owner's hands was queued, ran as an overflow action, or was given back. -/
theorem partedIn_perm (deeds : List (Deed A)) :
    (partedIn deeds).Perm
      ((queuedIn deeds ++ overflowsIn deeds).map Prod.fst ++ droppedIn deeds) := by
  induction deeds with
  | nil => exact .nil
  | cons d deeds ih =>
    cases d with
    | queued n a => exact ih.cons n
    | ran n a => exact ih
    | ranOverflow n a =>
      refine (ih.cons n).trans ?_
      simp only [List.map_append, List.append_assoc]
      exact List.perm_middle.symm
    | dropped n => exact (ih.cons n).trans List.perm_middle.symm

end Deed

open Deed

/-- The slots that were run are the first ones queued, in their order. -/
def InOrder {A : Type} (deeds : List (Deed A)) : Prop := ranIn deeds <+: queuedIn deeds

namespace Ledger

variable {S A : Type} [Action S A]

/-! ### Ledgers that go on -/

omit [Action S A] in
/-- The deeds go on, and no overflow action is run. -/
def Extends (w v : Ledger S A) : Prop := ∃ more, v.deeds = w.deeds ++ more ∧ overflowsIn more = []

omit [Action S A] in
theorem Extends.refl (w : Ledger S A) : Extends w w := ⟨[], (List.append_nil _).symm, rfl⟩

omit [Action S A] in
theorem Extends.trans {u v w : Ledger S A} (huv : Extends u v) (hvw : Extends v w) : Extends u w := by
  obtain ⟨more, hv, hmore⟩ := huv
  obtain ⟨further, hw, hfurther⟩ := hvw
  refine ⟨more ++ further, ?_, ?_⟩
  · rw [hw, hv, List.append_assoc]
  · rw [overflowsIn_append, hmore, hfurther]
    rfl

/-- The number of the action in a slot, and what the slot holds. -/
def entry (w : Ledger S A) (slot : Nat) : Nat × A := (w.owner slot, w.actor.content slot)

theorem entry_setContent_of_ne (w : Ledger S A) {i j : Nat} (a : A) (h : i ≠ j) :
    (w.setContent i a).entry j = w.entry j :=
  congrArg (Prod.mk (w.owner j)) (w.actor.content_setContent_of_ne a h)

theorem map_entry_eq {w v : Ledger S A} {i : Nat} {slots : List Nat} (hi : i ∉ slots)
    (h : ∀ j, i ≠ j → v.entry j = w.entry j) : slots.map v.entry = slots.map w.entry :=
  List.map_congr_left fun j hj => h j fun hij => hi (hij ▸ hj)

theorem acquire_of_popFree_none {w : Ledger S A} (h : w.actor.pool.popFree = none) :
    w.acquire = (⟨w.issued, .overflow Action.blank⟩,
      { w with actor := { w.actor with overflows := w.actor.overflows + 1 }, issued := w.issued + 1 }) := by
  simp [acquire, Actor.acquire, h]

theorem acquire_of_popFree {w : Ledger S A} {slot : Nat} {pool : SlotPool}
    (h : w.actor.pool.popFree = some (slot, pool)) :
    w.acquire = (⟨w.issued, .slot slot⟩,
      { w with
        actor := { w.actor with pool }
        owner := Function.update w.owner slot w.issued
        issued := w.issued + 1 }) := by
  simp [acquire, Actor.acquire, h]

end Ledger

/-- The slot of an action that has one. -/
def Numbered.slot? {A : Type} (h : Numbered A) : Option Nat :=
  match h.handle with
  | .slot i => some i
  | .overflow _ => none

/-- Where the actions are that are not queued, and what the counters lack. -/
structure Moment (A : Type) where
  /-- The actions in somebody's hands. -/
  held : List (Numbered A)
  /-- The slots that the drain under way has taken from the queue and not run, in their order. -/
  hand : List Nat := []
  /-- The slot that is being run. -/
  running : List Nat := []
  /-- How many overflow actions count as submitted and have not run. -/
  waiting : Nat := 0
  /-- How many actions have run and do not count as executed. -/
  unbooked : Nat := 0

/-- The slots that are neither free nor queued. -/
def Moment.out {A : Type} (m : Moment A) : List Nat :=
  m.hand ++ m.running ++ m.held.filterMap Numbered.slot?

/-- Whoever has been taken is still held, or got out of its owner's hands once. -/
structure Accounted {A : Type} (held : List (Numbered A)) (deeds : List (Deed A)) (issued : Nat) : Prop where
  nodup : (held.map Numbered.number ++ partedIn deeds).Nodup
  lt_issued : ∀ n ∈ held.map Numbered.number ++ partedIn deeds, n < issued

namespace Accounted

variable {A : Type} {held held' : List (Numbered A)} {deeds : List (Deed A)} {issued : Nat}

theorem perm (h : Accounted held deeds issued) (hperm : held'.Perm held) :
    Accounted held' deeds issued := by
  have hnumbers := (hperm.map Numbered.number).append_right (partedIn deeds)
  exact ⟨hnumbers.nodup_iff.mpr h.nodup, fun n hn => h.lt_issued n (hnumbers.mem_iff.mp hn)⟩

theorem take (h : Accounted held deeds issued) (handle : Handle A) :
    Accounted (⟨issued, handle⟩ :: held) deeds (issued + 1) := by
  constructor
  · exact List.nodup_cons.mpr ⟨fun hn => Nat.lt_irrefl _ (h.lt_issued _ hn), h.nodup⟩
  · intro n hn
    rcases List.mem_cons.mp hn with rfl | hn
    · exact Nat.lt_succ_self _
    · exact Nat.lt_succ_of_lt (h.lt_issued n hn)

theorem part {x : Numbered A} (h : Accounted (x :: held) deeds issued) {d : Deed A}
    (hd : d.parted? = some x.number) : Accounted held (deeds ++ [d]) issued := by
  have hnumbers : (held.map Numbered.number ++ partedIn (deeds ++ [d])).Perm
      ((x :: held).map Numbered.number ++ partedIn deeds) := by
    rw [partedIn_append, partedIn_singleton, hd, ← List.append_assoc]
    exact List.perm_append_singleton ..
  exact ⟨hnumbers.nodup_iff.mpr h.nodup, fun n hn => h.lt_issued n (hnumbers.mem_iff.mp hn)⟩

theorem stay (h : Accounted held deeds issued) {d : Deed A} (hd : d.parted? = none) :
    Accounted held (deeds ++ [d]) issued := by
  have hparted : partedIn (deeds ++ [d]) = partedIn deeds := by simp [hd]
  exact ⟨hparted ▸ h.nodup, hparted ▸ h.lt_issued⟩

end Accounted

/-- What holds of an actor and its ledger between any two operations. -/
structure Ledger.Sound {S A : Type} [Action S A] (w : Ledger S A) (m : Moment A) : Prop where
  owned : w.actor.pool.Owned m.out
  backlog : queuedIn w.deeds = ranIn w.deeds ++ (m.hand ++ w.actor.pool.queued).map w.entry
  owners : ∀ h ∈ m.held, ∀ i, h.slot? = some i → w.owner i = h.number
  accounted : Accounted m.held w.deeds w.issued
  inOrder : ∀ past, past <+: w.deeds → InOrder past
  submitted : w.actor.submitted = (queuedIn w.deeds).length + (overflowsIn w.deeds).length + m.waiting
  executed : w.actor.executed + m.unbooked = (ranIn w.deeds).length + (overflowsIn w.deeds).length

namespace Ledger.Sound

variable {S A : Type} [Action S A] {w : Ledger S A} {m : Moment A}

/-! ### Elementary operations -/

/-- Only some parts of the actor matter. -/
theorem of_actor (h : w.Sound m) {x : Actor S A} (hpool : x.pool = w.actor.pool)
    (hcontents : x.contents = w.actor.contents) (hsubmitted : x.submitted = w.actor.submitted)
    (hexecuted : x.executed = w.actor.executed) : ({ w with actor := x } : Ledger S A).Sound m where
  owned := by rw [hpool]; exact h.owned
  backlog := by
    have hentry : ({ w with actor := x } : Ledger S A).entry = w.entry := by
      funext i
      simp [entry, Actor.content, hcontents]
    rw [hpool, hentry]
    exact h.backlog
  owners := h.owners
  accounted := h.accounted
  inOrder := h.inOrder
  submitted := by rw [hsubmitted]; exact h.submitted
  executed := by rw [hexecuted]; exact h.executed

/-- The held actions have no order. -/
theorem perm_held (h : w.Sound m) {held : List (Numbered A)} (hperm : held.Perm m.held) :
    w.Sound { m with held } where
  owned := h.owned.perm ((hperm.filterMap _).append_left _)
  backlog := h.backlog
  owners := fun x hx => h.owners x (hperm.mem_iff.mp hx)
  accounted := h.accounted.perm hperm
  inOrder := h.inOrder
  submitted := h.submitted
  executed := h.executed

/-- A deed written down in time leaves the order of the deeds before it alone. -/
theorem inOrder_concat (h : w.Sound m) {d : Deed A} (hd : InOrder (w.deeds ++ [d])) :
    ∀ past, past <+: w.deeds ++ [d] → InOrder past := by
  intro past hpast
  rcases List.prefix_concat_iff.mp hpast with rfl | hpast
  · exact hd
  · exact h.inOrder past hpast

/-- A slot that is held or being run is not among those still to be run. -/
theorem not_mem_todo (h : w.Sound m) {i : Nat}
    (hi : i ∈ m.running ++ m.held.filterMap Numbered.slot?) : i ∉ m.hand ++ w.actor.pool.queued := by
  have hout : m.out = m.hand ++ (m.running ++ m.held.filterMap Numbered.slot?) := List.append_assoc ..
  have hnodup := hout ▸ h.owned.nodup
  intro hmem
  rcases List.mem_append.mp hmem with hhand | hqueued
  · exact (List.nodup_append.mp hnodup).2.2 i hhand i hi rfl
  · exact h.owned.not_mem_queued (hout ▸ List.mem_append_right _ hi) hqueued

/-- A held action may be looked at first. -/
theorem of_getElem? {held outer : List (Numbered A)} {place : Nat} {x : Numbered A} (h : w.Sound m)
    (hm : m.held = held ++ outer) (hx : held[place]? = some x) :
    w.Sound { m with held := x :: (held.eraseIdx place ++ outer) } := by
  obtain ⟨hlt, rfl⟩ := List.getElem?_eq_some_iff.mp hx
  refine h.perm_held ?_
  rw [hm]
  exact (List.getElem_cons_eraseIdx_perm hlt).append_right outer

/-- Taking an action puts it into somebody's hands. -/
theorem acquire (h : w.Sound m) : w.acquire.2.Sound { m with held := w.acquire.1 :: m.held } := by
  cases hpop : w.actor.pool.popFree with
  | none =>
    rw [acquire_of_popFree_none hpop]
    refine ⟨h.owned, h.backlog, ?_, h.accounted.take _, h.inOrder, h.submitted, h.executed⟩
    intro x hx i hi
    rcases List.mem_cons.mp hx with rfl | hx
    · cases hi
    · exact h.owners x hx i hi
  | some taken =>
    obtain ⟨slot, pool⟩ := taken
    rw [acquire_of_popFree hpop]
    obtain ⟨howned, hqueued, -⟩ := h.owned.popFree hpop
    have hout : slot ∉ m.out := (List.nodup_cons.mp howned.nodup).1
    refine ⟨howned.perm List.perm_middle, ?_, ?_, h.accounted.take _, h.inOrder, h.submitted, h.executed⟩
    · show queuedIn w.deeds = ranIn w.deeds ++ (m.hand ++ pool.queued).map _
      rw [hqueued, h.backlog]
      -- the slot was free, so its new owner is none of those still to be run
      refine congrArg _ (map_entry_eq (i := slot) ?_ fun j hj => ?_).symm
      · intro hmem
        rcases List.mem_append.mp hmem with hhand | hmem
        · exact hout (List.mem_append_left _ (List.mem_append_left _ hhand))
        · exact howned.not_mem_queued List.mem_cons_self (hqueued ▸ hmem)
      · exact congrArg (·, w.actor.content j) (Function.update_of_ne (Ne.symm hj) _ _)
    · intro x hx i hi
      show Function.update w.owner slot w.issued i = x.number
      rcases List.mem_cons.mp hx with rfl | hx
      · cases hi
        exact Function.update_self ..
      · have hi' : i ∈ m.out := List.mem_append_right _ (List.mem_filterMap.mpr ⟨x, hx, hi⟩)
        rw [Function.update_of_ne (by rintro rfl; exact hout hi')]
        exact h.owners x hx i hi

/-- Filling a slot that is held. -/
theorem setContent (h : w.Sound m) {n i : Nat} (hi : ⟨n, .slot i⟩ ∈ m.held) (a : A) :
    (w.setContent i a).Sound m := by
  have hout : i ∈ m.running ++ m.held.filterMap Numbered.slot? :=
    List.mem_append_right _ (List.mem_filterMap.mpr ⟨_, hi, rfl⟩)
  refine ⟨h.owned, ?_, h.owners, h.accounted, h.inOrder, h.submitted, h.executed⟩
  refine h.backlog.trans (congrArg _ ?_)
  exact (map_entry_eq (h.not_mem_todo hout) fun j hj => w.entry_setContent_of_ne a hj).symm

/-- Queueing the slot of an action that is held. -/
theorem schedule {n i : Nat} {held : List (Numbered A)} (h : w.Sound m)
    (hm : m.held = ⟨n, .slot i⟩ :: held) : (w.schedule n i).Sound { m with held } := by
  obtain ⟨d, hd⟩ : ∃ d, d = Deed.queued n (w.actor.content i) := ⟨_, rfl⟩
  have hqueued : queuedIn (w.deeds ++ [d]) = queuedIn w.deeds ++ [w.entry i] := by
    have howner : w.owner i = n := h.owners _ (hm ▸ List.mem_cons_self) i rfl
    simp [hd, queued?, entry, howner]
  have hran : ranIn (w.deeds ++ [d]) = ranIn w.deeds := by simp [hd, ran?]
  have hover : overflowsIn (w.deeds ++ [d]) = overflowsIn w.deeds := by simp [hd, ranOverflow?]
  have hout : (i :: (m.hand ++ m.running ++ held.filterMap Numbered.slot?)).Perm m.out := by
    rw [Moment.out, hm]
    exact List.perm_middle.symm
  obtain ⟨howned, hpool⟩ := (h.owned.perm hout).enqueue
  have hdeeds : (w.schedule n i).deeds = w.deeds ++ [d] := by rw [hd]; rfl
  refine ⟨howned, ?_, fun x hx => h.owners x (hm ▸ List.mem_cons_of_mem _ hx), ?_, ?_, ?_, ?_⟩
  · show _ = _ ++ (m.hand ++ (w.actor.pool.enqueue i).queued).map w.entry
    rw [hdeeds, hpool, hqueued, hran, h.backlog]
    simp
  · rw [hdeeds]
    exact (hm ▸ h.accounted).part (by rw [hd]; rfl)
  · rw [hdeeds]
    refine h.inOrder_concat ?_
    rw [InOrder, hran, hqueued]
    exact (h.inOrder _ (List.prefix_refl _)).trans (List.prefix_append ..)
  · have hsubmitted := h.submitted
    show w.actor.submitted + 1 = _ + m.waiting
    rw [hdeeds, hqueued, hover, List.length_append, List.length_singleton]
    omega
  · rw [hdeeds, hran, hover]
    exact h.executed

/-- Giving a held action back. -/
theorem discard {x : Numbered A} {held : List (Numbered A)} (h : w.Sound m) (hm : m.held = x :: held) :
    (w.discard x).Sound { m with held } := by
  obtain ⟨d, hd⟩ : ∃ d : Deed A, d = .dropped x.number := ⟨_, rfl⟩
  have hqueued : queuedIn (w.deeds ++ [d]) = queuedIn w.deeds := by simp [hd, queued?]
  have hran : ranIn (w.deeds ++ [d]) = ranIn w.deeds := by simp [hd, ran?]
  have hover : overflowsIn (w.deeds ++ [d]) = overflowsIn w.deeds := by simp [hd, ranOverflow?]
  have hdeeds : (w.discard x).deeds = w.deeds ++ [d] := by rw [hd]; rfl
  have howned : (w.discard x).actor.pool.Owned (Moment.out { m with held }) ∧
      (w.discard x).actor.pool.queued = w.actor.pool.queued := by
    have howned := h.owned
    rw [Moment.out, hm] at howned
    obtain ⟨n, i | a⟩ := x
    · exact (howned.perm List.perm_middle.symm).pushFree
    · exact ⟨howned, rfl⟩
  have hframe : (w.discard x).entry = w.entry ∧
      (w.discard x).actor.submitted = w.actor.submitted ∧
      (w.discard x).actor.executed = w.actor.executed := by
    obtain ⟨n, i | a⟩ := x <;> exact ⟨rfl, rfl, rfl⟩
  refine ⟨howned.1, ?_, fun y hy => h.owners y (hm ▸ List.mem_cons_of_mem _ hy), ?_, ?_, ?_, ?_⟩
  · rw [hdeeds, howned.2, hqueued, hran, hframe.1]
    exact h.backlog
  · rw [hdeeds]
    exact (hm ▸ h.accounted).part (by rw [hd]; rfl)
  · rw [hdeeds]
    refine h.inOrder_concat ?_
    rw [InOrder, hran, hqueued]
    exact h.inOrder _ (List.prefix_refl _)
  · rw [hdeeds, hqueued, hover, hframe.2.1]
    exact h.submitted
  · rw [hdeeds, hran, hover, hframe.2.2]
    exact h.executed

/-! ### Running slots -/

/-- Taking the whole queue into one's hand. -/
theorem takeQueue (h : w.Sound m) (hm : m.hand = []) {slots : List Nat} {pool : SlotPool}
    (htake : w.actor.pool.takeQueue = some (slots, pool)) :
    ({ w with actor := { w.actor with pool } } : Ledger S A).Sound { m with hand := slots } := by
  obtain ⟨rfl, howned, hpool, -⟩ := h.owned.takeQueue htake
  refine ⟨?_, ?_, h.owners, h.accounted, h.inOrder, h.submitted, h.executed⟩
  · rw [Moment.out, hm, List.nil_append] at howned
    rw [Moment.out, List.append_assoc]
    exact howned
  · show queuedIn w.deeds = ranIn w.deeds ++ (w.actor.pool.queued ++ pool.queued).map w.entry
    rw [hpool, List.append_nil, h.backlog, hm]
    rfl

/-- Beginning to run the next slot in one's hand. -/
theorem begin {slot : Nat} {rest : List Nat} (h : w.Sound m) (hhand : m.hand = slot :: rest)
    (hrunning : m.running = []) :
    (w.note (.ran (w.owner slot) (w.actor.content slot))).Sound
      { m with hand := rest, running := [slot], unbooked := m.unbooked + 1 } := by
  obtain ⟨d, hd⟩ : ∃ d, d = Deed.ran (w.owner slot) (w.actor.content slot) := ⟨_, rfl⟩
  have hqueued : queuedIn (w.deeds ++ [d]) = queuedIn w.deeds := by simp [hd, queued?]
  have hran : ranIn (w.deeds ++ [d]) = ranIn w.deeds ++ [w.entry slot] := by simp [hd, ran?, entry]
  have hover : overflowsIn (w.deeds ++ [d]) = overflowsIn w.deeds := by simp [hd, ranOverflow?]
  have hbacklog : queuedIn (w.deeds ++ [d]) =
      ranIn (w.deeds ++ [d]) ++ (rest ++ w.actor.pool.queued).map w.entry := by
    rw [hqueued, hran, h.backlog, hhand]
    simp
  rw [← hd]
  refine ⟨h.owned.perm ?_, hbacklog, h.owners, h.accounted.stay (by rw [hd]; rfl),
    h.inOrder_concat ?_, ?_, ?_⟩
  · show (rest ++ [slot] ++ m.held.filterMap Numbered.slot?).Perm (m.hand ++ m.running ++ _)
    rw [hhand, hrunning, List.append_nil, List.append_assoc]
    exact List.perm_middle
  · rw [InOrder, hbacklog]
    exact List.prefix_append ..
  · show w.actor.submitted = (queuedIn (w.deeds ++ [d])).length + (overflowsIn (w.deeds ++ [d])).length + _
    rw [hqueued, hover]
    exact h.submitted
  · have hexecuted := h.executed
    show w.actor.executed + (m.unbooked + 1) =
      (ranIn (w.deeds ++ [d])).length + (overflowsIn (w.deeds ++ [d])).length
    rw [hran, hover, List.length_append, List.length_singleton]
    omega

/-- The slot that has been run is free again. -/
theorem recycle {slot : Nat} (h : w.Sound m) (hrunning : m.running = [slot]) (spent : A) :
    (w.recycle slot spent).Sound { m with running := [] } := by
  have hrun : slot ∈ m.running ++ m.held.filterMap Numbered.slot? := by simp [hrunning]
  have hout : (slot :: (m.hand ++ [] ++ m.held.filterMap Numbered.slot?)).Perm m.out := by
    rw [Moment.out, hrunning, List.append_nil, List.append_assoc]
    exact List.perm_middle.symm
  obtain ⟨howned, hpool⟩ := (h.owned.perm hout).pushFree
  refine ⟨howned, ?_, h.owners, h.accounted, h.inOrder, h.submitted, h.executed⟩
  show queuedIn w.deeds =
    ranIn w.deeds ++ (m.hand ++ (w.actor.pool.pushFree slot).queued).map (w.recycle slot spent).entry
  rw [hpool, h.backlog]
  refine congrArg _ ?_
  exact (map_entry_eq (h.not_mem_todo hrun) fun j hj => w.entry_setContent_of_ne spent hj).symm

/-- Everything a script still holds is given back at its end. -/
theorem foldl_discard {held outer : List (Numbered A)} (h : w.Sound m) (hm : m.held = held ++ outer) :
    (held.foldl Ledger.discard w).Sound { m with held := outer } := by
  induction held generalizing w m with
  | nil =>
    obtain ⟨held, hand, running, waiting, unbooked⟩ := m
    cases hm
    exact h
  | cons x held ih => exact ih (m := { m with held := held ++ outer }) (h.discard hm) rfl

/-- A script leaves what others hold alone, and gives back or queues what it took. -/
theorem runScript (s : Script S A) {held outer : List (Numbered A)} (h : w.Sound m)
    (hm : m.held = held ++ outer) : (runScript s held w).Sound { m with held := outer } := by
  induction s generalizing held w m with
  | done => exact h.foldl_discard hm
  | edit change next ih => exact ih (h.of_actor rfl rfl rfl rfl) hm
  | inspect next ih => exact ih w.actor.state h hm
  | acquire next ih =>
    refine ih _ (m := { m with held := w.acquire.1 :: m.held }) h.acquire ?_
    exact congrArg (List.cons w.acquire.1) hm
  | submit place a next ih =>
    unfold Ledger.runScript
    cases hx : held[place]? with
    | none =>
      rw [List.eraseIdx_of_length_le (List.getElem?_eq_none_iff.mp hx)]
      exact ih h hm
    | some x =>
      have hheld := h.of_getElem? hm hx
      obtain ⟨n, i | content⟩ := x
      · have hqueued := (hheld.setContent List.mem_cons_self a).schedule rfl
        exact ih (m := { m with held := held.eraseIdx place ++ outer }) hqueued rfl
      · have hdropped := hheld.discard rfl
        exact ih (m := { m with held := held.eraseIdx place ++ outer }) hdropped rfl
  | discard place next ih =>
    unfold Ledger.runScript
    cases hx : held[place]? with
    | none => exact ih h hm
    | some x =>
      have hdropped := (h.of_getElem? hm hx).discard rfl
      exact ih (m := { m with held := held.eraseIdx place ++ outer }) hdropped rfl

variable {held : List (Numbered A)} {waiting ran : Nat}

/-- Running the next slot in one's hand. -/
theorem runSlot {slot : Nat} {rest : List Nat}
    (h : w.Sound { held, hand := slot :: rest, waiting, unbooked := ran }) :
    (w.runSlot slot).Sound { held, hand := rest, waiting, unbooked := ran + 1 } :=
  ((h.begin rfl rfl).runScript _ (List.nil_append _).symm).recycle rfl _

/-- Running all slots in one's hand. -/
theorem runSlots {slots : List Nat} (h : w.Sound { held, hand := slots, waiting, unbooked := ran }) :
    (w.runSlots slots).Sound { held, waiting, unbooked := ran + slots.length } := by
  induction slots generalizing w ran with
  | nil => exact h
  | cons slot slots ih =>
    rw [List.length_cons, Nat.add_comm slots.length, ← Nat.add_assoc]
    exact ih h.runSlot

/-! ### Draining -/

/-- The end of a drain books what it ran. -/
theorem endDrain (h : w.Sound { held, waiting, unbooked := ran }) (limit : Nat) :
    (w.endDrain limit ran).2.Sound { held, waiting } :=
  ⟨h.owned, h.backlog, h.owners, h.accounted, h.inOrder, h.submitted, h.executed⟩

theorem drain (h : w.Sound { held, waiting, unbooked := ran }) (limit : Nat) :
    (w.drain limit ran).2.Sound { held, waiting } := by
  induction hfuel : limit - ran using Nat.strongRecOn generalizing w ran with
  | _ fuel ih =>
    subst hfuel
    cases hq : w.actor.pool.takeQueue with
    | none =>
      rw [drain_of_takeQueue_none hq]
      exact h.endDrain limit
    | some taken =>
      obtain ⟨slots, pool⟩ := taken
      have hpos := List.length_pos_iff.2 (SlotPool.takeQueue_ne_nil hq)
      have hslots := (h.takeQueue rfl hq).runSlots
      rw [drain_of_takeQueue_some hq]
      dsimp only
      split
      · exact hslots.endDrain limit
      · exact ih _ (by omega) hslots rfl

theorem release (h : w.Sound m) (capped : Bool) : (w.release capped).Sound m := by
  cases capped <;> exact h.of_actor rfl rfl rfl rfl

theorem drainAndRelease (h : w.Sound { held, waiting }) : w.drainAndRelease.Sound { held, waiting } :=
  (h.drain w.actor.batchSize).release _

/-! ### Submissions -/

/-- An overflow action that is submitted counts as such. -/
theorem count (h : w.Sound m) :
    ({ w with actor := { w.actor with submitted := w.actor.submitted + 1 } } : Ledger S A).Sound
      { m with waiting := m.waiting + 1 } :=
  ⟨h.owned, h.backlog, h.owners, h.accounted, h.inOrder, congrArg (· + 1) h.submitted, h.executed⟩

/-- Beginning to run an overflow action that counts as submitted. -/
theorem beginOverflow {n : Nat} {a : A}
    (h : w.Sound { held := ⟨n, .overflow a⟩ :: held, waiting := waiting + 1 }) :
    (w.note (.ranOverflow n a)).Sound { held, waiting, unbooked := 1 } := by
  obtain ⟨d, hd⟩ : ∃ d, d = Deed.ranOverflow n a := ⟨_, rfl⟩
  have hqueued : queuedIn (w.deeds ++ [d]) = queuedIn w.deeds := by simp [hd, queued?]
  have hran : ranIn (w.deeds ++ [d]) = ranIn w.deeds := by simp [hd, ran?]
  have hover : overflowsIn (w.deeds ++ [d]) = overflowsIn w.deeds ++ [(n, a)] := by
    simp [hd, ranOverflow?]
  have hsubmitted : w.actor.submitted = _ + _ + (waiting + 1) := h.submitted
  have hexecuted := h.executed
  rw [← hd]
  refine ⟨h.owned, ?_, fun x hx => h.owners x (List.mem_cons_of_mem _ hx),
    h.accounted.part (by rw [hd]; rfl), h.inOrder_concat ?_, ?_, ?_⟩
  · show queuedIn (w.deeds ++ [d]) = ranIn (w.deeds ++ [d]) ++ _
    rw [hqueued, hran]
    exact h.backlog
  · rw [InOrder, hqueued, hran]
    exact h.inOrder _ (List.prefix_refl _)
  · show w.actor.submitted =
      (queuedIn (w.deeds ++ [d])).length + (overflowsIn (w.deeds ++ [d])).length + waiting
    rw [hqueued, hover, List.length_append, List.length_singleton, hsubmitted]
    omega
  · show w.actor.executed + 1 = (ranIn (w.deeds ++ [d])).length + (overflowsIn (w.deeds ++ [d])).length
    rw [hran, hover, List.length_append, ← Nat.add_assoc]
    exact congrArg (· + 1) hexecuted

theorem runOverflow {n : Nat} {a : A} (h : w.Sound { held := ⟨n, .overflow a⟩ :: held, waiting := 1 }) :
    (w.runOverflow n a).Sound { held } := by
  have hrun := h.beginOverflow.runScript (Action.script a) (List.nil_append _).symm
  let ran := Ledger.runScript (Action.script a) [] (w.note (.ranOverflow n a))
  have hcounted : ({ ran with actor := { ran.actor with executed := ran.actor.executed + 1 } } :
      Ledger S A).Sound { held } :=
    ⟨hrun.owned, hrun.backlog, hrun.owners, hrun.accounted, hrun.inOrder, hrun.submitted, hrun.executed⟩
  exact hcounted.drainAndRelease

theorem submit {x : Numbered A} (h : w.Sound { held := x :: held }) : (w.submit x).Sound { held } := by
  obtain ⟨n, i | a⟩ := x
  · have hqueued := h.schedule rfl
    unfold Ledger.submit
    dsimp only
    split
    · exact hqueued
    · exact drainAndRelease (hqueued.of_actor rfl rfl rfl rfl)
  · have hcounted : ({ w with actor := { w.actor with locked := true, submitted := w.actor.submitted + 1 } } :
        Ledger S A).Sound { held := ⟨n, .overflow a⟩ :: held, waiting := 1 } := h.count.of_actor rfl rfl rfl rfl
    exact (hcounted.drain maxWord).runOverflow

theorem enter (h : w.Sound { held }) : w.enter.Sound { held } :=
  drain (w := { w with actor := { w.actor with locked := true } }) (h.of_actor rfl rfl rfl rfl) maxWord

/-- A held action may get another handle for the same slot, or for none. -/
theorem rehandle {x y : Numbered A} {held : List (Numbered A)} (h : w.Sound m) (hm : m.held = x :: held)
    (hnumber : y.number = x.number) (hslot : y.slot? = x.slot?) : w.Sound { m with held := y :: held } := by
  have hnumbers : (y :: held).map Numbered.number = m.held.map Numbered.number := by
    rw [hm, List.map_cons, hnumber, List.map_cons]
  have hout : (y :: held).filterMap Numbered.slot? = m.held.filterMap Numbered.slot? := by
    rw [hm, List.filterMap_cons, List.filterMap_cons, hslot]
  refine ⟨?_, h.backlog, ?_, ⟨?_, ?_⟩, h.inOrder, h.submitted, h.executed⟩
  · have howned := h.owned
    rw [Moment.out, ← hout] at howned
    exact howned
  · intro z hz i hi
    rcases List.mem_cons.mp hz with rfl | hz
    · rw [hnumber]
      exact h.owners x (hm ▸ List.mem_cons_self) i (hslot ▸ hi)
    · exact h.owners z (hm ▸ List.mem_cons_of_mem _ hz) i hi
  · rw [hnumbers]
    exact h.accounted.nodup
  · rw [hnumbers]
    exact h.accounted.lt_issued

end Ledger.Sound

end WindowedMetrics
