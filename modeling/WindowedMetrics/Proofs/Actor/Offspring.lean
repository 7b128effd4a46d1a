import Mathlib.Data.Set.Card
import Mathlib.Data.Set.Finite.Lattice
import Mathlib.Logic.Relation
import WindowedMetrics.Proofs.Actor.Contents
import WindowedMetrics.Proofs.Actor.Rounds

/-!
# Trees of submissions

An action that is run may submit others, these may submit others again, and so on.  `Ledger.tree` is what an
action and its offspring come to if the queue is run round after round; the ledger tells it, as whatever a
running action queues is written down after its beginning and before that of the next one (`Deed.Begets`).

* What runs in the rounds is in the tree of an action that was in the queue (`Ledger.Sound.mem_brood`), and runs
  once; so no more runs than these trees have members (`Ledger.Sound.length_ran_le`).
* `Ledger.Sound.finite_tree`: if whoever submits somebody has the longer way to the end, trees are finite.
-/

namespace WindowedMetrics

open Deed Relation

variable {S A : Type}

/-! ### What actions submit -/

/-- What a script may submit. -/
inductive Script.Submits : Script S A → A → Prop where
  | here {place : Nat} {a : A} {next : Script S A} : Submits (.submit place a next) a
  | submit {place : Nat} {a b : A} {next : Script S A} : next.Submits b → Submits (.submit place a next) b
  | edit {change : S → S} {b : A} {next : Script S A} : next.Submits b → Submits (.edit change next) b
  | inspect {s : S} {b : A} {next : S → Script S A} : (next s).Submits b → Submits (.inspect next) b
  | acquire {overflow : Bool} {b : A} {next : Bool → Script S A} :
    (next overflow).Submits b → Submits (.acquire next) b
  | discard {place : Nat} {b : A} {next : Script S A} : next.Submits b → Submits (.discard place next) b

/-- Running the second action may submit the first one. -/
def SubmittedBy [Action S A] (b a : A) : Prop := (Action.script a).Submits b

namespace Deed

/-- The action with the second number was queued while the one with the first number was the one run last. -/
def Begets (deeds : List (Deed A)) (n m : Nat) : Prop :=
  ∃ past a b more, deeds = past ++ .queued m b :: more ∧ (ranIn past).getLast? = some (n, a)

/-- Whatever was queued was submitted by the action begun last. -/
def Tended [Action S A] (deeds : List (Deed A)) : Prop :=
  ∀ past m b more, deeds = past ++ .queued m b :: more →
    ∃ n a, (ranIn past).getLast? = some (n, a) ∧ SubmittedBy b a

theorem tended_nil [Action S A] : Tended ([] : List (Deed A)) := by
  intro past m b more h
  simp at h

variable {deeds more : List (Deed A)}

/-- What is queued at some place of two lists of deeds. -/
theorem append_eq_append_queued {past rest : List (Deed A)} {m : Nat} {b : A}
    (h : deeds ++ more = past ++ .queued m b :: rest) :
    (∃ later, deeds = past ++ .queued m b :: later) ∨
      ∃ before, past = deeds ++ before ∧ more = before ++ .queued m b :: rest := by
  rcases List.append_eq_append_iff.mp h with ⟨before, hpast, hmore⟩ | ⟨_ | ⟨d, later⟩, hdeeds, hrest⟩
  · exact .inr ⟨before, hpast, hmore⟩
  · exact .inr ⟨[], by simpa using hdeeds.symm, by simpa using hrest.symm⟩
  · obtain ⟨rfl, -⟩ := List.cons.inj hrest
    exact .inl ⟨later, hdeeds⟩

theorem Tended.append [Action S A] (h : Tended deeds) (h' : Tended more) : Tended (deeds ++ more) := by
  intro past m b rest hsplit
  rcases append_eq_append_queued hsplit with ⟨later, hdeeds⟩ | ⟨before, rfl, hmore⟩
  · exact h past m b later hdeeds
  · obtain ⟨n, a, hlast, hby⟩ := h' before m b rest hmore
    exact ⟨n, a, by rw [ranIn_append, List.getLast?_append, hlast]; rfl, hby⟩

end Deed

variable [Action S A]

namespace Ledger

/-! ### Deeds of a round -/

/-- The ledger goes on with the submissions of actions that are run. -/
def Tends (w v : Ledger S A) : Prop := ∃ more, v.deeds = w.deeds ++ more ∧ Tended more

theorem Tends.refl (w : Ledger S A) : w.Tends w := ⟨[], (List.append_nil _).symm, tended_nil⟩

theorem Tends.trans {u v w : Ledger S A} (huv : u.Tends v) (hvw : v.Tends w) : u.Tends w := by
  obtain ⟨more, hv, hmore⟩ := huv
  obtain ⟨further, hw, hfurther⟩ := hvw
  exact ⟨more ++ further, by rw [hw, hv, List.append_assoc], hmore.append hfurther⟩

theorem size_contents_runSlot (w : Ledger S A) (slot : Nat) :
    (w.runSlot slot).actor.contents.size = w.actor.contents.size :=
  Array.size_setIfInBounds.trans
    (eq_runScript (f := fun w => w.actor.contents.size) size_contents_stepScript _ _ _)

theorem Filled.runSlot {w : Ledger S A} (h : w.Filled) (slot : Nat) : (w.runSlot slot).Filled :=
  (w.size_contents_runSlot slot).trans (h.trans (of_frame_eq (w.frame_runSlots [slot])).1.symm)

theorem Filled.runSlots {w : Ledger S A} (h : w.Filled) (slots : List Nat) : (w.runSlots slots).Filled := by
  induction slots generalizing w with
  | nil => exact h
  | cons slot slots ih => exact ih (h.runSlot slot)

omit [Action S A] in
theorem Filled.takeQueue {w : Ledger S A} (h : w.Filled) {slots : List Nat} {pool : SlotPool}
    (hq : w.actor.pool.takeQueue = some (slots, pool)) :
    ({ w with actor := { w.actor with pool } } : Ledger S A).Filled := by
  obtain ⟨top, -, he⟩ := Option.map_eq_some_iff.mp hq
  cases he
  exact h.trans (SlotPool.size_turn ..).symm

theorem Filled.round {w : Ledger S A} (h : w.Filled) : w.round.Filled := by
  cases hq : w.actor.pool.takeQueue with
  | none => exact (round_of_takeQueue_none hq).symm ▸ h
  | some taken =>
    obtain ⟨slots, pool⟩ := taken
    rw [round_of_takeQueue_some hq]
    exact (h.takeQueue hq).runSlots slots

theorem Filled.rounds {w : Ledger S A} (h : w.Filled) (n : Nat) : (w.rounds n).Filled := by
  induction n generalizing w with
  | zero => exact h
  | succ n ih => exact ih h.round

/-- What the rest of a script submits, the script submits. -/
theorem submits_of_stepScript {w : Ledger S A} {script : Script S A} {held : List (Numbered A)} {b : A}
    (h : (w.stepScript script held).1.Submits b) : script.Submits b := by
  cases script with
  | done => cases held <;> exact h
  | edit => exact .edit h
  | inspect => exact .inspect h
  | acquire => exact .acquire h
  | submit place a next =>
    refine .submit ?_
    rcases hx : held[place]? with _ | ⟨n, i | content⟩ <;> simp only [stepScript, hx] at h <;> exact h
  | discard place next =>
    refine .discard ?_
    cases hx : held[place]? <;> simp only [stepScript, hx] at h <;> exact h

namespace Sound

variable {w : Ledger S A} {m : Moment A}

/-- What a step of an action writes down. -/
theorem deeds_stepScript {script : Script S A} {held outer : List (Numbered A)} (h : w.Sound m)
    (hm : m.held = held ++ outer) (hfilled : w.Filled) :
    ∃ more, (w.stepScript script held).2.2.deeds = w.deeds ++ more ∧
      ∀ p ∈ queuedIn more, script.Submits p.2 := by
  have hsame : ∀ {v : Ledger S A} {P : A → Prop}, v.deeds = w.deeds →
      ∃ more, v.deeds = w.deeds ++ more ∧ ∀ p ∈ queuedIn more, P p.2 :=
    fun hv => ⟨[], by rw [hv, List.append_nil], nofun⟩
  have hdropped : ∀ {n : Nat} {v : Ledger S A} {P : A → Prop}, v.deeds = w.deeds ++ [.dropped n] →
      ∃ more, v.deeds = w.deeds ++ more ∧ ∀ p ∈ queuedIn more, P p.2 := fun hv => ⟨_, hv, nofun⟩
  cases script with
  | done =>
    cases held with
    | nil => exact hsame rfl
    | cons x held => exact hdropped rfl
  | edit | inspect | acquire => exact hsame rfl
  | submit place a next =>
    rcases hx : held[place]? with _ | ⟨n, i | content⟩ <;> simp only [Ledger.stepScript, hx]
    · exact hsame rfl
    · refine ⟨[.queued n a], h.deeds_submit hm hfilled hx a, fun p hp => ?_⟩
      obtain rfl := List.mem_singleton.mp hp
      exact .here
    · exact hdropped rfl
  | discard place next =>
    cases hx : held[place]? with
    | none =>
      simp only [Ledger.stepScript, hx]
      exact hsame rfl
    | some x =>
      simp only [Ledger.stepScript, hx]
      exact hdropped rfl

/-- What an action writes down that runs. -/
theorem deeds_runScript {outer : List (Numbered A)} (script : Script S A) (held : List (Numbered A))
    (w : Ledger S A) : ∀ m : Moment A, w.Sound m → m.held = held ++ outer → w.Filled →
      ∃ more, (w.runScript script held).deeds = w.deeds ++ more ∧ ∀ p ∈ queuedIn more, script.Submits p.2 := by
  refine induction_stepScript (P := fun script held w => ∀ m : Moment A, w.Sound m → m.held = held ++ outer →
    w.Filled → ∃ more, (w.runScript script held).deeds = w.deeds ++ more ∧
      ∀ p ∈ queuedIn more, script.Submits p.2) ?_ ?_ script held w
  · exact fun w m _ _ _ => ⟨[], (List.append_nil _).symm, nofun⟩
  · intro script held w _ ih m h hm hfilled
    obtain ⟨first, hfirst, hsubmits⟩ : ∃ first, (w.stepScript script held).2.2.deeds = w.deeds ++ first ∧
      ∀ p ∈ queuedIn first, script.Submits p.2 := h.deeds_stepScript hm hfilled
    obtain ⟨more, hmore, hrest⟩ := ih _ (h.stepScript hm) rfl (hfilled.stepScript script held)
    rw [runScript_step] at hmore
    refine ⟨first ++ more, by rw [hmore, hfirst, List.append_assoc], fun p hp => ?_⟩
    rw [queuedIn_append] at hp
    rcases List.mem_append.mp hp with hp | hp
    · exact hsubmits p hp
    · exact submits_of_stepScript (hrest p hp)

variable {held : List (Numbered A)} {waiting ran : Nat}

/-- The slot that is run is begun before all that it queues. -/
theorem tends_runSlot {slot : Nat} {rest : List Nat}
    (h : w.Sound { held, hand := slot :: rest, waiting, unbooked := ran }) (hfilled : w.Filled) :
    w.Tends (w.runSlot slot) := by
  have hran := w.ranIn_runSlot slot
  obtain ⟨more, hmore, hsubmits⟩ := deeds_runScript (Action.script (w.actor.content slot)) []
    (w.note (.ran (w.owner slot) (w.actor.content slot))) _ (h.begin rfl rfl) (List.nil_append _).symm hfilled
  have hdeeds : (w.runSlot slot).deeds =
      w.deeds ++ .ran (w.owner slot) (w.actor.content slot) :: more := by
    refine hmore.trans ?_
    rw [note, List.append_assoc]
    rfl
  have hnone : ranIn more = [] := by
    rw [hdeeds, ranIn_append] at hran
    exact (List.cons.inj (List.append_cancel_left hran)).2
  refine ⟨_, hdeeds, fun past n b later hsplit => ?_⟩
  rcases past with _ | ⟨d, past⟩
  · cases hsplit
  obtain ⟨rfl, rfl : more = past ++ .queued n b :: later⟩ := List.cons.inj hsplit
  refine ⟨w.owner slot, w.actor.content slot, ?_, hsubmits (n, b) ?_⟩
  · rw [ranIn_append] at hnone
    show (w.entry slot :: ranIn past).getLast? = _
    rw [(List.append_eq_nil_iff.mp hnone).1]
    rfl
  · rw [queuedIn_append]
    exact List.mem_append_right _ List.mem_cons_self

theorem tends_runSlots {slots : List Nat} (h : w.Sound { held, hand := slots, waiting, unbooked := ran })
    (hfilled : w.Filled) : w.Tends (w.runSlots slots) := by
  induction slots generalizing w ran with
  | nil => exact .refl w
  | cons slot slots ih => exact (h.tends_runSlot hfilled).trans (ih h.runSlot (hfilled.runSlot slot))

theorem tends_rounds (h : w.Sound { held, waiting, unbooked := ran }) (hfilled : w.Filled) (n : Nat) :
    w.Tends (w.rounds n) := by
  induction n generalizing w ran with
  | zero => exact .refl w
  | succ n ih =>
    obtain ⟨ran', hround⟩ := h.round
    refine .trans ?_ (ih hround hfilled.round)
    cases hq : w.actor.pool.takeQueue with
    | none =>
      rw [round_of_takeQueue_none hq]
      exact .refl w
    | some taken =>
      obtain ⟨slots, pool⟩ := taken
      rw [round_of_takeQueue_some hq]
      exact (h.takeQueue rfl hq).tends_runSlots (hfilled.takeQueue hq)

theorem rounds (h : w.Sound { held, waiting, unbooked := ran }) (n : Nat) :
    ∃ ran', (w.rounds n).Sound { held, waiting, unbooked := ran' } := by
  induction n generalizing w ran with
  | zero => exact ⟨ran, h⟩
  | succ n ih =>
    obtain ⟨ran', hround⟩ := h.round
    exact ih hround

end Sound

/-! ### Trees -/

/-- What is queued and has not run. -/
def backlog (w : Ledger S A) : List (Nat × A) := w.actor.pool.queued.map w.entry

/-- If the queue is run round after round, one action is submitted by another one. -/
def Begets (w : Ledger S A) (n m : Nat) : Prop :=
  ∃ k more, (w.rounds k).deeds = w.deeds ++ more ∧ Deed.Begets more n m

/-- An action and all that are submitted because of it. -/
def tree (w : Ledger S A) (n : Nat) : Set Nat := {m | ReflTransGen w.Begets n m}

/-- The actions queued, and all that are submitted because of them. -/
def brood (w : Ledger S A) : Set Nat := ⋃ n ∈ w.backlog.map Prod.fst, w.tree n

theorem finite_brood {w : Ledger S A} (h : ∀ p ∈ w.backlog, (w.tree p.1).Finite) : w.brood.Finite := by
  refine Set.Finite.biUnion (List.finite_toSet (w.backlog.map Prod.fst)) fun n hn => ?_
  obtain ⟨p, hp, rfl⟩ := List.mem_map.mp hn
  exact h p hp

namespace Sound

variable {w : Ledger S A} {held : List (Numbered A)} {waiting ran k : Nat} {more past : List (Deed A)}

theorem queuedIn_eq (h : w.Sound { held, waiting, unbooked := ran }) :
    queuedIn w.deeds = ranIn w.deeds ++ w.backlog := h.backlog

/-- The actions that run in some rounds were in the queue before them, or queued in them before. -/
theorem mem_queued_of_ran (h : w.Sound { held, waiting, unbooked := ran })
    (hmore : (w.rounds k).deeds = w.deeds ++ more) (hpast : past <+: more) {p : Nat × A} (hp : p ∈ ranIn past) :
    p ∈ w.backlog ++ queuedIn past := by
  obtain ⟨ran', hrounds⟩ := h.rounds k
  have horder := hrounds.inOrder (w.deeds ++ past) (hmore ▸ (List.prefix_append_right_inj _).mpr hpast)
  rw [InOrder, ranIn_append, queuedIn_append, h.queuedIn_eq, List.append_assoc,
    List.prefix_append_right_inj] at horder
  exact horder.subset hp

/-- **Whatever is queued or run in some rounds** belongs to the tree of an action that was in the queue. -/
theorem mem_brood (h : w.Sound { held, waiting, unbooked := ran }) (hfilled : w.Filled)
    (hmore : (w.rounds k).deeds = w.deeds ++ more) (hpast : past <+: more) :
    ∀ p ∈ ranIn past ++ queuedIn past, p.1 ∈ w.brood := by
  have hroot : ∀ p ∈ w.backlog, p.1 ∈ w.brood := fun p hp =>
    Set.mem_biUnion (List.mem_map_of_mem hp) ReflTransGen.refl
  have htended : Tended more := by
    obtain ⟨more', hmore', htended⟩ := h.tends_rounds hfilled k
    obtain rfl := List.append_cancel_left (hmore.symm.trans hmore')
    exact htended
  -- along the deeds: whoever begins was queued before, and whoever is queued has a parent that began before
  induction past using List.reverseRecOn with
  | nil => nofun
  | append_singleton past d ih =>
    have hbefore : past <+: more := (List.prefix_append past [d]).trans hpast
    have hold := ih hbefore
    have hqueued : ∀ p ∈ queuedIn (past ++ [d]), p.1 ∈ w.brood := by
      intro p hp
      rw [queuedIn_append] at hp
      rcases List.mem_append.mp hp with hp | hp
      · exact hold p (List.mem_append_right _ hp)
      cases d with
      | queued m b =>
        obtain rfl : p = (m, b) := by simpa [queued?] using hp
        obtain ⟨later, hlater⟩ := hpast
        rw [List.append_assoc] at hlater
        obtain ⟨n, a, hlast, -⟩ := htended past m b later hlater.symm
        have hparent := hold (n, a) (List.mem_append_left _ (List.mem_of_getLast? hlast))
        obtain ⟨root, hroot, hn⟩ := Set.mem_iUnion₂.mp hparent
        exact Set.mem_biUnion hroot (ReflTransGen.tail hn ⟨k, more, hmore, past, a, b, later, hlater.symm, hlast⟩)
      | ran | ranOverflow | dropped => simp [queued?] at hp
    intro p hp
    rcases List.mem_append.mp hp with hp | hp
    · rcases List.mem_append.mp (h.mem_queued_of_ran hmore hpast hp) with hp | hp
      · exact hroot p hp
      · exact hqueued p hp
    · exact hqueued p hp

/-- No action is queued twice. -/
theorem nodup_queued {m : Moment A} (h : w.Sound m) : ((queuedIn w.deeds).map Prod.fst).Nodup := by
  have hall := h.nodup_entered
  rw [entered, List.map_append] at hall
  exact (List.nodup_append.mp hall).1

/-- No action runs twice. -/
theorem nodup_ran {m : Moment A} (h : w.Sound m) : ((ranIn w.deeds).map Prod.fst).Nodup :=
  ((h.inOrder _ (List.prefix_refl _)).sublist.map _).nodup h.nodup_queued

/-- **No more actions run than their trees have members.** -/
theorem length_ran_le (h : w.Sound { held, waiting, unbooked := ran }) (hfilled : w.Filled)
    (hfinite : w.brood.Finite) (k : Nat) :
    (ranIn (w.rounds k).deeds).length ≤ (ranIn w.deeds).length + w.brood.ncard := by
  obtain ⟨more, hmore, -⟩ := h.tends_rounds hfilled k
  obtain ⟨ran', hrounds⟩ := h.rounds k
  have hnodup := hrounds.nodup_ran
  rw [hmore, ranIn_append, List.map_append] at hnodup
  have hsubset : (((ranIn more).map Prod.fst).toFinset : Set Nat) ⊆ w.brood := by
    intro n hn
    obtain ⟨p, hp, rfl⟩ := List.mem_map.mp (List.mem_toFinset.mp hn)
    exact h.mem_brood hfilled hmore (List.prefix_refl _) p (List.mem_append_left _ hp)
  have hcard := Set.ncard_le_ncard hsubset hfinite
  rw [Set.ncard_coe_finset, List.toFinset_card_of_nodup (List.nodup_append.mp hnodup).2.1,
    List.length_map] at hcard
  rw [hmore, ranIn_append, List.length_append]
  omega

/-! ### Finite trees -/

theorem tends_rounds_add (h : w.Sound { held, waiting, unbooked := ran }) (hfilled : w.Filled) (k n : Nat) :
    (w.rounds k).Tends (w.rounds (k + n)) := by
  obtain ⟨ran', hrounds⟩ := h.rounds k
  rw [rounds_add]
  exact hrounds.tends_rounds (hfilled.rounds k) n

/-- An action is queued with one content. -/
theorem content_unique (h : w.Sound { held, waiting, unbooked := ran }) (hfilled : w.Filled) {k l n : Nat} {a b : A}
    (ha : (n, a) ∈ queuedIn (w.rounds k).deeds) (hb : (n, b) ∈ queuedIn (w.rounds l).deeds) : a = b := by
  obtain ⟨ran', hrounds⟩ := h.rounds (k + l)
  obtain ⟨more, hmore, -⟩ := h.tends_rounds_add hfilled k l
  obtain ⟨more', hmore', -⟩ := h.tends_rounds_add hfilled l k
  have ha' : (n, a) ∈ queuedIn (w.rounds (k + l)).deeds := by
    rw [hmore, queuedIn_append]
    exact List.mem_append_left _ ha
  have hb' : (n, b) ∈ queuedIn (w.rounds (k + l)).deeds := by
    rw [Nat.add_comm, hmore', queuedIn_append]
    exact List.mem_append_left _ hb
  exact congrArg Prod.snd (List.inj_on_of_nodup_map hrounds.nodup_queued ha' hb' rfl)

/-- An action submits no more once it has been run to its end, so its children are finitely many. -/
theorem finite_children (h : w.Sound { held, waiting, unbooked := ran }) (hfilled : w.Filled) (n : Nat) :
    {m | w.Begets n m}.Finite := by
  by_cases hnone : ∃ m, w.Begets n m
  swap
  · exact Set.finite_empty.subset fun m hm => hnone ⟨m, hm⟩
  obtain ⟨_, k, more, hmore, past, a, b, rest, hsplit, hlast⟩ := hnone
  have hran : n ∈ (ranIn (w.rounds k).deeds).map Prod.fst := by
    rw [hmore, hsplit, ranIn_append, ranIn_append]
    exact List.mem_map.mpr ⟨(n, a), by simp [List.mem_of_getLast? hlast], rfl⟩
  refine (List.finite_toSet ((queuedIn (w.rounds k).deeds).map Prod.fst)).subset ?_
  rintro m ⟨k', more', hmore', past', a', b', rest', hsplit', hlast'⟩
  obtain ⟨extra, hextra, htended⟩ := h.tends_rounds_add hfilled k k'
  obtain ⟨extra', hextra', -⟩ := h.tends_rounds_add hfilled k' k
  obtain ⟨ran', hrounds⟩ := h.rounds (k + k')
  have hall : (w.rounds k).deeds ++ extra = (w.deeds ++ past') ++ .queued m b' :: (rest' ++ extra') := by
    rw [← hextra, Nat.add_comm, hextra', hmore', hsplit']
    simp
  rcases append_eq_append_queued hall with ⟨later, hlater⟩ | ⟨before, hbefore, hmiddle⟩
  · refine List.mem_map.mpr ⟨(m, b'), ?_, rfl⟩
    rw [hlater, queuedIn_append]
    exact List.mem_append_right _ List.mem_cons_self
  · -- queued in a later round, and so by an action begun in it: that would be the second time that `n` runs
    obtain ⟨n', a'', hlast'', -⟩ := htended before m b' _ hmiddle
    have heq := congrArg (fun deeds => (ranIn deeds).getLast?) hbefore
    simp only [ranIn_append, List.getLast?_append, hlast', hlast'', Option.some_or, Option.some.injEq] at heq
    obtain ⟨rfl, rfl⟩ := Prod.mk.inj heq
    have hnodup := hrounds.nodup_ran
    rw [hextra, ranIn_append, List.map_append] at hnodup
    refine absurd rfl ((List.nodup_append.mp hnodup).2.2 n hran n ?_)
    rw [hmiddle, ranIn_append]
    exact List.mem_map.mpr ⟨(n, a'), List.mem_append_left _ (List.mem_of_getLast? hlast''), rfl⟩

/-- **Trees are finite**, if submitting does not go on for ever from the content at their root. -/
theorem finite_tree (h : w.Sound { held, waiting, unbooked := ran }) (hfilled : w.Filled) {a : A}
    (hacc : Acc SubmittedBy a) : ∀ k n, (n, a) ∈ queuedIn (w.rounds k).deeds → (w.tree n).Finite := by
  induction hacc with
  | intro a _ ih =>
    intro k n hn
    have hsubset : w.tree n ⊆ insert n (⋃ m ∈ {m | w.Begets n m}, w.tree m) := by
      intro m hm
      rcases ReflTransGen.cases_head hm with rfl | ⟨child, hchild, hrest⟩
      · exact Set.mem_insert _ _
      · exact Set.mem_insert_of_mem _ (Set.mem_biUnion hchild hrest)
    refine (((h.finite_children hfilled n).biUnion fun m hm => ?_).insert n).subset hsubset
    obtain ⟨k', more, hmore, past, a', b, rest, hsplit, hlast⟩ := hm
    obtain ⟨more', hmore', htended⟩ := h.tends_rounds hfilled k'
    obtain rfl := List.append_cancel_left (hmore.symm.trans hmore')
    obtain ⟨n', a'', hlast', hby⟩ := htended past m b rest hsplit
    obtain ⟨rfl, rfl⟩ := Prod.mk.inj (Option.some.inj (hlast.symm.trans hlast'))
    obtain ⟨ran', hrounds⟩ := h.rounds k'
    have hn' : (n, a') ∈ queuedIn (w.rounds k').deeds := by
      refine (hrounds.inOrder _ (List.prefix_refl _)).subset ?_
      rw [hmore, hsplit, ranIn_append, ranIn_append]
      simp [List.mem_of_getLast? hlast]
    obtain rfl := h.content_unique hfilled hn hn'
    refine ih b hby k' m ?_
    rw [hmore, hsplit, queuedIn_append, queuedIn_append]
    exact List.mem_append_right _ (List.mem_append_right _ List.mem_cons_self)

end Sound

end Ledger

end WindowedMetrics
