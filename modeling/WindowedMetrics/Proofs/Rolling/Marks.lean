import WindowedMetrics.Proofs.Rolling.Runs

/-!
# What the log tells of phases

A rolling ranking reports when it makes a phase current and when it archives an interval.  `Logged.marks` picks
these reports out of a log; what actors report meanwhile is left out (`Recorder.marks_update`,
`Recorder.marks_takeInterval`).

* `PhaseMark.currentIn` and `PhaseMark.slotExpiry` read off the marks which interval is current and when the
  slots of the archive expire.
* `PhaseMark.Guarded` says that no slot was overwritten that had not expired when the overwriting phase was
  rotated out.
-/

namespace WindowedMetrics

/-! ### Marks -/

/-- What a rolling ranking reports of its phases. -/
inductive PhaseMark where
  /-- A phase was made current at an instant, for an interval. -/
  | rotated (now interval : Nat)
  /-- An interval was archived, to be visible up to an instant. -/
  | archived (interval expiry : Nat)
  deriving DecidableEq

def Event.mark? : Event → Option PhaseMark
  | .rankingRotated now interval _ => some (.rotated now interval)
  | .rankingArchived interval _ expiry => some (.archived interval expiry)
  | _ => none

namespace PhaseMark

/-- The interval that a phase was made current for. -/
def rotated? : PhaseMark → Option Nat
  | .rotated _ interval => some interval
  | .archived _ _ => none

/-- The expiry of an interval archived in a slot. -/
def expiry? (size slot : Nat) : PhaseMark → Option Nat
  | .rotated _ _ => none
  | .archived interval expiry => if interval % size = slot then some expiry else none

/-- The interval that is current after these marks; at first it is the first one. -/
def currentIn (marks : List PhaseMark) : Nat := ((marks.filterMap rotated?).getLast?).getD 0

/-- The instant at which a slot expires after these marks, or zero if nothing has been archived there. -/
def slotExpiry (size slot : Nat) (marks : List PhaseMark) : Nat :=
  ((marks.filterMap (expiry? size slot)).getLast?).getD 0

/-- **No slot is overwritten too early**: an interval is archived next after its phase has been rotated out, and
at the instant of this rotation its slot had expired. -/
def Guarded (size : Nat) (marks : List PhaseMark) : Prop :=
  ∀ before j expiry after, marks = before ++ .archived j expiry :: after →
    ∃ past now i, before = past ++ [.rotated now i] ∧ currentIn past = j ∧ j < i ∧
      slotExpiry size (j % size) before ≤ now

@[simp] theorem currentIn_rotated (marks : List PhaseMark) (now interval : Nat) :
    currentIn (marks ++ [.rotated now interval]) = interval := by
  simp [currentIn, rotated?]

@[simp] theorem currentIn_archived (marks : List PhaseMark) (interval expiry : Nat) :
    currentIn (marks ++ [.archived interval expiry]) = currentIn marks := by
  simp [currentIn, rotated?]

@[simp] theorem slotExpiry_rotated (size slot : Nat) (marks : List PhaseMark) (now interval : Nat) :
    slotExpiry size slot (marks ++ [.rotated now interval]) = slotExpiry size slot marks := by
  simp [slotExpiry, expiry?]

theorem slotExpiry_archived (size slot : Nat) (marks : List PhaseMark) (interval expiry : Nat) :
    slotExpiry size slot (marks ++ [.archived interval expiry]) =
      if interval % size = slot then expiry else slotExpiry size slot marks := by
  by_cases h : interval % size = slot <;> simp [slotExpiry, expiry?, h]

theorem guarded_nil (size : Nat) : Guarded size [] := by
  intro before j expiry after h
  simp at h

/-- A mark found in a list with one more mark is the last one or one of those before it. -/
theorem concat_eq_append_cons {marks before after : List PhaseMark} {m d : PhaseMark}
    (h : marks ++ [m] = before ++ d :: after) :
    (marks = before ∧ m = d) ∨ ∃ rest, marks = before ++ d :: rest := by
  rcases List.eq_nil_or_concat after with rfl | ⟨rest, last, rfl⟩
  · exact .inl ((List.append_inj' h rfl).imp id fun hlast => (List.cons.inj hlast).1)
  · rw [List.concat_eq_append, ← List.cons_append, ← List.append_assoc] at h
    exact .inr ⟨rest, (List.append_inj' h rfl).1⟩

variable {size : Nat} {marks : List PhaseMark}

theorem Guarded.rotated (h : Guarded size marks) (now interval : Nat) :
    Guarded size (marks ++ [.rotated now interval]) := by
  intro before j expiry after hsplit
  rcases concat_eq_append_cons hsplit with ⟨-, hlast⟩ | ⟨rest, hrest⟩
  · cases hlast
  · exact h before j expiry rest hrest

theorem Guarded.archived (h : Guarded size marks) {j : Nat} (expiry : Nat)
    (hnow : ∃ past now i, marks = past ++ [.rotated now i] ∧ currentIn past = j ∧ j < i ∧
      slotExpiry size (j % size) marks ≤ now) : Guarded size (marks ++ [.archived j expiry]) := by
  intro before j' expiry' after hsplit
  rcases concat_eq_append_cons hsplit with ⟨rfl, hlast⟩ | ⟨rest, hrest⟩
  · obtain ⟨rfl, rfl⟩ := PhaseMark.archived.inj hlast
    exact hnow
  · exact h before j' expiry' rest hrest

end PhaseMark

/-! ### Marks in a log -/

namespace Logged

variable {α β : Type}

/-- The marks among the events that were emitted. -/
def marks (x : Logged α) : List PhaseMark := x.events.filterMap Event.mark?

@[simp] theorem marks_pure (a : α) : (pure a : Logged α).marks = [] := rfl

@[simp] theorem marks_bind (x : Logged α) (f : α → Logged β) :
    (x >>= f).marks = x.marks ++ (f x.value).marks := List.filterMap_append

@[simp] theorem marks_map (x : Logged α) (f : α → β) : (f <$> x).marks = x.marks := by
  simp [marks]

end Logged

/-! ### Actors leave no marks -/

namespace Actor

variable {S A : Type} [Action S A]

@[simp] theorem marks_acquire (x : Actor S A) : x.acquire.marks = [] := by
  unfold acquire
  split
  · rfl
  · by_cases h : x.overflows = 0
    · rw [if_pos h]
      rfl
    · rw [if_neg h]
      rfl

@[simp] theorem marks_runScript (s : Script S A) (held : List (Handle A)) (x : Actor S A) :
    (runScript s held x).marks = [] := by
  induction s generalizing held x with
  | done => rfl
  | edit change next ih => exact ih held _
  | inspect next ih => exact ih x.state held x
  | acquire next ih =>
    rw [runScript, Logged.marks_bind, marks_acquire]
    exact ih _ _ _
  | submit place a next ih =>
    unfold runScript
    split <;> exact ih _ _
  | discard place next ih =>
    unfold runScript
    split <;> exact ih _ _

@[simp] theorem marks_runSlots (x : Actor S A) (slots : List Nat) : (x.runSlots slots).marks = [] := by
  induction slots generalizing x with
  | nil => rfl
  | cons slot slots ih => simp [runSlots, runSlot, ih]

@[simp] theorem marks_drain (x : Actor S A) (limit ran : Nat) : (x.drain limit ran).marks = [] := by
  induction hm : limit - ran using Nat.strongRecOn generalizing x ran with
  | _ m ih =>
    subst hm
    rw [drain]
    split
    · rfl
    · rename_i slots pool hq
      have hpos := List.length_pos_iff.2 (SlotPool.takeQueue_ne_nil hq)
      rw [Logged.marks_bind, marks_runSlots]
      split
      · rfl
      · exact ih _ (by omega) _ _ rfl

@[simp] theorem marks_drainAndRelease (x : Actor S A) : x.drainAndRelease.marks = [] := by
  simp only [drainAndRelease, Logged.marks_bind, marks_drain, List.nil_append]
  unfold release
  split <;> rfl

@[simp] theorem marks_send (x : Actor S A) (a : A) : (x.send a).marks = [] := by
  simp only [send, Logged.marks_bind, marks_acquire, List.nil_append]
  unfold submit
  split
  · dsimp only
    split <;> simp
  · split
    · rfl
    · simp [drainAll, runOverflow]

@[simp] theorem marks_exclusively {B : Type} (x : Actor S A) (f : S → B × S) :
    (x.exclusively f).marks = [] := by
  simp [exclusively, enter, drainAll]

end Actor

variable {I : Type} [DecidableEq I]

namespace Recorder

@[simp] theorem marks_update (r : Recorder I) (weight : Int64) (identity : I) :
    (r.update weight identity).marks = [] := by
  simp only [update, SharedRanking.update, Logged.marks_bind, Logged.marks_pure, List.append_nil]
  split <;> simp

@[simp] theorem marks_takeInterval (r : Recorder I) (recycled : Option (Interval I)) :
    (r.takeInterval recycled).marks = [] := by
  simp [takeInterval, SharedRanking.exchange]

end Recorder

/-! ### Marks of rolling rankings -/

namespace ChunkedRanking

omit [DecidableEq I] in
/-- What retiring a phase leaves in the log. -/
def archiveMarks (r : ChunkedRanking I) (side : Side) : List PhaseMark :=
  if r.archive.isEmpty then []
  else [.archived (r.phase side).interval
    (boundary (r.phase side).invalidation (r.archive.size - 1) r.interval)]

omit [DecidableEq I] in
theorem marks_store (r : ChunkedRanking I) (side : Side) : (r.store side).marks = r.archiveMarks side := by
  unfold store archiveMarks
  dsimp only
  split <;> rfl

theorem marks_retire_of_isOver {r : ChunkedRanking I} {side : Side} (h : r.isOver side) :
    (r.retire side).marks = r.archiveMarks side := by
  have htaken : ((r.take side).value.2.credit side (r.take side).value.1).archiveMarks side =
      r.archiveMarks side := by
    cases side <;> rfl
  rw [← htaken, ← marks_store]
  unfold retire
  rw [if_pos h]
  simp [take, retireTaken]

theorem marks_retire_of_not_isOver {r : ChunkedRanking I} {side : Side} (h : ¬ r.isOver side) :
    (r.retire side).marks = [] := by
  unfold retire
  rw [if_neg h]
  rfl

theorem marks_update_of_lt {r : ChunkedRanking I} {now : Nat} (h : ¬ r.expired now) (weight : Int64)
    (identity : I) : (r.update now weight identity).marks = [] := by
  have hlt : now < (r.phase r.current).invalidation := by simpa [expired] using h
  unfold update
  simp [hlt]

theorem intervalOf_retire (r : ChunkedRanking I) (side : Side) (now : Nat) :
    (r.retire side).value.intervalOf now = r.intervalOf now := by
  by_cases h : r.isOver side
  · rw [retire_of_isOver h]
    simp only [retireTaken, Logged.value_bind, Logged.value_pure, store_value]
    rfl
  · rw [retire_of_not_isOver h]

theorem marks_update_of_le {r : ChunkedRanking I} {now : Nat} (h : r.expired now) (weight : Int64)
    (identity : I) :
    (r.update now weight identity).marks =
      (r.retire r.current.other).marks ++ [.rotated now (r.intervalOf now)] := by
  have hle : ¬ now < (r.phase r.current).invalidation := by simpa [expired] using h
  rw [← r.intervalOf_retire r.current.other]
  unfold update
  simp only [if_neg hle, Logged.marks_bind, Recorder.marks_update, Logged.marks_pure, List.nil_append,
    List.append_nil]
  rfl

/-- The phase that a reader finds expired is rotated out. -/
theorem marks_rotateExpired (r : ChunkedRanking I) (now : Nat) :
    (r.rotateExpired now).marks =
      if (r.phase r.current).invalidation ≠ dormant ∧ (r.phase r.current).invalidation ≤ now then
        (r.retire r.current.other).marks ++ [.rotated now (r.intervalOf now)]
      else [] := by
  rw [← r.intervalOf_retire r.current.other]
  unfold rotateExpired
  dsimp only
  split_ifs
  · rw [Logged.marks_bind]
    rfl
  · rfl

/-- Of two phases that a reader retires, one is current. -/
theorem marks_retire_both (r : ChunkedRanking I) :
    (r.retire .first).marks ++ ((r.retire .first).value.retire .second).marks =
      (r.retire r.current.other).marks := by
  cases hcurrent : r.current with
  | first =>
    have hnot : ¬ r.isOver .first := hcurrent ▸ r.isOver_current
    rw [marks_retire_of_not_isOver hnot, retire_of_not_isOver hnot]
    rfl
  | second =>
    have hnot : ¬ r.settle.isOver .second := by
      have hsettled := r.settle.isOver_current
      rwa [current_settle, hcurrent] at hsettled
    have hsettle : (r.retire .first).value = r.settle := by
      rw [settle, hcurrent]
      rfl
    rw [hsettle, marks_retire_of_not_isOver hnot, List.append_nil]
    rfl

theorem marks_descending (r : ChunkedRanking I) (now : Nat) :
    (r.descending now).marks = (r.rotateExpired now).marks ++
      ((r.rotated now).retire (r.rotated now).current.other).marks := by
  unfold descending
  rw [Logged.marks_bind, rotateExpired_value, ← marks_retire_both, Logged.marks_bind, Logged.marks_bind]
  split <;> simp [collect, take]

end ChunkedRanking

namespace RollingRanking

/-- What an operation reports. -/
def report (r : RollingRanking I) : Operation I → List Event
  | .update now weight identity => (r.update now weight identity).events
  | .read now => (r.descending now).events
  | .runTask number => (r.runTask number).events
  | .dropTask _ => []

/-- The log of a run. -/
def log (r : RollingRanking I) : List (Operation I) → List Event
  | [] => []
  | op :: ops => r.report op ++ (r.step op).log ops

/-- The marks in the log of a run. -/
def marks (r : RollingRanking I) (ops : List (Operation I)) : List PhaseMark := (r.log ops).filterMap Event.mark?

theorem log_concat (r : RollingRanking I) (ops : List (Operation I)) (op : Operation I) :
    r.log (ops ++ [op]) = r.log ops ++ (r.run ops).report op := by
  induction ops generalizing r with
  | nil => exact List.append_nil _
  | cons first ops ih =>
    show r.report first ++ (r.step first).log (ops ++ [op]) = _
    rw [ih, ← List.append_assoc]
    rfl

theorem marks_concat (r : RollingRanking I) (ops : List (Operation I)) (op : Operation I) :
    r.marks (ops ++ [op]) = r.marks ops ++ ((r.run ops).report op).filterMap Event.mark? := by
  rw [marks, log_concat, List.filterMap_append]
  rfl

end RollingRanking

end WindowedMetrics
