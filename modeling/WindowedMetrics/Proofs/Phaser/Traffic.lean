import Mathlib.Algebra.Group.Int.Defs
import Mathlib.Algebra.Group.Nat.Defs
import Mathlib.Data.List.Induction
import Mathlib.Data.List.Perm.Basic
import Mathlib.Logic.Function.Basic
import WindowedMetrics.Phaser

/-!
# Traffic at a phaser

Writers enter and leave, and one reader after the other flips the phaser, a step at a time and in any
order (`Traffic.act`).  Beside the phaser the traffic keeps what its counters stand for: which sections
are open, in which phase they were entered, and how many have been entered and left in each phase.

* The epochs of a phase are its base and the numbers after it.  Below 2^63 they tell the phase and are
  distinct (`Parity.ofEpoch_epoch`, `Parity.epoch_inj`).
* `Traffic.Sound` is what every step keeps.  The exit counter of the current phase, and while a flip waits
  also that of the phase before, has counted all exits of its phase and no others.
* So a flip waits for the sections of the old phase and for nobody else (`Traffic.flip_waits_for_old`).
-/

namespace WindowedMetrics

/-! ### Phases and their epochs -/

namespace Parity

/-- The parity of the phase after a number of flips. -/
def ofPhase : Nat → Parity
  | 0 => .even
  | n + 1 => (ofPhase n).other

/-- The epoch of a section that is entered after `k` others of its phase. -/
def epoch (phase : Parity) (k : Nat) : Int64 := phase.base + Int64.ofNat k

@[simp] theorem other_other (p : Parity) : p.other.other = p := by cases p <;> rfl

theorem other_ne (p : Parity) : p.other ≠ p := by cases p <;> decide

theorem ofPhase_succ_ne (n : Nat) : ofPhase (n + 1) ≠ ofPhase n := other_ne _

theorem epoch_zero (p : Parity) : p.epoch 0 = p.base := Int64.add_zero _

theorem epoch_succ (p : Parity) (k : Nat) : p.epoch (k + 1) = p.epoch k + 1 := by
  unfold epoch
  rw [Int64.ofNat_add, ← Int64.add_assoc]
  rfl

theorem toInt_base_even : (base .even).toInt = 0 := rfl

theorem toInt_base_odd : (base .odd).toInt = -2 ^ 63 := rfl

theorem toInt_epoch (p : Parity) {k : Nat} (h : k < 2 ^ 63) :
    (p.epoch k).toInt = p.base.toInt + k := by
  have hk : (Int64.ofNat k).toInt = k := Int64.toInt_ofNat_of_lt h
  unfold epoch
  rw [Int64.toInt_add, hk]
  cases p with
  | even =>
    rw [toInt_base_even]
    exact Int.bmod_eq_of_le (by omega) (by omega)
  | odd =>
    rw [toInt_base_odd]
    exact Int.bmod_eq_of_le (by omega) (by omega)

/-- The sign of an epoch tells its phase. -/
theorem ofEpoch_epoch (p : Parity) {k : Nat} (h : k < 2 ^ 63) : ofEpoch (p.epoch k) = p := by
  have hk := p.toInt_epoch h
  unfold ofEpoch
  cases p with
  | even =>
    have hpos : ¬ epoch .even k < 0 := by
      rw [Int64.lt_iff_toInt_lt, hk, toInt_base_even, Int64.toInt_zero]
      omega
    rw [if_neg hpos]
  | odd =>
    have hneg : epoch .odd k < 0 := by
      rw [Int64.lt_iff_toInt_lt, hk, toInt_base_odd, Int64.toInt_zero]
      omega
    rw [if_pos hneg]

theorem epoch_inj (p : Parity) {j k : Nat} (hj : j < 2 ^ 63) (hk : k < 2 ^ 63) :
    p.epoch j = p.epoch k ↔ j = k := by
  rw [← Int64.toInt_inj, p.toInt_epoch hj, p.toInt_epoch hk]
  omega

end Parity

/-! ### Exit counters -/

namespace Phaser

@[simp] theorem endOf_setEnd_self (p : Phaser) (phase : Parity) (n : Int64) :
    (p.setEnd phase n).endOf phase = n := by cases phase <;> rfl

theorem endOf_setEnd_of_ne (p : Phaser) {phase other : Parity} (n : Int64) (h : phase ≠ other) :
    (p.setEnd phase n).endOf other = p.endOf other := by
  cases phase <;> cases other <;> first | exact absurd rfl h | rfl

@[simp] theorem endOf_enter (p : Phaser) (phase : Parity) : p.enter.2.endOf phase = p.endOf phase := by
  cases phase <;> rfl

@[simp] theorem startEpoch_setEnd (p : Phaser) (phase : Parity) (n : Int64) :
    (p.setEnd phase n).startEpoch = p.startEpoch := by cases phase <;> rfl

theorem endOf_exit_self (p : Phaser) {s : CriticalSection} {phase : Parity}
    (h : Parity.ofEpoch s.epoch = phase) : (p.exit s).endOf phase = p.endOf phase + 1 := by
  subst h
  exact endOf_setEnd_self ..

theorem endOf_exit_of_ne (p : Phaser) {s : CriticalSection} {phase other : Parity}
    (h : Parity.ofEpoch s.epoch = phase) (hne : other ≠ phase) : (p.exit s).endOf other = p.endOf other := by
  subst h
  exact endOf_setEnd_of_ne _ _ (Ne.symm hne)

end Phaser

/-! ### Steps -/

/-- How far the reader has come with a flip. -/
inductive FlipStage where
  /-- No flip is under way. -/
  | rest
  /-- It has looked which phase to enter. -/
  | chosen (entering : Parity)
  /-- It has reset the exit counter of that phase. -/
  | cleared (entering : Parity)
  /-- It has moved new sections to that phase, and polls the exit counter of the old one. -/
  | waiting (flip : Flip)
  deriving DecidableEq

/-- An open section: who is inside, and in which phase it was entered. -/
structure Visit (α : Type) where
  holder : α
  pass : CriticalSection
  phase : Nat
  deriving DecidableEq

/-- A phaser with the sections that are open and the flip that is under way. -/
structure Traffic (α : Type) where
  phaser : Phaser := {}
  stage : FlipStage := .rest
  /-- How many flips have moved new sections. -/
  phase : Nat := 0
  /-- The open sections, the one entered last at the end. -/
  inside : List (Visit α) := []
  /-- How many sections have been entered in each phase. -/
  entered : Nat → Nat := fun _ => 0
  /-- How many sections of each phase have been left. -/
  left : Nat → Nat := fun _ => 0

/-- A step of a writer or of the reader.  Open sections are named by their place. -/
inductive TrafficStep (α : Type) where
  | enter (holder : α)
  | exit (place : Nat)
  /-- Look which phase to enter. -/
  | choose
  /-- Reset its exit counter. -/
  | clear
  /-- Move new sections to it. -/
  | move
  /-- Return from the flip if the old phase has been left. -/
  | poll

/-- A count raised by one at one place. -/
def countUp (f : Nat → Nat) (n : Nat) : Nat → Nat := Function.update f n (f n + 1)

@[simp] theorem countUp_self (f : Nat → Nat) (n : Nat) : countUp f n n = f n + 1 :=
  Function.update_self ..

theorem countUp_of_ne (f : Nat → Nat) {n m : Nat} (h : m ≠ n) : countUp f n m = f m :=
  Function.update_of_ne h ..

theorem le_countUp (f : Nat → Nat) (n m : Nat) : f m ≤ countUp f n m := by
  by_cases h : m = n
  · subst h
    rw [countUp_self]
    exact Nat.le_succ _
  · exact Nat.le_of_eq (countUp_of_ne f h).symm

namespace Traffic

variable {α : Type}

/-- The traffic after a step; a step that its owner cannot take does nothing. -/
def act (t : Traffic α) : TrafficStep α → Traffic α
  | .enter holder =>
    { t with
      phaser := t.phaser.enter.2
      inside := t.inside ++ [⟨holder, t.phaser.enter.1, t.phase⟩]
      entered := countUp t.entered t.phase }
  | .exit place =>
    match t.inside[place]? with
    | some v =>
      { t with
        phaser := t.phaser.exit v.pass
        inside := t.inside.eraseIdx place
        left := countUp t.left v.phase }
    | none => t
  | .choose =>
    match t.stage with
    | .rest => { t with stage := .chosen t.phaser.nextPhase }
    | _ => t
  | .clear =>
    match t.stage with
    | .chosen entering =>
      { t with phaser := t.phaser.resetEnd entering, stage := .cleared entering }
    | _ => t
  | .move =>
    match t.stage with
    | .cleared entering =>
      { t with
        phaser := (t.phaser.swapStart entering).2
        stage := .waiting (t.phaser.swapStart entering).1
        phase := t.phase + 1 }
    | _ => t
  | .poll =>
    match t.stage with
    | .waiting flip => if t.phaser.caughtUp flip then { t with stage := .rest } else t
    | _ => t

/-- The traffic after steps of a new phaser. -/
def run (steps : List (TrafficStep α)) : Traffic α := steps.foldl act {}

theorem run_concat (steps : List (TrafficStep α)) (step : TrafficStep α) :
    run (steps ++ [step]) = (run steps).act step := by
  simp [run]

/-- All sections of the phases before `m` have been left. -/
def Gone (t : Traffic α) (m : Nat) : Prop := ∀ n < m, t.left n = t.entered n

/-- What is known at each stage of a flip. -/
def AtStage (t : Traffic α) : FlipStage → Prop
  | .rest => t.Gone t.phase
  | .chosen entering => t.Gone t.phase ∧ entering = Parity.ofPhase (t.phase + 1)
  | .cleared entering => t.Gone t.phase ∧ entering = Parity.ofPhase (t.phase + 1) ∧
      t.phaser.endOf entering = entering.base
  | .waiting flip => ∃ old, t.phase = old + 1 ∧ t.Gone old ∧ flip.entering = Parity.ofPhase t.phase ∧
      flip.oldStart = (Parity.ofPhase old).epoch (t.entered old) ∧
      t.phaser.endOf (Parity.ofPhase old) = (Parity.ofPhase old).epoch (t.left old)

/-- The counters stand for the sections entered and left. -/
structure Sound (t : Traffic α) : Prop where
  start : t.phaser.startEpoch = (Parity.ofPhase t.phase).epoch (t.entered t.phase)
  exits : t.phaser.endOf (Parity.ofPhase t.phase) = (Parity.ofPhase t.phase).epoch (t.left t.phase)
  /-- A section is open or has been left. -/
  count : ∀ n, t.left n + t.inside.countP (·.phase = n) = t.entered n
  /-- Each open section got one of the epochs of its phase. -/
  pass : ∀ v ∈ t.inside, ∃ k < t.entered v.phase, v.pass.epoch = (Parity.ofPhase v.phase).epoch k
  /-- Nothing has been entered in phases to come. -/
  ahead : ∀ n, t.phase < n → t.entered n = 0
  stage : t.AtStage t.stage

theorem entered_mono (t : Traffic α) (step : TrafficStep α) (n : Nat) :
    t.entered n ≤ (t.act step).entered n := by
  cases step with
  | enter holder => exact le_countUp t.entered t.phase n
  | exit place =>
    unfold act
    dsimp only
    split <;> exact Nat.le_refl _
  | poll =>
    unfold act
    dsimp only
    split
    · split_ifs <;> exact Nat.le_refl _
    · exact Nat.le_refl _
  | choose | clear | move =>
    unfold act
    dsimp only
    split <;> exact Nat.le_refl _

/-! ### What every step keeps -/

theorem Sound.phase_le {t : Traffic α} (h : t.Sound) {v : Visit α} (hv : v ∈ t.inside) :
    v.phase ≤ t.phase := by
  obtain ⟨k, hk, -⟩ := h.pass v hv
  by_contra hlt
  have hzero := h.ahead v.phase (by omega)
  omega

/-- Phases that have been left altogether have no open section. -/
theorem Sound.le_of_gone {t : Traffic α} (h : t.Sound) {v : Visit α} (hv : v ∈ t.inside) {m : Nat}
    (hgone : t.Gone m) : m ≤ v.phase := by
  by_contra hlt
  have hall := hgone v.phase (by omega)
  have hcount := h.count v.phase
  have hpos : 0 < t.inside.countP (·.phase = v.phase) :=
    List.countP_pos_iff.mpr ⟨v, hv, by simp⟩
  omega

/-- Until a flip moves new sections, those of the phases before the current one are gone. -/
theorem Sound.gone {t : Traffic α} (h : t.Sound) (hstage : ∀ flip, t.stage ≠ .waiting flip) :
    t.Gone t.phase := by
  have hs := h.stage
  cases hcase : t.stage with
  | rest => rwa [hcase] at hs
  | chosen | cleared =>
    rw [hcase] at hs
    exact hs.1
  | waiting flip => exact absurd hcase (hstage flip)

/-- An open section was entered in the current phase or, while a flip waits, in the one before. -/
theorem Sound.phase_cases {t : Traffic α} (h : t.Sound) {v : Visit α} (hv : v ∈ t.inside) :
    v.phase = t.phase ∨ v.phase + 1 = t.phase := by
  have hle := h.phase_le hv
  by_cases hwait : ∃ flip, t.stage = .waiting flip
  · obtain ⟨flip, hflip⟩ := hwait
    have hs := h.stage
    rw [hflip] at hs
    obtain ⟨old, hold, hg, -⟩ := hs
    have hge := h.le_of_gone hv hg
    omega
  · have hge := h.le_of_gone hv (h.gone fun flip hflip => hwait ⟨flip, hflip⟩)
    omega

/-- **An exit is credited to the phase of its section.** -/
theorem Sound.ofEpoch_pass {t : Traffic α} (h : t.Sound) {v : Visit α} (hv : v ∈ t.inside)
    (hbound : t.entered v.phase < 2 ^ 63) :
    Parity.ofEpoch v.pass.epoch = Parity.ofPhase v.phase := by
  obtain ⟨k, hk, hepoch⟩ := h.pass v hv
  rw [hepoch]
  exact Parity.ofEpoch_epoch _ (by omega)

/-- What is known at a stage stays known as long as the steps of writers keep what it speaks of. -/
theorem AtStage.keep {t t' : Traffic α} {stage : FlipStage} (h : t.AtStage stage)
    (hphase : t'.phase = t.phase) (hgone : ∀ m ≤ t.phase, t.Gone m → t'.Gone m)
    (hentered : ∀ n < t.phase, t'.entered n = t.entered n)
    (hnext : t.Gone t.phase → t'.phaser.endOf (Parity.ofPhase (t.phase + 1)) =
      t.phaser.endOf (Parity.ofPhase (t.phase + 1)))
    (hexits : ∀ old, t.phase = old + 1 →
      t.phaser.endOf (Parity.ofPhase old) = (Parity.ofPhase old).epoch (t.left old) →
      t'.phaser.endOf (Parity.ofPhase old) = (Parity.ofPhase old).epoch (t'.left old)) :
    t'.AtStage stage := by
  cases stage with
  | rest =>
    show t'.Gone t'.phase
    rw [hphase]
    exact hgone _ (Nat.le_refl _) h
  | chosen entering =>
    obtain ⟨hg, hentering⟩ := h
    refine ⟨?_, hphase.symm ▸ hentering⟩
    rw [hphase]
    exact hgone _ (Nat.le_refl _) hg
  | cleared entering =>
    obtain ⟨hg, hentering, hbase⟩ := h
    refine ⟨?_, hphase.symm ▸ hentering, ?_⟩
    · rw [hphase]
      exact hgone _ (Nat.le_refl _) hg
    · rw [← hbase, hentering]
      exact hnext hg
  | waiting flip =>
    obtain ⟨old, hold, hg, hentering, hstart, hend⟩ := h
    refine ⟨old, hphase.trans hold, hgone _ (by omega) hg, hphase.symm ▸ hentering, ?_, hexits old hold hend⟩
    rw [hentered old (by omega)]
    exact hstart

theorem sound_empty : ({} : Traffic α).Sound where
  start := rfl
  exits := rfl
  count := fun _ => rfl
  pass := fun _ hv => absurd hv List.not_mem_nil
  ahead := fun _ _ => rfl
  stage := fun n hn => absurd hn (Nat.not_lt_zero n)

theorem Sound.enter {t : Traffic α} (h : t.Sound) (holder : α) : (t.act (.enter holder)).Sound where
  start := by
    show t.phaser.startEpoch + 1 = (Parity.ofPhase t.phase).epoch (countUp t.entered t.phase t.phase)
    rw [countUp_self, Parity.epoch_succ, h.start]
  exits := by
    exact (Phaser.endOf_enter t.phaser _).trans h.exits
  count := by
    intro n
    show t.left n + (t.inside ++ [_]).countP _ = countUp t.entered t.phase n
    rw [List.countP_append, ← Nat.add_assoc, h.count n]
    by_cases hn : n = t.phase
    · subst hn
      simp
    · rw [countUp_of_ne _ hn]
      simp [Ne.symm hn]
  pass := by
    intro v hv
    rcases List.mem_append.mp hv with hv | hv
    · obtain ⟨k, hk, hepoch⟩ := h.pass v hv
      exact ⟨k, Nat.lt_of_lt_of_le hk (le_countUp ..), hepoch⟩
    · obtain rfl := List.mem_singleton.mp hv
      refine ⟨t.entered t.phase, ?_, h.start⟩
      show t.entered t.phase < countUp t.entered t.phase t.phase
      rw [countUp_self]
      exact Nat.lt_succ_self _
  ahead := by
    intro n hn
    show countUp t.entered t.phase n = 0
    have hn' : t.phase < n := hn
    rw [countUp_of_ne _ (by omega)]
    exact h.ahead n hn'
  stage := by
    refine h.stage.keep rfl (fun m hm hg n hn => ?_) (fun n hn => ?_) (fun _ => ?_) fun old hold hexits => ?_
    · -- phases that are gone get no new sections
      show t.left n = countUp t.entered t.phase n
      rw [countUp_of_ne _ (by omega)]
      exact hg n hn
    · exact countUp_of_ne _ (by omega)
    · exact Phaser.endOf_enter t.phaser _
    · exact (Phaser.endOf_enter t.phaser _).trans hexits

theorem act_exit {t : Traffic α} {place : Nat} {v : Visit α} (hv : t.inside[place]? = some v) :
    t.act (.exit place) =
      { t with
        phaser := t.phaser.exit v.pass
        inside := t.inside.eraseIdx place
        left := countUp t.left v.phase } := by
  simp only [act, hv]

theorem Sound.exit {t : Traffic α} (h : t.Sound) (hbound : ∀ n, t.entered n < 2 ^ 63) {place : Nat}
    {v : Visit α} (hv : t.inside[place]? = some v) : (t.act (.exit place)).Sound := by
  obtain ⟨hplace, hget⟩ := List.getElem?_eq_some_iff.mp hv
  have hmem : v ∈ t.inside := List.mem_of_getElem? hv
  have hperm : (v :: t.inside.eraseIdx place).Perm t.inside := by
    rw [← hget]
    exact List.getElem_cons_eraseIdx_perm hplace
  have hparity := h.ofEpoch_pass hmem (hbound _)
  have hself := Phaser.endOf_exit_self t.phaser hparity
  have hother : ∀ other ≠ Parity.ofPhase v.phase, (t.phaser.exit v.pass).endOf other = t.phaser.endOf other :=
    fun _ => Phaser.endOf_exit_of_ne t.phaser hparity
  have hcases := h.phase_cases hmem
  rw [act_exit hv]
  refine ⟨?_, ?_, ?_, fun w hw => h.pass w (List.mem_of_mem_eraseIdx hw), h.ahead, ?_⟩
  · exact (Phaser.startEpoch_setEnd ..).trans h.start
  · show (t.phaser.exit v.pass).endOf _ = Parity.epoch _ (countUp t.left v.phase t.phase)
    by_cases hcur : v.phase = t.phase
    · rw [← hcur, hself, countUp_self, Parity.epoch_succ, hcur, h.exits]
    · have hsucc : t.phase = v.phase + 1 := by omega
      rw [countUp_of_ne _ (Ne.symm hcur), hother _ ?_, h.exits]
      rw [hsucc]
      exact Parity.ofPhase_succ_ne _
  · intro n
    have hcount := h.count n
    rw [← hperm.countP_eq, List.countP_cons] at hcount
    show countUp t.left v.phase n + _ = t.entered n
    by_cases hn : n = v.phase
    · subst hn
      rw [countUp_self, ← hcount]
      simp
      omega
    · rw [countUp_of_ne _ hn, ← hcount]
      simp [Ne.symm hn]
  · refine h.stage.keep rfl (fun m _ hg n hn => ?_) (fun _ _ => rfl) (fun hg => ?_)
      fun old hold hexits => ?_
    · show countUp t.left v.phase n = t.entered n
      have hle := h.le_of_gone hmem hg
      rw [countUp_of_ne _ (by omega)]
      exact hg n hn
    · have hle := h.le_of_gone hmem hg
      have hcur : v.phase = t.phase := by omega
      refine hother _ ?_
      rw [hcur]
      exact Parity.ofPhase_succ_ne _
    · show (t.phaser.exit v.pass).endOf _ = Parity.epoch _ (countUp t.left v.phase old)
      by_cases hn : old = v.phase
      · subst hn
        rw [hself, countUp_self, Parity.epoch_succ, hexits]
      · have hcur : v.phase = old + 1 := by omega
        rw [countUp_of_ne _ hn, hother _ ?_, hexits]
        rw [hcur]
        exact (Parity.ofPhase_succ_ne _).symm

/-- The reader sees by the sign of the start epoch which phase is running. -/
theorem Sound.nextPhase_eq {t : Traffic α} (h : t.Sound) (hbound : t.entered t.phase < 2 ^ 63) :
    t.phaser.nextPhase = Parity.ofPhase (t.phase + 1) := by
  unfold Phaser.nextPhase
  rw [h.start, Parity.ofEpoch_epoch _ hbound]
  rfl

theorem Sound.choose {t : Traffic α} (h : t.Sound) (hbound : t.entered t.phase < 2 ^ 63) :
    (t.act .choose).Sound := by
  have hs := h.stage
  unfold act
  cases hstage : t.stage with
  | rest =>
    rw [hstage] at hs
    exact ⟨h.start, h.exits, h.count, h.pass, h.ahead, hs, h.nextPhase_eq hbound⟩
  | chosen | cleared | waiting => exact h

theorem Sound.clear {t : Traffic α} (h : t.Sound) : (t.act .clear).Sound := by
  have hs := h.stage
  unfold act
  cases hstage : t.stage with
  | chosen entering =>
    rw [hstage] at hs
    obtain ⟨hg, rfl⟩ := hs
    refine ⟨?_, ?_, h.count, h.pass, h.ahead, hg, rfl, ?_⟩
    · exact (Phaser.startEpoch_setEnd ..).trans h.start
    · -- the counter of the running phase is the other one
      exact (Phaser.endOf_setEnd_of_ne _ _ (Parity.ofPhase_succ_ne _)).trans h.exits
    · exact Phaser.endOf_setEnd_self ..
  | rest | cleared | waiting => exact h

theorem Sound.move {t : Traffic α} (h : t.Sound) : (t.act .move).Sound := by
  have hs := h.stage
  unfold act
  cases hstage : t.stage with
  | cleared entering =>
    rw [hstage] at hs
    obtain ⟨hg, rfl, hbase⟩ := hs
    have hnone : t.entered (t.phase + 1) = 0 := h.ahead _ (Nat.lt_succ_self _)
    have hleft : t.left (t.phase + 1) = 0 := by
      have hcount := h.count (t.phase + 1)
      omega
    refine ⟨?_, ?_, h.count, h.pass, fun n hn => h.ahead n (Nat.lt_of_succ_lt hn), t.phase, rfl, hg,
      rfl, h.start, h.exits⟩
    · show (Parity.ofPhase (t.phase + 1)).base = Parity.epoch _ (t.entered (t.phase + 1))
      rw [hnone, Parity.epoch_zero]
    · show t.phaser.endOf (Parity.ofPhase (t.phase + 1)) = Parity.epoch _ (t.left (t.phase + 1))
      rw [hleft, Parity.epoch_zero, hbase]
  | rest | chosen | waiting => exact h

/-- The condition that a waiting reader polls: all sections of the phases before the current one have been
left. -/
theorem Sound.caughtUp_iff {t : Traffic α} (h : t.Sound) (hbound : ∀ n, t.entered n < 2 ^ 63) {flip : Flip}
    (hstage : t.stage = .waiting flip) : t.phaser.caughtUp flip = true ↔ t.Gone t.phase := by
  have hs := h.stage
  rw [hstage] at hs
  obtain ⟨old, hold, hg, hentering, hstart, hexits⟩ := hs
  have hother : flip.entering.other = Parity.ofPhase old := by
    rw [hentering, hold]
    exact Parity.other_other _
  have hle : t.left old ≤ t.entered old := by
    have hcount := h.count old
    omega
  have hold' := hbound old
  have hiff : t.phaser.caughtUp flip = true ↔ t.left old = t.entered old := by
    unfold Phaser.caughtUp
    rw [beq_iff_eq, hother, hexits, hstart]
    exact Parity.epoch_inj _ (by omega) hold'
  rw [hiff]
  constructor
  · intro heq n hn
    by_cases hne : n = old
    · exact hne ▸ heq
    · exact hg n (by omega)
  · exact fun hall => hall old (by omega)

theorem Sound.poll {t : Traffic α} (h : t.Sound) (hbound : ∀ n, t.entered n < 2 ^ 63) :
    (t.act .poll).Sound := by
  unfold act
  cases hstage : t.stage with
  | waiting flip =>
    dsimp only
    split_ifs with hcaught
    · exact ⟨h.start, h.exits, h.count, h.pass, h.ahead, (h.caughtUp_iff hbound hstage).mp hcaught⟩
    · exact h
  | rest | chosen | cleared => exact h

/-- **Every step keeps the traffic sound**, as long as no phase runs out of epochs. -/
theorem Sound.act {t : Traffic α} (h : t.Sound) (hbound : ∀ n, t.entered n < 2 ^ 63)
    (step : TrafficStep α) : (t.act step).Sound := by
  cases step with
  | enter holder => exact h.enter holder
  | exit place =>
    cases hv : t.inside[place]? with
    | none =>
      have hact : t.act (.exit place) = t := by simp only [Traffic.act, hv]
      exact hact.symm ▸ h
    | some v => exact h.exit hbound hv
  | choose => exact h.choose (hbound _)
  | clear => exact h.clear
  | move => exact h.move
  | poll => exact h.poll hbound

theorem sound_run (steps : List (TrafficStep α)) (hbound : ∀ n, (run steps).entered n < 2 ^ 63) :
    (run steps).Sound := by
  induction steps using List.reverseRecOn with
  | nil => exact sound_empty
  | append_singleton steps step ih =>
    rw [run_concat] at hbound ⊢
    have hbefore : ∀ n, (run steps).entered n < 2 ^ 63 := fun n =>
      Nat.lt_of_le_of_lt ((run steps).entered_mono step n) (hbound n)
    exact (ih hbefore).act hbefore step

theorem entered_act_le (t : Traffic α) (step : TrafficStep α) (n : Nat) :
    (t.act step).entered n ≤ t.entered n + 1 := by
  cases step with
  | enter holder =>
    show countUp t.entered t.phase n ≤ t.entered n + 1
    by_cases hn : n = t.phase
    · subst hn
      exact Nat.le_of_eq (countUp_self ..)
    · rw [countUp_of_ne _ hn]
      exact Nat.le_succ _
  | exit | choose | clear | move | poll =>
    unfold Traffic.act
    dsimp only
    repeat' split
    all_goals exact Nat.le_succ _

/-- A phase has at most as many sections as there were steps. -/
theorem entered_run_le (steps : List (TrafficStep α)) (n : Nat) :
    (run steps).entered n ≤ steps.length := by
  induction steps using List.reverseRecOn with
  | nil => exact Nat.le_refl _
  | append_singleton steps step ih =>
    rw [run_concat, List.length_append]
    exact Nat.le_trans ((run steps).entered_act_le step n) (Nat.add_le_add_right ih 1)

/-- Ahead of the wait a flip leaves the open sections alone, and it waits after new ones have been moved. -/
theorem act_of_flip (t : Traffic α) {step : TrafficStep α}
    (hstep : step = .choose ∨ step = .clear ∨ step = .move) :
    (t.act step).inside = t.inside ∧ ∀ flip, (t.act step).stage = .waiting flip →
      t.stage = .waiting flip ∧ (t.act step).phase = t.phase ∨ (t.act step).phase = t.phase + 1 := by
  rcases hstep with rfl | rfl | rfl
  · unfold act
    dsimp only
    split
    · exact ⟨rfl, fun flip hflip => by cases hflip⟩
    · exact ⟨rfl, fun flip hflip => .inl ⟨hflip, rfl⟩⟩
  · unfold act
    dsimp only
    split
    · exact ⟨rfl, fun flip hflip => by cases hflip⟩
    · exact ⟨rfl, fun flip hflip => .inl ⟨hflip, rfl⟩⟩
  · unfold act
    dsimp only
    split
    · exact ⟨rfl, fun _ _ => .inr rfl⟩
    · exact ⟨rfl, fun flip hflip => .inl ⟨hflip, rfl⟩⟩

/-- With nobody inside a flip need not wait. -/
theorem Sound.exists_waiting_caughtUp {t : Traffic α} (h : t.Sound) (hbound : ∀ n, t.entered n < 2 ^ 63)
    (hrest : t.stage = .rest) (hnobody : t.inside = []) :
    ∃ flip, (((t.act .choose).act .clear).act .move).stage = .waiting flip ∧
      (((t.act .choose).act .clear).act .move).phaser.caughtUp flip = true := by
  have hsound : (((t.act .choose).act .clear).act .move).Sound := (h.choose (hbound _)).clear.move
  have hmoved : ((t.act .choose).act .clear).act .move =
      let swapped := (t.phaser.resetEnd t.phaser.nextPhase).swapStart t.phaser.nextPhase
      { t with phaser := swapped.2, stage := .waiting swapped.1, phase := t.phase + 1 } := by
    simp only [Traffic.act, hrest]
  rw [hmoved] at hsound ⊢
  refine ⟨_, rfl, (hsound.caughtUp_iff hbound rfl).mpr fun n _ => ?_⟩
  have hcount := hsound.count n
  rw [hnobody] at hcount
  exact hcount

/-! ### What a flip waits for -/

/-- **A flip waits for the old sections and for nobody else.**  Writers enter and leave in any order, and
flips follow each other, their steps taken at any time in between.
* The condition that is polled holds exactly if no section is open that was entered before new sections
  were moved.
* When no flip waits, so in particular when one has returned, all open sections are of the current phase.
* Leaving a section raises the exit counter of its own phase, and no other.
* The counters of the current phase and of a phase that is waited for stand at the number of their exits.
  The counter that a flip resets is neither of these, and no open section will use it. -/
theorem flip_waits_for_old (steps : List (TrafficStep α))
    (hbound : ∀ n, (run steps).entered n < 2 ^ 63) :
    let t := run steps
    (∀ flip, t.stage = .waiting flip →
      (t.phaser.caughtUp flip = true ↔ ∀ v ∈ t.inside, ¬ v.phase < t.phase)) ∧
    ((∀ flip, t.stage ≠ .waiting flip) → ∀ v ∈ t.inside, v.phase = t.phase) ∧
    (∀ v ∈ t.inside,
      (t.phaser.exit v.pass).endOf (Parity.ofPhase v.phase) =
        t.phaser.endOf (Parity.ofPhase v.phase) + 1 ∧
      ∀ other ≠ Parity.ofPhase v.phase, (t.phaser.exit v.pass).endOf other = t.phaser.endOf other) ∧
    t.phaser.endOf (Parity.ofPhase t.phase) = (Parity.ofPhase t.phase).epoch (t.left t.phase) ∧
    (∀ flip, t.stage = .waiting flip → ∃ old, t.phase = old + 1 ∧ flip.entering.other = Parity.ofPhase old ∧
      t.phaser.endOf (Parity.ofPhase old) = (Parity.ofPhase old).epoch (t.left old)) ∧
    ∀ entering, t.stage = .chosen entering →
      (t.phaser.resetEnd entering).endOf (Parity.ofPhase t.phase) =
        t.phaser.endOf (Parity.ofPhase t.phase) ∧
      ∀ v ∈ t.inside, Parity.ofEpoch v.pass.epoch ≠ entering := by
  intro t
  have h : t.Sound := sound_run steps hbound
  have hrest : (∀ flip, t.stage ≠ .waiting flip) → ∀ v ∈ t.inside, v.phase = t.phase :=
    fun hstage v hv => Nat.le_antisymm (h.phase_le hv) (h.le_of_gone hv (h.gone hstage))
  refine ⟨fun flip hstage => ?_, hrest, fun v hv => ?_, h.exits, fun flip hstage => ?_,
    fun entering hstage => ?_⟩
  · rw [h.caughtUp_iff hbound hstage]
    constructor
    · intro hg v hv
      exact Nat.not_lt.mpr (h.le_of_gone hv hg)
    · intro hnone n hn
      have hcount := h.count n
      have hzero : t.inside.countP (·.phase = n) = 0 :=
        List.countP_eq_zero.mpr fun v hv hvn => hnone v hv (by
          rw [of_decide_eq_true hvn]
          exact hn)
      omega
  · have hparity := h.ofEpoch_pass hv (hbound _)
    exact ⟨Phaser.endOf_exit_self _ hparity, fun other hne => Phaser.endOf_exit_of_ne _ hparity hne⟩
  · have hs := h.stage
    rw [hstage] at hs
    obtain ⟨old, hold, -, hentering, -, hexits⟩ := hs
    refine ⟨old, hold, ?_, hexits⟩
    rw [hentering, hold]
    exact Parity.other_other _
  · have hs := h.stage
    rw [hstage] at hs
    obtain ⟨-, rfl⟩ := hs
    refine ⟨Phaser.endOf_setEnd_of_ne _ _ (Parity.ofPhase_succ_ne _), fun v hv => ?_⟩
    have hcur := hrest (fun flip hflip => by rw [hstage] at hflip; cases hflip) v hv
    rw [h.ofEpoch_pass hv (hbound _), hcur]
    exact (Parity.ofPhase_succ_ne _).symm

/-- A writer that entered between two steps of the reader keeps the flip waiting; one that entered after
new sections were moved does not. -/
theorem flip_waits_for_old_between :
    let before : List (TrafficStep Nat) := [.enter 1, .choose, .enter 2, .clear, .move, .enter 3, .exit 0]
    let after := before ++ [.poll, .exit 0]
    let flip : Flip := ⟨.odd, 2⟩
    (∀ n, (run before).entered n < 2 ^ 63) ∧ (∀ n, (run after).entered n < 2 ^ 63) ∧
      (run before).stage = .waiting flip ∧ (run after).stage = .waiting flip ∧
      (run before).phaser.caughtUp flip = false ∧ (run after).phaser.caughtUp flip = true := by
  intro before after flip
  have hbefore : ∀ n, (run before).entered n < 2 ^ 63 := fun n =>
    Nat.lt_of_le_of_lt (entered_run_le before n) (by decide)
  have hafter : ∀ n, (run after).entered n < 2 ^ 63 := fun n =>
    Nat.lt_of_le_of_lt (entered_run_le after n) (by decide)
  have hstage : (run before).stage = .waiting flip := by decide
  have hstage' : (run after).stage = .waiting flip := by decide
  refine ⟨hbefore, hafter, hstage, hstage', ?_, ?_⟩
  · rw [Bool.eq_false_iff]
    intro hcaught
    have hnone := ((flip_waits_for_old before hbefore).1 flip hstage).mp hcaught
    exact hnone ⟨2, ⟨1⟩, 0⟩ (by decide) (by decide)
  · exact ((flip_waits_for_old after hafter).1 flip hstage').mpr (by decide)

end Traffic

end WindowedMetrics
