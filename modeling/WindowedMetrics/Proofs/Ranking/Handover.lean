import WindowedMetrics.Proofs.Phaser.Traffic
import WindowedMetrics.Proofs.Ranking.Offers
import WindowedMetrics.Proofs.Ranking.Recording

/-!
# Handing intervals over

Many writers update a recorder while one reader after the other takes an interval, a step at a time and in
any order (`Handover.act`).  A writer enters a section of the phaser, loads which side is active, applies
its update to that side and leaves; a reader switches sides, flips the phaser and moves out what the retired
side has collected.

* Updates are numbered.  `Handover.filling` lists those that have landed in each ranking since it was
  emptied, `Handover.handed` those of each interval.
* `Handover.AtCall` says which writers may still have the retired side in hand: until the flip has moved new
  sections any of them, then only those of older sections, and nobody once it has returned.
* So intervals partition the updates (`Handover.intervals_partition_updates`).
-/

namespace WindowedMetrics

/-! ### Steps -/

/-- How far a writer has come with its update. -/
inductive Progress (I : Type) where
  | away
  /-- Its section is open. -/
  | entered (p : Position I)
  /-- It has looked which side is active. -/
  | loaded (p : Position I) (side : Side)
  /-- It has applied the update to that side. -/
  | applied (p : Position I) (side : Side)
  /-- It has left its section. -/
  | done (p : Position I)
  deriving DecidableEq

namespace Progress

variable {I : Type}

/-- The side that the writer has in hand. -/
def side? : Progress I → Option Side
  | .loaded _ side | .applied _ side => some side
  | _ => none

/-- What has been applied. -/
def landed? : Progress I → Option (Position I)
  | .applied p _ | .done p => some p
  | _ => none

end Progress

/-- How far a reader has come with taking an interval, the side it retires, and the updates completed when
it switched sides. -/
inductive Call where
  | idle
  /-- It has switched sides, and flips the phaser. -/
  | switched (retired : Side) (completed : List Nat)
  /-- The flip has returned. -/
  | flipped (retired : Side) (completed : List Nat)
  deriving DecidableEq

/-- The updates completed when the call under way started. -/
def Call.completed? : Call → Option (List Nat)
  | .idle => none
  | .switched _ completed | .flipped _ completed => some completed

/-- A returned interval: the updates that landed in it, in their order, and those completed when the reader
switched sides. -/
structure Handed (I : Type) where
  interval : Interval I
  updates : List (Nat × Position I)
  completed : List Nat
  deriving DecidableEq

/-- A recorder with the writers and the reader that are at it. -/
structure Handover (I : Type) where
  recorder : Recorder I
  /-- The sections of the writers, who are known by the numbers of their updates. -/
  traffic : Traffic Nat := {}
  progress : Nat → Progress I := fun _ => .away
  /-- How many updates have been begun. -/
  issued : Nat := 0
  call : Call := .idle
  /-- What has landed in each ranking since it was emptied. -/
  filling : Twin (List (Nat × Position I)) := ⟨[], []⟩
  /-- The updates that are completed. -/
  completed : List Nat := []
  handed : List (Handed I) := []

/-- A step of a writer or of the reader.  Writers inside are named by their place. -/
inductive HandoverStep (I : Type) where
  | enter (p : Position I)
  | load (place : Nat)
  | apply (place : Nat)
  | leave (place : Nat)
  /-- Switch sides. -/
  | store
  | choose
  | clear
  | move
  | poll
  /-- Move out what the retired side has collected. -/
  | swap (recycled : Option (Interval I))

namespace Handover

variable {I : Type} [DecidableEq I]

omit [DecidableEq I] in
def setProgress (h : Handover I) (number : Nat) (progress : Progress I) : Handover I :=
  { h with progress := Function.update h.progress number progress }

omit [DecidableEq I] in
/-- A step of the flip that a reader is at. -/
def flip (h : Handover I) (step : TrafficStep Nat) : Handover I :=
  match h.call with
  | .switched _ _ => { h with traffic := h.traffic.act step }
  | _ => h

omit [DecidableEq I] in
/-- The reader looks whether the old sections have been left. -/
def poll (h : Handover I) : Handover I :=
  match h.call, h.traffic.stage with
  | .switched retired completed, .waiting flip =>
    if h.traffic.phaser.caughtUp flip then
      { h with traffic := h.traffic.act .poll, call := .flipped retired completed }
    else h
  | _, _ => h

/-- Apply an update to a side. -/
def land (h : Handover I) (number : Nat) (p : Position I) (side : Side) : Handover I :=
  { h with
    recorder :=
      h.recorder.setRanking side ((h.recorder.rankings.get side).update p.weight p.identity).value
    filling := h.filling.set side (h.filling.get side ++ [(number, p)])
    progress := Function.update h.progress number (.applied p side) }

/-- Move out what a side has collected. -/
def handOut (h : Handover I) (retired : Side) (completed : List Nat) (recycled : Option (Interval I)) :
    Handover I :=
  let out := ((h.recorder.rankings.get retired).exchange (h.recorder.emptied recycled)).value
  { h with
    recorder := h.recorder.setRanking retired out.2
    call := .idle
    filling := h.filling.set retired []
    handed := h.handed ++ [⟨⟨out.1⟩, h.filling.get retired, completed⟩] }

/-- A step is taken; one that its owner cannot take does nothing. -/
def act (h : Handover I) : HandoverStep I → Handover I
  | .enter p =>
    { h.setProgress h.issued (.entered p) with
      traffic := h.traffic.act (.enter h.issued)
      issued := h.issued + 1 }
  | .load place =>
    match h.traffic.inside[place]? with
    | some v =>
      match h.progress v.holder with
      | .entered p => h.setProgress v.holder (.loaded p h.recorder.active)
      | _ => h
    | none => h
  | .apply place =>
    match h.traffic.inside[place]? with
    | some v =>
      match h.progress v.holder with
      | .loaded p side => h.land v.holder p side
      | _ => h
    | none => h
  | .leave place =>
    match h.traffic.inside[place]? with
    | some v =>
      match h.progress v.holder with
      | .applied p _ =>
        { h.setProgress v.holder (.done p) with
          traffic := h.traffic.act (.exit place)
          completed := h.completed ++ [v.holder] }
      | _ => h
    | none => h
  | .store =>
    match h.call with
    | .idle =>
      { h with
        recorder := { h.recorder with active := h.recorder.active.other }
        call := .switched h.recorder.active h.completed }
    | _ => h
  | .choose => h.flip .choose
  | .clear => h.flip .clear
  | .move => h.flip .move
  | .poll => h.poll
  | .swap recycled =>
    match h.call with
    | .flipped retired completed => h.handOut retired completed recycled
    | _ => h

def run (r : Recorder I) (steps : List (HandoverStep I)) : Handover I :=
  steps.foldl act { recorder := r }

theorem run_concat (r : Recorder I) (steps : List (HandoverStep I)) (step : HandoverStep I) :
    run r (steps ++ [step]) = (run r steps).act step := by
  simp [run]

omit [DecidableEq I] in
/-- The updates of intervals. -/
def updatesOf (handed : List (Handed I)) : List (Nat × Position I) := handed.flatMap (·.updates)

omit [DecidableEq I] in
/-- The updates that have landed in an interval or a ranking. -/
def landed (h : Handover I) : List (Nat × Position I) :=
  updatesOf h.handed ++ h.filling.first ++ h.filling.second

omit [DecidableEq I] in
theorem landed_perm (h : Handover I) (side : Side) :
    h.landed.Perm (updatesOf h.handed ++ h.filling.get side ++ h.filling.get side.other) := by
  cases side with
  | first => exact .refl _
  | second =>
    unfold landed
    rw [List.append_assoc, List.append_assoc]
    exact List.perm_append_comm.append_left _

omit [DecidableEq I] in
theorem updatesOf_concat (handed : List (Handed I)) (x : Handed I) :
    updatesOf (handed ++ [x]) = updatesOf handed ++ x.updates := by
  simp [updatesOf]

theorem landed_land (h : Handover I) (number : Nat) (p : Position I) (side : Side) :
    (h.land number p side).landed.Perm ((number, p) :: h.landed) := by
  refine ((h.land number p side).landed_perm side).trans ?_
  refine List.Perm.trans ?_ ((h.landed_perm side).cons _).symm
  show (updatesOf h.handed ++ (h.filling.set side _).get side ++
    (h.filling.set side _).get side.other).Perm _
  rw [Twin.get_set_self, Twin.get_set_other, ← List.append_assoc, List.append_assoc _ [_]]
  exact List.perm_middle

/-- Moving out leaves all that has landed where one finds it. -/
theorem landed_handOut (h : Handover I) (retired : Side) (completed : List Nat)
    (recycled : Option (Interval I)) : (h.handOut retired completed recycled).landed.Perm h.landed := by
  refine (landed_perm _ retired).trans (.trans ?_ (h.landed_perm retired).symm)
  show (updatesOf (h.handed ++ [_]) ++ (h.filling.set retired []).get retired ++
    (h.filling.set retired []).get retired.other).Perm _
  rw [Twin.get_set_self, Twin.get_set_other, updatesOf_concat, List.append_nil]

/-! ### What every step keeps -/

/-- The ranking of updates. -/
def rankingOf (settings : RankingSettings) (updates : List (Nat × Position I)) : Ranking I :=
  (Ranking.blank settings.capacity settings.threshold).addAll (updates.map Prod.snd)

/-- What a side holds may be replaced together with what has landed there. -/
theorem holds_set {settings : RankingSettings} {rankings : Twin (SharedRanking I)}
    {filling : Twin (List (Nat × Position I))}
    (h : ∀ side, (rankings.get side).Holds (rankingOf settings (filling.get side))) (side : Side)
    {ranking : SharedRanking I} {updates : List (Nat × Position I)}
    (hranking : ranking.Holds (rankingOf settings updates)) (other : Side) :
    ((rankings.set side ranking).get other).Holds
      (rankingOf settings ((filling.set side updates).get other)) := by
  rcases side.eq_or_eq_other other with rfl | rfl
  · rw [Twin.get_set_self, Twin.get_set_self]
    exact hranking
  · rw [Twin.get_set_other, Twin.get_set_other]
    exact h _

omit [DecidableEq I] in
/-- Who may have which side in hand, and where the completed updates are. -/
def AtCall (h : Handover I) : Call → Prop
  | .idle => h.traffic.stage = .rest ∧ h.filling.get h.recorder.active.other = [] ∧
      ∀ v ∈ h.traffic.inside, ∀ side, (h.progress v.holder).side? = some side → side = h.recorder.active
  | .switched retired completed => h.recorder.active = retired.other ∧
      (∀ n ∈ completed, n ∈ (updatesOf h.handed ++ h.filling.get retired).map Prod.fst) ∧
      -- before new sections are moved anybody may have it; later sections look at the other side
      ∀ v ∈ h.traffic.inside, (h.progress v.holder).side? = some retired →
        ∀ flip, h.traffic.stage = .waiting flip → v.phase < h.traffic.phase
  | .flipped retired completed => h.recorder.active = retired.other ∧
      (∀ n ∈ completed, n ∈ (updatesOf h.handed ++ h.filling.get retired).map Prod.fst) ∧
      h.traffic.stage = .rest ∧ ∀ v ∈ h.traffic.inside, (h.progress v.holder).side? ≠ some retired

structure Sound (settings : RankingSettings) (h : Handover I) : Prop where
  traffic : h.traffic.Sound
  settings_eq : h.recorder.settings = settings
  holds : ∀ side, (h.recorder.rankings.get side).Holds (rankingOf settings (h.filling.get side))
  handed : ∀ x ∈ h.handed, x.interval.ranking = rankingOf settings x.updates
  fresh : ∀ n, h.issued ≤ n → h.progress n = .away
  nodup : (h.landed.map Prod.fst).Nodup
  landed : ∀ n p, (n, p) ∈ h.landed ↔ (h.progress n).landed? = some p
  completed : ∀ n, n ∈ h.completed ↔ ∃ p, h.progress n = .done p
  /-- Nobody has a side in hand without a section. -/
  inside : ∀ n, (h.progress n).side? ≠ none → ∃ v ∈ h.traffic.inside, v.holder = n
  timely : ∀ earlier x, earlier ++ [x] <+: h.handed →
    ∀ n ∈ x.completed, n ∈ (updatesOf (earlier ++ [x])).map Prod.fst
  call : h.AtCall h.call

variable {settings : RankingSettings} {h : Handover I}

theorem sound_create {r : Recorder I} (hr : Recorder.create settings = .ok r) :
    Sound settings { recorder := r } := by
  have hholds := Recorder.holds_create hr
  have hactive : r.active = .first := by
    obtain ⟨first, hfirst, hrest⟩ := exists_ok_of_bind hr
    obtain ⟨second, hsecond, hrest⟩ := exists_ok_of_bind hrest
    obtain rfl := Except.ok.inj hrest
    rfl
  refine ⟨Traffic.sound_empty, hholds.settings_eq, ?_, by simp, fun _ _ => rfl, .nil, ?_, by simp, ?_, ?_,
    ?_⟩
  · intro side
    have h1 := hholds.active
    have h2 := hholds.inactive
    rw [hactive] at h1 h2
    cases side with
    | first => exact h1
    | second => exact h2
  · intro n p
    simp [Handover.landed, updatesOf, Progress.landed?]
  · intro n hn
    exact absurd rfl hn
  · intro earlier x hprefix
    simp at hprefix
  · exact ⟨rfl, by cases r.active <;> rfl, by simp⟩

/-- The traffic and the call matter to each other only. -/
theorem Sound.of_call (hs : h.Sound settings) {traffic : Traffic Nat} {call : Call} (ht : traffic.Sound)
    (hinside : traffic.inside = h.traffic.inside)
    (hc : ({ h with traffic, call } : Handover I).AtCall call) :
    ({ h with traffic, call } : Handover I).Sound settings :=
  ⟨ht, hs.settings_eq, hs.holds, hs.handed, hs.fresh, hs.nodup, hs.landed, hs.completed,
    hinside ▸ hs.inside, hs.timely, hc⟩

theorem Sound.landed_of_completed (hs : h.Sound settings) {n : Nat} (hn : n ∈ h.completed) :
    n ∈ h.landed.map Prod.fst := by
  obtain ⟨p, hp⟩ := (hs.completed n).mp hn
  exact List.mem_map_of_mem ((hs.landed n p).mpr (by rw [hp]; rfl))

omit [DecidableEq I] in
/-- Where writers have no other sides in hand than they had or the active one, the call goes on as it was. -/
theorem AtCall.of_side (hc : h.AtCall h.call) {k : Handover I} (hcall : k.call = h.call)
    (hrecorder : k.recorder.active = h.recorder.active)
    (hidle : h.call = .idle →
      k.filling.get h.recorder.active.other = h.filling.get h.recorder.active.other)
    (hgrown : ∀ side, h.filling.get side ⊆ k.filling.get side) (hhanded : k.handed = h.handed)
    (hstage : k.traffic.stage = h.traffic.stage)
    (hphase : k.traffic.phase = h.traffic.phase)
    (hside : ∀ v ∈ k.traffic.inside, ∀ side, (k.progress v.holder).side? = some side →
      side = h.recorder.active ∨ v ∈ h.traffic.inside ∧ (h.progress v.holder).side? = some side) :
    k.AtCall k.call := by
  have hother : ∀ {retired : Side}, h.recorder.active = retired.other → retired ≠ h.recorder.active := by
    intro retired hactive heq
    exact retired.other_ne (hactive.symm.trans heq.symm)
  have hcompleted : ∀ retired, ∀ n ∈ (updatesOf h.handed ++ h.filling.get retired).map Prod.fst,
      n ∈ (updatesOf k.handed ++ k.filling.get retired).map Prod.fst := by
    intro retired n hn
    rw [hhanded]
    exact List.map_subset _ (List.append_subset.mpr ⟨List.subset_append_left .., fun x hx =>
      List.mem_append_right _ (hgrown retired hx)⟩) hn
  rw [hcall]
  cases hcase : h.call with
  | idle =>
    rw [hcase] at hc
    obtain ⟨hrest, hempty, hactive⟩ := hc
    refine ⟨hstage.trans hrest, ?_, fun v hv side hs => ?_⟩
    · rw [hrecorder, hidle hcase]
      exact hempty
    · rw [hrecorder]
      rcases hside v hv side hs with heq | ⟨hmem, hs⟩
      · exact heq
      · exact hactive v hmem side hs
  | switched retired completed =>
    rw [hcase] at hc
    obtain ⟨hactive, hbefore, hold⟩ := hc
    refine ⟨hrecorder.trans hactive, fun n hn => hcompleted retired n (hbefore n hn),
      fun v hv hs flip hflip => ?_⟩
    · rw [hphase]
      rcases hside v hv retired hs with heq | ⟨hmem, hs⟩
      · exact absurd heq (hother hactive)
      · exact hold v hmem hs flip (hstage ▸ hflip)
  | flipped retired completed =>
    rw [hcase] at hc
    obtain ⟨hactive, hbefore, hrest, hnobody⟩ := hc
    refine ⟨hrecorder.trans hactive, fun n hn => hcompleted retired n (hbefore n hn), hstage.trans hrest,
      fun v hv hs => ?_⟩
    · rcases hside v hv retired hs with heq | ⟨hmem, hs⟩
      · exact hother hactive heq
      · exact hnobody v hmem hs

/-! ### Writers -/

omit [DecidableEq I] in
theorem progress_setProgress (h : Handover I) (number : Nat) (progress : Progress I) (n : Nat) :
    (h.setProgress number progress).progress n = if n = number then progress else h.progress n :=
  Function.update_apply ..

/-- A writer that has begun may come further. -/
theorem Sound.fresh_setProgress (hs : h.Sound settings) {number : Nat} (hbegun : h.progress number ≠ .away)
    (progress : Progress I) :
    ∀ n, h.issued ≤ n → (h.setProgress number progress).progress n = .away := by
  intro n hn
  rw [progress_setProgress, if_neg]
  · exact hs.fresh n hn
  · rintro rfl
    exact hbegun (hs.fresh _ hn)

theorem Sound.landed_setProgress (hs : h.Sound settings) {number : Nat} {progress : Progress I}
    (hsame : progress.landed? = (h.progress number).landed?) :
    ∀ n p, (n, p) ∈ h.landed ↔ ((h.setProgress number progress).progress n).landed? = some p := by
  intro n p
  refine (hs.landed n p).trans ?_
  rw [progress_setProgress]
  split
  · rename_i hn
    rw [hn, hsame]
  · exact Iff.rfl

theorem Sound.completed_setProgress (hs : h.Sound settings) {number : Nat} {progress : Progress I}
    (hbefore : ∀ p, h.progress number ≠ .done p) (hafter : ∀ p, progress ≠ .done p) :
    ∀ n, n ∈ h.completed ↔ ∃ p, (h.setProgress number progress).progress n = .done p := by
  intro n
  rw [hs.completed, progress_setProgress]
  split
  · rename_i hn
    subst hn
    exact ⟨fun ⟨p, hp⟩ => absurd hp (hbefore p), fun ⟨p, hp⟩ => absurd hp (hafter p)⟩
  · exact Iff.rfl

/-- A writer inside may come further. -/
theorem Sound.inside_setProgress (hs : h.Sound settings) {v : Visit Nat} (hv : v ∈ h.traffic.inside)
    (progress : Progress I) :
    ∀ n, ((h.setProgress v.holder progress).progress n).side? ≠ none →
      ∃ w ∈ h.traffic.inside, w.holder = n := by
  intro n hn
  rw [progress_setProgress] at hn
  split at hn
  · rename_i heq
    exact ⟨v, hv, heq.symm⟩
  · exact hs.inside n hn

theorem Sound.enter (hs : h.Sound settings) (p : Position I) : (h.act (.enter p)).Sound settings := by
  have haway : h.progress h.issued = .away := hs.fresh _ (Nat.le_refl _)
  have hprogress := h.progress_setProgress h.issued (.entered p)
  refine ⟨hs.traffic.enter h.issued, hs.settings_eq, hs.holds, hs.handed, ?_, hs.nodup,
    hs.landed_setProgress (by rw [haway]; rfl), hs.completed_setProgress (by simp [haway]) (by simp), ?_,
    hs.timely, ?_⟩
  · intro n hn
    refine (hprogress n).trans ?_
    rw [if_neg (by rintro rfl; exact absurd hn (Nat.not_succ_le_self _))]
    exact hs.fresh n (Nat.le_of_succ_le hn)
  · intro n hn
    have hn' : ((h.setProgress h.issued (.entered p)).progress n).side? ≠ none := hn
    rw [hprogress] at hn'
    split at hn'
    · exact absurd rfl hn'
    · obtain ⟨v, hv, hn⟩ := hs.inside n hn'
      exact ⟨v, List.mem_append_left _ hv, hn⟩
  · refine hs.call.of_side rfl rfl (fun _ => rfl) (fun _ => List.Subset.refl _) rfl rfl rfl
      fun v hv side hside => ?_
    have hside' : ((h.setProgress h.issued (.entered p)).progress v.holder).side? = some side := hside
    rw [hprogress] at hside'
    split at hside'
    · cases hside'
    · rename_i hne
      rcases List.mem_append.mp hv with hv | hv
      · exact Or.inr ⟨hv, hside'⟩
      · rw [List.mem_singleton.mp hv] at hne
        exact absurd rfl hne

theorem Sound.load (hs : h.Sound settings) (place : Nat) : (h.act (.load place)).Sound settings := by
  unfold act
  dsimp only
  split
  · rename_i v hv
    split
    · rename_i p hp
      refine ⟨hs.traffic, hs.settings_eq, hs.holds, hs.handed, hs.fresh_setProgress (by simp [hp]) _,
        hs.nodup, hs.landed_setProgress (by rw [hp]; rfl),
        hs.completed_setProgress (by simp [hp]) (by simp),
        hs.inside_setProgress (List.mem_of_getElem? hv) _, hs.timely, ?_⟩
      refine hs.call.of_side rfl rfl (fun _ => rfl) (fun _ => List.Subset.refl _) rfl rfl rfl
        fun w hw side hside => ?_
      rw [progress_setProgress] at hside
      split at hside
      · cases hside
        exact Or.inl rfl
      · exact Or.inr ⟨hw, hside⟩
    · exact hs
  · exact hs

theorem Sound.leave (hs : h.Sound settings) (hbound : ∀ n, h.traffic.entered n < 2 ^ 63) (place : Nat) :
    (h.act (.leave place)).Sound settings := by
  unfold act
  dsimp only
  split
  · rename_i v hv
    split
    · rename_i p side hp
      have hexit := Traffic.act_exit hv
      refine ⟨hs.traffic.exit hbound hv, hs.settings_eq, hs.holds, hs.handed,
        hs.fresh_setProgress (by simp [hp]) _, hs.nodup, hs.landed_setProgress (by rw [hp]; rfl), ?_, ?_,
        hs.timely, ?_⟩
      · intro n
        show _ ↔ ∃ q, (h.setProgress v.holder (.done p)).progress n = .done q
        rw [List.mem_append, hs.completed, List.mem_singleton, progress_setProgress]
        split
        · rename_i hn
          exact ⟨fun _ => ⟨p, rfl⟩, fun _ => Or.inr hn⟩
        · rename_i hn
          rw [or_iff_left hn]
      · intro n hn
        have hn' : ((h.setProgress v.holder (.done p)).progress n).side? ≠ none := hn
        rw [progress_setProgress] at hn'
        split at hn'
        · exact absurd rfl hn'
        · rename_i hne
          obtain ⟨w, hw, hwn⟩ := hs.inside n hn'
          rw [hexit]
          obtain ⟨i, hi⟩ := List.mem_iff_getElem?.mp hw
          refine ⟨w, List.mem_eraseIdx_iff_getElem?.mpr ⟨i, ?_, hi⟩, hwn⟩
          rintro rfl
          rw [Option.some.inj (hv.symm.trans hi)] at hne
          exact hne hwn.symm
      · refine hs.call.of_side rfl rfl (fun _ => rfl) (fun _ => List.Subset.refl _) rfl
          (by rw [hexit]) (by rw [hexit]) fun w hw side hside => ?_
        have hside' : ((h.setProgress v.holder (.done p)).progress w.holder).side? = some side := hside
        have hmem : w ∈ h.traffic.inside := by
          rw [hexit] at hw
          exact List.mem_of_mem_eraseIdx hw
        rw [progress_setProgress] at hside'
        split at hside'
        · cases hside'
        · exact Or.inr ⟨hmem, hside'⟩
    · exact hs
  · exact hs

theorem Sound.not_mem_landed (hs : h.Sound settings) {n : Nat} (hn : (h.progress n).landed? = none) :
    n ∉ h.landed.map Prod.fst := by
  intro hmem
  obtain ⟨⟨m, q⟩, hq, rfl⟩ := List.mem_map.mp hmem
  rw [(hs.landed m q).mp hq] at hn
  cases hn

/-- **An update lands in one ranking**, behind those that have landed there. -/
theorem Sound.land (hs : h.Sound settings) {v : Visit Nat} (hv : v ∈ h.traffic.inside) {p : Position I}
    {side : Side} (hp : h.progress v.holder = .loaded p side) :
    (h.land v.holder p side).Sound settings := by
  have hupdate : ((h.recorder.rankings.get side).update p.weight p.identity).value.Holds
      (rankingOf settings (h.filling.get side ++ [(v.holder, p)])) := by
    have hascending : Ascending (rankingOf settings (h.filling.get side)).positions :=
      Ranking.ascending_addAll (r := Ranking.blank settings.capacity settings.threshold) List.Pairwise.nil _
    have hholds := (hs.holds side).update hascending p.weight p.identity
    rw [rankingOf, List.map_append, List.map_singleton, Ranking.addAll_concat]
    exact hholds
  have hlanded := h.landed_land v.holder p side
  have hnot : v.holder ∉ h.landed.map Prod.fst := hs.not_mem_landed (by rw [hp]; rfl)
  refine ⟨hs.traffic, hs.settings_eq, holds_set hs.holds side hupdate, hs.handed,
    hs.fresh_setProgress (by simp [hp]) _, ?_, ?_, hs.completed_setProgress (by simp [hp]) (by simp),
    hs.inside_setProgress hv _, hs.timely, ?_⟩
  · rw [(hlanded.map Prod.fst).nodup_iff]
    exact List.nodup_cons.mpr ⟨hnot, hs.nodup⟩
  · intro n q
    show _ ↔ ((h.setProgress v.holder (.applied p side)).progress n).landed? = some q
    rw [hlanded.mem_iff, List.mem_cons, progress_setProgress]
    split
    · rename_i hn
      subst hn
      constructor
      · rintro (heq | hmem)
        · cases heq
          rfl
        · exact absurd (List.mem_map_of_mem (f := Prod.fst) hmem) hnot
      · intro heq
        cases heq
        exact Or.inl rfl
    · rename_i hn
      rw [← hs.landed n q]
      constructor
      · rintro (heq | hmem)
        · cases heq
          exact absurd rfl hn
        · exact hmem
      · exact Or.inr
  · refine hs.call.of_side rfl rfl ?_ ?_ rfl rfl rfl fun w hw s hside => Or.inr ⟨hw, ?_⟩
    · intro hidle
      have hc := hs.call
      rw [hidle] at hc
      obtain rfl := hc.2.2 v hv side (by rw [hp]; rfl)
      exact Twin.get_set_other ..
    · intro other
      rcases side.eq_or_eq_other other with rfl | rfl
      · show _ ⊆ (h.filling.set other _).get other
        rw [Twin.get_set_self]
        exact List.subset_append_left ..
      · show _ ⊆ (h.filling.set side _).get side.other
        rw [Twin.get_set_other]
        exact List.Subset.refl _
    · have hside' : ((h.setProgress v.holder (.applied p side)).progress w.holder).side? = some s := hside
      rw [progress_setProgress] at hside'
      split at hside'
      · rename_i hn
        rw [hn, hp]
        exact hside'
      · exact hside'

theorem Sound.apply (hs : h.Sound settings) (place : Nat) : (h.act (.apply place)).Sound settings := by
  unfold act
  dsimp only
  split
  · rename_i v hv
    split
    · rename_i p side hp
      exact hs.land (List.mem_of_getElem? hv) hp
    · exact hs
  · exact hs

/-! ### The reader -/

theorem Sound.store (hs : h.Sound settings) : (h.act .store).Sound settings := by
  unfold act
  dsimp only
  split
  · rename_i hidle
    have hc := hs.call
    rw [hidle] at hc
    obtain ⟨hrest, hempty, hactive⟩ := hc
    refine ⟨hs.traffic, hs.settings_eq, hs.holds, hs.handed, hs.fresh, hs.nodup, hs.landed, hs.completed,
      hs.inside, hs.timely, rfl, fun n hn => ?_, fun v hv hside flip hflip => ?_⟩
    · have hmem := ((h.landed_perm h.recorder.active).map Prod.fst).mem_iff.mp (hs.landed_of_completed hn)
      rw [hempty, List.append_nil] at hmem
      exact hmem
    · rw [show h.traffic.stage = .rest from hrest] at hflip
      cases hflip
  · exact hs

/-- A step of the flip ahead of the wait. -/
theorem Sound.flip (hs : h.Sound settings) {step : TrafficStep Nat} (hsound : (h.traffic.act step).Sound)
    (hstep : step = .choose ∨ step = .clear ∨ step = .move) : (h.flip step).Sound settings := by
  obtain ⟨hinside, hwait⟩ := h.traffic.act_of_flip hstep
  unfold Handover.flip
  split
  · rename_i retired completed hcall
    have hc := hs.call
    rw [hcall] at hc
    obtain ⟨hactive, hbefore, hold⟩ := hc
    suffices hwaits : ({ h with traffic := h.traffic.act step } : Handover I).AtCall
        (.switched retired completed) by
      rw [← hcall] at hwaits
      exact hs.of_call hsound hinside hwaits
    · refine ⟨hactive, hbefore, ?_⟩
      intro v hv hside flip hflip
      have hv' : v ∈ h.traffic.inside := hinside ▸ hv
      show v.phase < (h.traffic.act step).phase
      rcases hwait flip hflip with ⟨hstage, hphase⟩ | hphase
      · rw [hphase]
        exact hold v hv' hside flip hstage
      · -- new sections are moved now, and everybody inside was there before
        rw [hphase]
        exact Nat.lt_succ_of_le (hs.traffic.phase_le hv')
  · exact hs

/-- **The flip returns once the retired side is in nobody's hands**: who has it entered before new sections
were moved, and is waited for. -/
theorem Sound.poll (hs : h.Sound settings) (hbound : ∀ n, h.traffic.entered n < 2 ^ 63) :
    (h.act .poll).Sound settings := by
  show h.poll.Sound settings
  unfold Handover.poll
  split
  · rename_i retired completed flip hcall hstage
    split_ifs with hcaught
    · have hact : h.traffic.act .poll = { h.traffic with stage := .rest } := by
        simp only [Traffic.act, hstage, if_pos hcaught]
      have hgone := (hs.traffic.caughtUp_iff hbound hstage).mp hcaught
      have hc := hs.call
      rw [hcall] at hc
      obtain ⟨hactive, hbefore, hold⟩ := hc
      refine hs.of_call (hs.traffic.poll hbound) (by rw [hact]) ⟨hactive, hbefore, by rw [hact],
        fun v hv hside => ?_⟩
      have hv' : v ∈ h.traffic.inside := by
        rw [hact] at hv
        exact hv
      exact Nat.not_le.mpr (hold v hv' hside flip hstage) (hs.traffic.le_of_gone hv' hgone)
    · exact hs
  · exact hs

/-- **An interval is what has landed in the retired ranking**, which then is blank. -/
theorem Sound.handOut (hs : h.Sound settings) {retired : Side} {completed : List Nat}
    (hcall : h.call = .flipped retired completed) (recycled : Option (Interval I)) :
    (h.handOut retired completed recycled).Sound settings := by
  have hc := hs.call
  rw [hcall] at hc
  obtain ⟨hactive, hbefore, hrest, hnobody⟩ := hc
  obtain ⟨hgiven, hblank⟩ := (hs.holds retired).exchange (h.recorder.emptied recycled)
  have hempty : h.recorder.emptied recycled = rankingOf settings [] := by
    rw [Recorder.emptied_eq, hs.settings_eq]
    rfl
  have hlanded := h.landed_handOut retired completed recycled
  refine ⟨hs.traffic, hs.settings_eq, holds_set hs.holds retired (hempty ▸ hblank), ?_, hs.fresh, ?_, ?_,
    hs.completed, hs.inside, ?_, ?_⟩
  · intro x hx
    rcases List.mem_append.mp hx with hx | hx
    · exact hs.handed x hx
    · rw [List.mem_singleton.mp hx]
      exact hgiven
  · rw [(hlanded.map Prod.fst).nodup_iff]
    exact hs.nodup
  · intro n p
    rw [hlanded.mem_iff]
    exact hs.landed n p
  · intro earlier x hprefix
    rcases List.prefix_concat_iff.mp hprefix with heq | hprefix
    · obtain ⟨rfl, hx⟩ := List.append_inj' heq rfl
      obtain rfl := List.singleton_inj.mp hx
      intro n hn
      rw [updatesOf_concat]
      exact hbefore n hn
    · exact hs.timely earlier x hprefix
  · have hother : h.recorder.active.other = retired := by
      rw [hactive]
      exact Side.other_other _
    refine ⟨hrest, ?_, fun v hv side hside => ?_⟩
    · show (h.filling.set retired []).get h.recorder.active.other = []
      rw [hother]
      exact Twin.get_set_self ..
    · -- there are two sides, and nobody has the retired one
      show side = h.recorder.active
      rw [hactive]
      exact (retired.eq_or_eq_other side).resolve_left fun heq => hnobody v hv (heq ▸ hside)

/-! ### Runs -/

theorem Sound.act (hs : h.Sound settings) (hbound : ∀ n, h.traffic.entered n < 2 ^ 63)
    (step : HandoverStep I) : (h.act step).Sound settings := by
  cases step with
  | enter p => exact hs.enter p
  | load place => exact hs.load place
  | apply place => exact hs.apply place
  | leave place => exact hs.leave hbound place
  | store => exact hs.store
  | choose => exact hs.flip (hs.traffic.choose (hbound _)) (.inl rfl)
  | clear => exact hs.flip hs.traffic.clear (.inr (.inl rfl))
  | move => exact hs.flip hs.traffic.move (.inr (.inr rfl))
  | poll => exact hs.poll hbound
  | swap recycled =>
    unfold Handover.act
    dsimp only
    split
    · rename_i retired completed hcall
      exact hs.handOut hcall recycled
    · exact hs

omit [DecidableEq I] in
theorem traffic_flip (h : Handover I) (step : TrafficStep Nat) :
    (h.flip step).traffic = h.traffic ∨ ∃ s, (h.flip step).traffic = h.traffic.act s := by
  unfold flip
  split
  · exact .inr ⟨step, rfl⟩
  · exact .inl rfl

/-- A step uses the phaser once at most. -/
theorem traffic_act (h : Handover I) (step : HandoverStep I) :
    (h.act step).traffic = h.traffic ∨ ∃ s, (h.act step).traffic = h.traffic.act s := by
  cases step with
  | enter p => exact .inr ⟨.enter h.issued, rfl⟩
  | choose => exact h.traffic_flip .choose
  | clear => exact h.traffic_flip .clear
  | move => exact h.traffic_flip .move
  | poll =>
    unfold act poll
    dsimp only
    split
    · split
      · exact .inr ⟨.poll, rfl⟩
      · exact .inl rfl
    · exact .inl rfl
  | leave place =>
    unfold act
    dsimp only
    split
    · split
      · exact .inr ⟨.exit place, rfl⟩
      · exact .inl rfl
    · exact .inl rfl
  | load place | apply place =>
    unfold act
    dsimp only
    split
    · split <;> exact .inl rfl
    · exact .inl rfl
  | store | swap recycled =>
    unfold act
    dsimp only
    split <;> exact .inl rfl

theorem entered_mono (h : Handover I) (step : HandoverStep I) (n : Nat) :
    h.traffic.entered n ≤ (h.act step).traffic.entered n := by
  rcases h.traffic_act step with heq | ⟨s, heq⟩
  · rw [heq]
  · rw [heq]
    exact h.traffic.entered_mono s n

theorem entered_run_mono (r : Recorder I) (before after : List (HandoverStep I)) (n : Nat) :
    (run r before).traffic.entered n ≤ (run r (before ++ after)).traffic.entered n := by
  induction after using List.reverseRecOn with
  | nil => rw [List.append_nil]
  | append_singleton after step ih =>
    rw [← List.append_assoc, run_concat]
    exact Nat.le_trans ih ((run r (before ++ after)).entered_mono step n)

theorem entered_run_le {r : Recorder I} (steps : List (HandoverStep I)) (n : Nat) :
    (run r steps).traffic.entered n ≤ steps.length := by
  induction steps using List.reverseRecOn with
  | nil => exact Nat.le_refl _
  | append_singleton steps step ih =>
    rw [run_concat, List.length_append]
    rcases (run r steps).traffic_act step with heq | ⟨s, heq⟩
    · rw [heq]
      exact Nat.le_succ_of_le ih
    · rw [heq]
      exact Nat.le_trans ((run r steps).traffic.entered_act_le s n) (Nat.add_le_add_right ih 1)

theorem sound_run {r : Recorder I} (hr : Recorder.create settings = .ok r) (steps : List (HandoverStep I))
    (hbound : ∀ n, (run r steps).traffic.entered n < 2 ^ 63) : (run r steps).Sound settings := by
  induction steps using List.reverseRecOn with
  | nil => exact sound_create hr
  | append_singleton steps step ih =>
    rw [run_concat] at hbound ⊢
    have hbefore : ∀ n, (run r steps).traffic.entered n < 2 ^ 63 := fun n =>
      Nat.lt_of_le_of_lt ((run r steps).entered_mono step n) (hbound n)
    exact (ih hbefore).act hbefore step

end Handover

end WindowedMetrics
