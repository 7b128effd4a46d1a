import WindowedMetrics.Proofs.Ranking.Handover

/-!
# Intervals of a recorder

What the invariant of `Handover.Sound` says about the intervals that calls return: they partition the updates
(`Handover.intervals_partition_updates`).  Writers and calls whose steps are taken in a row are those of
recorders (`Handover.recorder_update`, `Handover.recorder_takeInterval`).
-/

namespace WindowedMetrics

namespace Handover

variable {I : Type} [DecidableEq I] {settings : RankingSettings} {h : Handover I}

/-! ### Calls and their steps in a row -/

theorem act_load {place : Nat} {v : Visit Nat} (hv : h.traffic.inside[place]? = some v) {p : Position I}
    (hp : h.progress v.holder = .entered p) :
    h.act (.load place) = h.setProgress v.holder (.loaded p h.recorder.active) := by
  simp only [act, hv, hp]

theorem act_apply {place : Nat} {v : Visit Nat} (hv : h.traffic.inside[place]? = some v) {p : Position I}
    {side : Side} (hp : h.progress v.holder = .loaded p side) :
    h.act (.apply place) = h.land v.holder p side := by
  simp only [act, hv, hp]

theorem act_leave {place : Nat} {v : Visit Nat} (hv : h.traffic.inside[place]? = some v) {p : Position I}
    {side : Side} (hp : h.progress v.holder = .applied p side) :
    h.act (.leave place) =
      { h.setProgress v.holder (.done p) with
        traffic := h.traffic.act (.exit place)
        completed := h.completed ++ [v.holder] } := by
  simp only [act, hv, hp]

theorem act_poll (h : Handover I) {retired : Side} {completed : List Nat}
    (hcall : h.call = .switched retired completed) {flip : Flip} (hstage : h.traffic.stage = .waiting flip)
    (hcaught : h.traffic.phaser.caughtUp flip = true) :
    h.act .poll = { h with traffic := h.traffic.act .poll, call := .flipped retired completed } := by
  simp only [act, poll, hcall, hstage, if_pos hcaught]

/-- A writer whose steps are taken in a row updates the recorder. -/
theorem recorder_update (h : Handover I) (p : Position I) :
    let place := h.traffic.inside.length
    ([.enter p, .load place, .apply place, .leave place].foldl act h).recorder =
      (h.recorder.update p.weight p.identity).value := by
  intro place
  let v : Visit Nat := ⟨h.issued, h.traffic.phaser.enter.1, h.traffic.phase⟩
  let entered := h.act (.enter p)
  let loaded := entered.setProgress h.issued (.loaded p h.recorder.active)
  let applied := loaded.land h.issued p h.recorder.active
  have hplace : entered.traffic.inside[place]? = some v := List.getElem?_concat_length ..
  have hload : entered.act (.load place) = loaded := act_load hplace (Function.update_self ..)
  have happly : loaded.act (.apply place) = applied :=
    act_apply (h := loaded) hplace (Function.update_self ..)
  have hleave := act_leave (h := applied) hplace (Function.update_self ..)
  show (((entered.act (.load place)).act (.apply place)).act (.leave place)).recorder = _
  rw [hload, happly, hleave]
  rfl

/-- A call whose steps are taken in a row while nobody is inside takes an interval of the recorder. -/
theorem recorder_takeInterval (hs : h.Sound settings) (hbound : ∀ n, h.traffic.entered n < 2 ^ 63)
    (hidle : h.call = .idle) (hnobody : h.traffic.inside = []) (recycled : Option (Interval I)) :
    let after := [.store, .choose, .clear, .move, .poll, .swap recycled].foldl act h
    let out := (h.recorder.takeInterval recycled).value
    after.recorder = out.2 ∧
      after.handed = h.handed ++ [⟨out.1, h.filling.get h.recorder.active, h.completed⟩] := by
  intro after out
  have hc := hs.call
  rw [hidle] at hc
  obtain ⟨flip, hwaiting, hcaught⟩ := hs.traffic.exists_waiting_caughtUp hbound hc.1 hnobody
  let switched : Handover I := { h with
    recorder := { h.recorder with active := h.recorder.active.other }
    traffic := ((h.traffic.act .choose).act .clear).act .move
    call := .switched h.recorder.active h.completed }
  have hswitched : [.store, .choose, .clear, .move].foldl act h = switched := by
    simp only [List.foldl_cons, List.foldl_nil, act, hidle, Handover.flip, switched]
  have hflipped := switched.act_poll rfl hwaiting hcaught
  show ((([.store, .choose, .clear, .move].foldl act h).act .poll).act (.swap recycled)).recorder = _ ∧
    ((([.store, .choose, .clear, .move].foldl act h).act .poll).act (.swap recycled)).handed = _
  rw [hswitched, hflipped]
  exact ⟨rfl, rfl⟩

/-! ### Intervals -/

/-- A step hands an interval over for the call that is under way, or that call goes on. -/
theorem handed_act (h : Handover I) (step : HandoverStep I) :
    (h.act step).handed = h.handed ∧ (h.call ≠ .idle → (h.act step).call.completed? = h.call.completed?) ∨
      ∃ x, (h.act step).handed = h.handed ++ [x] ∧ h.call.completed? = some x.completed := by
  cases step with
  | enter p => exact .inl ⟨rfl, fun _ => rfl⟩
  | load place | apply place | leave place =>
    unfold act
    dsimp only
    split
    · split <;> exact .inl ⟨rfl, fun _ => rfl⟩
    · exact .inl ⟨rfl, fun _ => rfl⟩
  | store =>
    unfold act
    dsimp only
    split
    · rename_i hidle
      exact .inl ⟨rfl, fun hne => absurd hidle hne⟩
    · exact .inl ⟨rfl, fun _ => rfl⟩
  | choose | clear | move =>
    unfold act Handover.flip
    dsimp only
    split <;> exact .inl ⟨rfl, fun _ => rfl⟩
  | poll =>
    unfold act Handover.poll
    dsimp only
    split
    · rename_i hcall _
      split
      · exact .inl ⟨rfl, fun _ => by rw [hcall]; rfl⟩
      · exact .inl ⟨rfl, fun _ => rfl⟩
    · exact .inl ⟨rfl, fun _ => rfl⟩
  | swap recycled =>
    unfold act
    dsimp only
    split
    · rename_i hcall
      exact .inr ⟨_, rfl, by rw [hcall]; rfl⟩
    · exact .inl ⟨rfl, fun _ => rfl⟩

/-- The next interval is that of the call under way. -/
theorem handed_foldl (h : Handover I) {completed : List Nat} (hcall : h.call.completed? = some completed)
    (steps : List (HandoverStep I)) :
    (steps.foldl act h).handed = h.handed ∧ (steps.foldl act h).call.completed? = some completed ∨
      ∃ x, h.handed ++ [x] <+: (steps.foldl act h).handed ∧ x.completed = completed := by
  induction steps using List.reverseRecOn with
  | nil => exact .inl ⟨rfl, hcall⟩
  | append_singleton steps step ih =>
    rw [List.foldl_concat]
    rcases ih with ⟨hhanded, hcall⟩ | ⟨x, hprefix, hx⟩
    · have hbusy : (steps.foldl act h).call ≠ .idle := by
        intro hidle
        rw [hidle] at hcall
        cases hcall
      rcases (steps.foldl act h).handed_act step with ⟨heq, hgoes⟩ | ⟨x, heq, hx⟩
      · exact .inl ⟨heq.trans hhanded, (hgoes hbusy).trans hcall⟩
      · rw [hhanded] at heq
        exact .inr ⟨x, heq ▸ List.prefix_refl _, Option.some.inj (hx.symm.trans hcall)⟩
    · refine .inr ⟨x, hprefix.trans ?_, hx⟩
      rcases (steps.foldl act h).handed_act step with ⟨heq, -⟩ | ⟨y, heq, -⟩
      · exact heq ▸ List.prefix_refl _
      · exact heq ▸ List.prefix_append ..

/-- **What was completed before a call started** is in the interval of that call or in an earlier one. -/
theorem mem_updatesOf_of_done {r : Recorder I} (hr : Recorder.create settings = .ok r)
    {before after : List (HandoverStep I)}
    (hbound : ∀ n, (run r (before ++ .store :: after)).traffic.entered n < 2 ^ 63)
    (hidle : (run r before).call = .idle) {x : Handed I}
    (hx : (run r before).handed ++ [x] <+: (run r (before ++ .store :: after)).handed) {n : Nat}
    {p : Position I} (hdone : (run r before).progress n = .done p) :
    n ∈ (updatesOf ((run r before).handed ++ [x])).map Prod.fst := by
  have hrun : run r (before ++ .store :: after) = after.foldl act ((run r before).act .store) := by
    simp [run]
  have hafter := sound_run hr _ hbound
  have hbefore := sound_run hr before fun k =>
    Nat.lt_of_le_of_lt (entered_run_mono r before (.store :: after) k) (hbound k)
  have hstore : (run r before).act .store =
      { run r before with
        recorder := { (run r before).recorder with active := (run r before).recorder.active.other }
        call := .switched (run r before).recorder.active (run r before).completed } := by
    simp only [act, hidle]
  have hcall : ((run r before).act .store).call.completed? = some (run r before).completed := by
    rw [hstore]
    rfl
  have hhanded : ((run r before).act .store).handed = (run r before).handed := by
    rw [hstore]
  rcases handed_foldl _ hcall after with ⟨hsame, -⟩ | ⟨y, hy, hcompleted⟩
  · rw [hrun, hsame, hhanded] at hx
    have hlength := hx.length_le
    rw [List.length_append] at hlength
    exact absurd hlength (Nat.not_succ_le_self _)
  · rw [← hrun, hhanded] at hy
    have hsame : (run r before).handed ++ [x] = (run r before).handed ++ [y] :=
      (List.prefix_of_prefix_length_le hx hy (by simp)).eq_of_length (by simp)
    obtain rfl := List.singleton_inj.mp (List.append_cancel_left hsame)
    refine hafter.timely _ x hx n ?_
    rw [hcompleted]
    exact (hbefore.completed n).mpr ⟨p, hdone⟩

/-- **Intervals partition the updates**, however the steps of writers and of readers are interleaved.
* Between the return of the flip and the swap no writer has the retired side in hand.
* An update lands once, in one interval or in a ranking that is being filled, and the rankings are those of
  the updates that have landed in them.
* Where a call starts and later returns an interval, that one or an earlier one has the updates that were
  completed when it started.
* An interval is the ranking of the updates that landed in it, in their order. -/
theorem intervals_partition_updates (hv : settings.validate = .ok ())
    (hp : settings.poolSize < Limits.poolSizeBound) :
    ∃ r : Recorder I, Recorder.create settings = .ok r ∧ ∀ steps : List (HandoverStep I),
      (∀ n, (run r steps).traffic.entered n < 2 ^ 63) →
      let h := run r steps
      (∀ retired completed, h.call = .flipped retired completed → ∀ n, (h.progress n).side? ≠ some retired) ∧
      (h.landed.map Prod.fst).Nodup ∧ (∀ n p, (n, p) ∈ h.landed ↔ (h.progress n).landed? = some p) ∧
      (∀ side, (h.recorder.rankings.get side).Holds (rankingOf settings (h.filling.get side))) ∧
      (∀ before after, steps = before ++ .store :: after → (run r before).call = .idle →
        ∀ x, (run r before).handed ++ [x] <+: h.handed → ∀ n p, (run r before).progress n = .done p →
          n ∈ (updatesOf ((run r before).handed ++ [x])).map Prod.fst) ∧
      ∀ x ∈ h.handed, x.interval.ranking = rankingOf settings x.updates := by
  obtain ⟨r, hr⟩ := Recorder.exists_create (I := I) hv hp
  refine ⟨r, hr, fun steps hbound => ?_⟩
  have hs := sound_run hr steps hbound
  refine ⟨fun retired completed hcall n hside => ?_, hs.nodup, hs.landed, hs.holds, ?_, hs.handed⟩
  · have hc := hs.call
    rw [hcall] at hc
    obtain ⟨v, hv, rfl⟩ := hs.inside n (by rw [hside]; simp)
    exact hc.2.2.2 v hv hside
  · rintro before after rfl hidle x hx n p hdone
    exact mem_updatesOf_of_done hr hbound hidle hx hdone

/-- A writer that has looked before sides are switched lands in the interval of that call; one that looks
behind it lands in the next, although it entered before new sections were moved. -/
theorem intervals_partition_updates_between :
    let settings : RankingSettings := ⟨2, 0, 1, 1⟩
    let flipped : List (HandoverStep Nat) :=
      [.enter ⟨5, 1⟩, .load 0, .enter ⟨7, 2⟩, .store, .load 1, .choose, .clear, .move, .apply 0, .leave 0,
        .poll, .apply 0, .leave 0, .poll]
    let swapped := flipped ++ [.swap none]
    let again := swapped ++ .store :: [.choose, .clear, .move, .poll, .swap none]
    let second : Handed Nat := ⟨⟨rankingOf settings [(1, ⟨7, 2⟩)]⟩, [(1, ⟨7, 2⟩)], [0, 1]⟩
    settings.validate = .ok () ∧ settings.poolSize < Limits.poolSizeBound ∧
      ∃ r : Recorder Nat, Recorder.create settings = .ok r ∧
        (∀ n, (run r flipped).traffic.entered n < 2 ^ 63) ∧ (∀ n, (run r again).traffic.entered n < 2 ^ 63) ∧
        (run r flipped).call = .flipped .first [] ∧
        (∀ n, ((run r flipped).progress n).side? ≠ some .first) ∧
        (run r swapped).call = .idle ∧ (run r swapped).progress 1 = .done ⟨7, 2⟩ ∧
        (run r again).handed = (run r swapped).handed ++ [second] ∧
        1 ∈ (updatesOf ((run r swapped).handed ++ [second])).map Prod.fst ∧
        second.interval.ranking = rankingOf settings second.updates := by
  intro settings flipped swapped again second
  have hv : settings.validate = .ok () := rfl
  have hp : settings.poolSize < Limits.poolSizeBound := by decide
  obtain ⟨r, hr, hall⟩ := intervals_partition_updates (I := Nat) hv hp
  have hflipped : ∀ n, (run r flipped).traffic.entered n < 2 ^ 63 := fun n =>
    Nat.lt_of_le_of_lt (entered_run_le flipped n) (by decide)
  have hagain : ∀ n, (run r again).traffic.entered n < 2 ^ 63 := fun n =>
    Nat.lt_of_le_of_lt (entered_run_le again n) (by decide)
  obtain ⟨hnobody, -⟩ := hall flipped hflipped
  obtain ⟨-, -, -, -, htimely, hintervals⟩ := hall again hagain
  have hcreate : Recorder.create (I := Nat) settings = .ok _ := rfl
  have hfresh := Except.ok.inj (hcreate.symm.trans hr)
  have hcall : (run r flipped).call = .flipped .first [] := by
    subst hfresh
    decide +kernel
  have hidle : (run r swapped).call = .idle := by
    subst hfresh
    decide +kernel
  have hdone : (run r swapped).progress 1 = .done ⟨7, 2⟩ := by
    subst hfresh
    decide +kernel
  have hhanded : (run r again).handed = (run r swapped).handed ++ [second] := by
    subst hfresh
    decide +kernel
  have hprefix : (run r swapped).handed ++ [second] <+: (run r again).handed :=
    hhanded ▸ List.prefix_refl _
  have hmem : second ∈ (run r again).handed := by
    rw [hhanded]
    exact List.mem_append_right _ List.mem_cons_self
  exact ⟨hv, hp, r, hr, hflipped, hagain, hcall, hnobody .first [] hcall, hidle, hdone, hhanded,
    htimely swapped _ rfl hidle second hprefix 1 ⟨7, 2⟩ hdone, hintervals second hmem⟩

end Handover

end WindowedMetrics
