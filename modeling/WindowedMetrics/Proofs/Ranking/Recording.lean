import WindowedMetrics.Proofs.Actor.Idle
import WindowedMetrics.Proofs.Ranking.Floor
import WindowedMetrics.Ranking.Recorder

/-!
# What shared rankings and recorders hold

As long as their actors are idle, a shared ranking stands for one ranking and a recorder for one ranking
that its active side collects.  Offers are then offers to that ranking: neither the queue nor the published
floor can be told from outside (`SharedRanking.Holds.update`, `Recorder.Holds.update`), and taking an
interval hands out the whole ranking and leaves a blank one (`Recorder.Holds.takeInterval`).
-/

namespace WindowedMetrics

/-- What a construction with several steps has constructed, its first step has, too. -/
theorem exists_ok_of_bind {ε α β : Type} {x : Except ε α} {f : α → Except ε β} {b : β}
    (h : x >>= f = .ok b) : ∃ a, x = .ok a ∧ f a = .ok b := by
  cases x with
  | error e => exact absurd h (by rintro ⟨⟩)
  | ok a => exact ⟨a, rfl, h⟩

theorem exists_ok_of_map {ε α β : Type} {x : Except ε α} {f : α → β} {b : β}
    (h : f <$> x = .ok b) : ∃ a, x = .ok a ∧ f a = b := by
  cases x with
  | error e => exact absurd h (by rintro ⟨⟩)
  | ok a => exact ⟨a, rfl, Except.ok.inj h⟩

variable {I : Type} [DecidableEq I]

omit [DecidableEq I] in
theorem RankingSettings.sizes_pos {s : RankingSettings} (h : s.validate = .ok ()) :
    s.poolSize ≠ 0 ∧ s.batchSize ≠ 0 := by
  unfold validate at h
  split_ifs at h with hc hp hb
  exact ⟨hp, hb⟩

/-! ### Shared rankings -/

namespace SharedRanking

/-- Nothing is on its way, and the ranking is published. -/
structure Holds (s : SharedRanking I) (ranking : Ranking I) : Prop where
  idle : s.actor.Idle
  state : s.actor.state = Board.publish ranking

variable {s : SharedRanking I} {ranking : Ranking I}

theorem exists_create {settings : RankingSettings} (hv : settings.validate = .ok ())
    (hp : settings.poolSize < Limits.poolSizeBound) :
    ∃ s : SharedRanking I, create settings = .ok s := by
  obtain ⟨hpool, hbatch⟩ := RankingSettings.sizes_pos hv
  have hne : ¬ (settings.poolSize = 0 ∨ Limits.poolSizeBound ≤ settings.poolSize) := by omega
  unfold create Actor.create
  rw [hv, if_neg hne, if_neg hbatch]
  exact ⟨_, rfl⟩

theorem holds_create {settings : RankingSettings} (h : create settings = .ok s) :
    s.Holds (Ranking.blank settings.capacity settings.threshold) := by
  obtain ⟨-, -, h⟩ := exists_ok_of_bind h
  obtain ⟨x, hx, h⟩ := exists_ok_of_bind h
  obtain rfl := Except.ok.inj h
  obtain ⟨hidle, hstate⟩ := Actor.idle_create hx
  exact ⟨hidle, hstate⟩

/-- **Offers below the floor need no queue**: they would be refused. -/
theorem Holds.update (h : s.Holds ranking) (ha : Ascending ranking.positions) (w : Int64)
    (identity : I) : (s.update w identity).value.Holds (ranking.add w identity) := by
  have hfloor : s.floor = ranking.floor := congrArg Board.floor h.state
  unfold SharedRanking.update
  by_cases hlt : w < s.floor
  · rw [if_pos hlt, (Ranking.tooLight_of_lt_floor (hfloor ▸ hlt)).add_eq_self ha]
    exact h
  · rw [if_neg hlt]
    obtain ⟨hidle, hstate⟩ := Actor.send_of_idle h.idle (a := (⟨w, some identity⟩ : QueuedOffer I))
      (f := fun b => b.offer w identity) rfl
    refine ⟨hidle, hstate.trans ?_⟩
    rw [h.state]
    rfl

theorem Holds.exchange (h : s.Holds ranking) (other : Ranking I) :
    (s.exchange other).value.1 = ranking ∧ (s.exchange other).value.2.Holds other := by
  obtain ⟨hold, hidle, hstate⟩ :=
    Actor.exclusively_of_idle h.idle fun b => (b.ranking, Board.publish other)
  exact ⟨hold.trans (congrArg Board.ranking h.state), hidle, hstate⟩

end SharedRanking

/-! ### Recorders -/

namespace Recorder

/-- The active side collects in a ranking, the other side is blank. -/
structure Holds (r : Recorder I) (settings : RankingSettings) (ranking : Ranking I) : Prop where
  settings_eq : r.settings = settings
  active : (r.rankings.get r.active).Holds ranking
  inactive : (r.rankings.get r.active.other).Holds
    (Ranking.blank settings.capacity settings.threshold)

variable {r : Recorder I} {settings : RankingSettings} {ranking : Ranking I}

theorem exists_create (hv : settings.validate = .ok ())
    (hp : settings.poolSize < Limits.poolSizeBound) :
    ∃ r : Recorder I, create settings = .ok r := by
  obtain ⟨s, hs⟩ : ∃ s : SharedRanking I, SharedRanking.create settings = .ok s :=
    SharedRanking.exists_create hv hp
  unfold create
  rw [hs]
  exact ⟨_, rfl⟩

theorem holds_create (h : create settings = .ok r) :
    r.Holds settings (Ranking.blank settings.capacity settings.threshold) := by
  obtain ⟨first, hfirst, h⟩ := exists_ok_of_bind h
  obtain ⟨second, hsecond, h⟩ := exists_ok_of_bind h
  obtain rfl := Except.ok.inj h
  exact ⟨rfl, SharedRanking.holds_create hfirst, SharedRanking.holds_create hsecond⟩

theorem Holds.update (h : r.Holds settings ranking) (ha : Ascending ranking.positions) (w : Int64)
    (identity : I) : (r.update w identity).value.Holds settings (ranking.add w identity) := by
  have hs := h.active.update ha w identity
  simp only [Recorder.update, Logged.value_bind, Logged.value_pure]
  generalize ((r.rankings.get r.active).update w identity).value = s at hs
  refine ⟨h.settings_eq, ?_, ?_⟩
  · show ((r.rankings.set r.active s).get r.active).Holds _
    rw [Twin.get_set_self]
    exact hs
  · show ((r.rankings.set r.active s).get r.active.other).Holds _
    rw [Twin.get_set_other]
    exact h.inactive

/-- **Taking an interval** hands out all that was collected. -/
theorem Holds.takeInterval (h : r.Holds settings ranking) (recycled : Option (Interval I)) :
    (r.takeInterval recycled).value.1 = ⟨ranking⟩ ∧ (r.takeInterval recycled).value.2.Holds settings
      (Ranking.blank settings.capacity settings.threshold) := by
  obtain ⟨hold, hs⟩ := h.active.exchange (r.emptied recycled)
  simp only [Recorder.takeInterval, Logged.value_bind, Logged.value_pure, hold, true_and]
  generalize ((r.rankings.get r.active).exchange (r.emptied recycled)).value.2 = s at hs
  rw [emptied_eq, h.settings_eq] at hs
  refine ⟨h.settings_eq, ?_, ?_⟩
  · show ((r.rankings.set r.active s).get r.active.other).Holds _
    rw [Twin.get_set_other]
    exact h.inactive
  · show ((r.rankings.set r.active s).get r.active.other.other).Holds _
    rw [Side.other_other, Twin.get_set_self]
    exact hs

end Recorder

end WindowedMetrics
