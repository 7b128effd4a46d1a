import WindowedMetrics.Proofs.Checked.Windows
import WindowedMetrics.Proofs.Rolling.Settle
import WindowedMetrics.Ranking.Retained

/-!
# Checked rankings

Rolling rankings with all arithmetic checked: numbers of intervals and the boundaries made from them, the
slots of the archive, the sides of the phases.  `ChunkedRanking.Fits` bounds the lengths of the intervals
and the archive, and the numbers that the phases keep; every operation keeps these bounds.
-/

namespace WindowedMetrics

variable {I : Type} [DecidableEq I]

namespace ChunkedRanking

/-! ### Operations -/

omit [DecidableEq I] in
def intervalOf? (r : ChunkedRanking I) (now : Nat) : Option Nat :=
  intervalIndex? r.creation r.interval now

omit [DecidableEq I] in
def store? (r : ChunkedRanking I) (side : Side) : Option (ChunkedRanking I) :=
  let phase := r.phase side
  let totals := r.totals.get side
  if r.archive.isEmpty then some { r with totals := r.totals.set side totals.reset }
  else do
    let slot ← mod? phase.interval r.archive.size
    let archived ← r.archive[slot]?
    let round ← sub? r.archive.size 1
    let expiry ← boundary? phase.invalidation round r.interval
    return { r with
      archive := r.archive.setIfInBounds slot { ranking := totals, expiry }
      totals := r.totals.set side archived.ranking.reset }

def retireTaken? (r : ChunkedRanking I) (side : Side) (taken : Interval I) :
    Option (ChunkedRanking I) := do
  let r ← (r.credit side taken).store? side
  return r.setPhase side { r.phase side with invalidation := dormant }

def retire? (r : ChunkedRanking I) (side : Side) : Option (ChunkedRanking I) :=
  if r.isOver side then
    let (taken, r) := (r.take side).value
    r.retireTaken? side taken
  else some r

omit [DecidableEq I] in
def activate? (r : ChunkedRanking I) (side : Side) (now : Nat) : Option (ChunkedRanking I) := do
  let interval ← r.intervalOf? now
  let next ← add? interval 1
  let invalidation ← boundary? r.creation next r.interval
  return { r.setPhase side { r.phase side with interval, invalidation } with current := side }

def update? (r : ChunkedRanking I) (now : Nat) (weight : Int64) (identity : I) :
    Option (Option Side × ChunkedRanking I) := do
  let old ← Side.ofIndex? r.current.index
  if now < (r.phase old).invalidation then
    return (none, r.setRecorder old ((r.phase old).recorder.update weight identity).value)
  else
    let next ← Side.ofIndex? (old.index ^^^ 1)
    let r ← r.retire? next
    let recorder := ((r.phase next).recorder.update weight identity).value
    let r ← (r.setRecorder next recorder).activate? next now
    return (some old, r)

def rotateExpired? (r : ChunkedRanking I) (now : Nat) : Option (ChunkedRanking I) := do
  let current ← Side.ofIndex? r.current.index
  let invalidation := (r.phase current).invalidation
  if invalidation ≠ dormant ∧ invalidation ≤ now then
    let next ← Side.ofIndex? (current.index ^^^ 1)
    let r ← r.retire? next
    r.activate? next now
  else return r

omit [DecidableEq I] in
def archiveFrom? (r : ChunkedRanking I) (interval : Nat) : Option (List (Archived I)) :=
  (List.range r.archive.size).mapM fun step => do
    let place ← add? interval (step + 1)
    let slot ← mod? place r.archive.size
    r.archive[slot]?

def mergeArchive? (r : ChunkedRanking I) (now : Nat) : Option (Ranking I) := do
  let current ← Side.ofIndex? r.current.index
  let archived ← r.archiveFrom? (r.phase current).interval
  return archived.foldl
    (fun merged a => if now < a.expiry then a.ranking.mergeInto merged else merged) r.collector.reset

def descending? (r : ChunkedRanking I) (now : Nat) :
    Option (List (Position I) × ChunkedRanking I) := do
  let r ← r.rotateExpired? now
  let r ← r.retire? .first
  let r ← r.retire? .second
  let merged ← r.mergeArchive? now
  let current ← Side.ofIndex? r.current.index
  if now < (r.phase current).invalidation then
    let r := (r.collect current).value
    let merged := (r.totals.get current).mergeInto merged
    return (merged.descending, { r with collector := merged })
  else return (merged.descending, { r with collector := merged })

/-! ### What operations leave alone -/

omit [DecidableEq I] in
/-- The same lengths and the same numbers of intervals. -/
structure Alike (r r' : ChunkedRanking I) : Prop where
  interval_eq : r'.interval = r.interval
  size_eq : r'.archive.size = r.archive.size
  number_eq : ∀ side, (r'.phase side).interval = (r.phase side).interval

variable {r r' r'' : ChunkedRanking I}

omit [DecidableEq I] in
theorem Alike.refl (r : ChunkedRanking I) : Alike r r := ⟨rfl, rfl, fun _ => rfl⟩

omit [DecidableEq I] in
theorem Alike.trans (h : Alike r r') (h' : Alike r' r'') : Alike r r'' :=
  ⟨h'.interval_eq.trans h.interval_eq, h'.size_eq.trans h.size_eq,
    fun side => (h'.number_eq side).trans (h.number_eq side)⟩

omit [DecidableEq I] in
/-- A phase with another recorder and another invalidation. -/
theorem alike_setPhase (r : ChunkedRanking I) (side : Side) {p : RankingPhase I}
    (h : p.interval = (r.phase side).interval) : Alike r (r.setPhase side p) := by
  refine ⟨rfl, rfl, fun other => ?_⟩
  rcases Side.eq_or_eq_other side other with rfl | rfl
  · exact (congrArg RankingPhase.interval (Twin.get_set_self _ _ _)).trans h
  · exact congrArg RankingPhase.interval (Twin.get_set_other _ _ _)

omit [DecidableEq I] in
theorem alike_setRecorder (r : ChunkedRanking I) (side : Side) (recorder : Recorder I) :
    Alike r (r.setRecorder side recorder) := alike_setPhase r side rfl

theorem alike_take (r : ChunkedRanking I) (side : Side) : Alike r (r.take side).value.2 :=
  alike_setRecorder r side _

theorem alike_credit (r : ChunkedRanking I) (side : Side) (taken : Interval I) :
    Alike r (r.credit side taken) := ⟨rfl, rfl, fun _ => rfl⟩

omit [DecidableEq I] in
theorem alike_collector (r : ChunkedRanking I) (collector : Ranking I) :
    Alike r { r with collector } := ⟨rfl, rfl, fun _ => rfl⟩

theorem alike_collect (r : ChunkedRanking I) (side : Side) : Alike r (r.collect side).value :=
  (alike_take r side).trans (alike_credit _ side _)

omit [DecidableEq I] in
theorem alike_store (r : ChunkedRanking I) (side : Side) : Alike r (r.store side).value := by
  rw [store_value]
  refine ⟨rfl, ?_, fun _ => rfl⟩
  unfold stored
  split
  · rfl
  · exact Array.size_setIfInBounds

theorem alike_retireTaken (r : ChunkedRanking I) (side : Side) (taken : Interval I) :
    Alike r (r.retireTaken side taken).value :=
  ((alike_credit r side taken).trans (alike_store _ side)).trans (alike_setPhase _ side rfl)

theorem alike_retire (r : ChunkedRanking I) (side : Side) : Alike r (r.retire side).value := by
  by_cases h : r.isOver side
  · rw [retire_of_isOver h]
    exact (alike_take r side).trans (alike_retireTaken _ side _)
  · rw [retire_of_not_isOver h]
    exact Alike.refl r

/-! ### Rankings within the limits -/

omit [DecidableEq I] in
/-- A ranking within the limits. -/
structure Fits (r : ChunkedRanking I) : Prop where
  interval_ge : Limits.minChunkInterval ≤ r.interval
  archive_le : r.archive.size ≤ Limits.maxChunks
  number_le : ∀ side, (r.phase side).interval ≤ maxWord / Limits.minChunkInterval

variable {now : Nat} {side : Side}

omit [DecidableEq I] in
theorem Fits.congr (h : r.Fits) (ha : Alike r r') : r'.Fits where
  interval_ge := ha.interval_eq.symm ▸ h.interval_ge
  archive_le := ha.size_eq.symm ▸ h.archive_le
  number_le := fun side => (ha.number_eq side).symm ▸ h.number_le side

omit [DecidableEq I] in
theorem Fits.intervalOf_le (h : r.Fits) (hnow : now ≤ maxWord) :
    r.intervalOf now ≤ maxWord / Limits.minChunkInterval :=
  intervalIndex_le (by decide) h.interval_ge hnow

omit [DecidableEq I] in
theorem Fits.activate (h : r.Fits) (hnow : now ≤ maxWord) (side : Side) :
    (r.activate side now).value.Fits where
  interval_ge := h.interval_ge
  archive_le := h.archive_le
  number_le := fun other => by
    rcases Side.eq_or_eq_other side other with rfl | rfl
    · exact (congrArg RankingPhase.interval (Twin.get_set_self _ _ _)).trans_le (h.intervalOf_le hnow)
    · exact (congrArg RankingPhase.interval (Twin.get_set_other _ _ _)).trans_le (h.number_le _)

omit [DecidableEq I] in
theorem Fits.activate?_eq (h : r.Fits) (hnow : now ≤ maxWord) (side : Side) :
    r.activate? side now = some (r.activate side now).value := by
  have hle := h.intervalOf_le hnow
  have hpos : 0 < r.interval := Nat.lt_of_lt_of_le (by decide) h.interval_ge
  have hroom : maxWord / Limits.minChunkInterval + 1 ≤ maxWord := by decide
  have hindex : r.intervalOf? now = some (r.intervalOf now) := intervalIndex?_of hpos
  unfold activate?
  simp only [hindex, Option.bind_eq_bind, Option.bind_some]
  rw [add?_of (by omega)]
  simp only [Option.bind_some, boundary?_eq]
  rfl

omit [DecidableEq I] in
theorem store?_eq (r : ChunkedRanking I) (side : Side) : r.store? side = some (r.store side).value := by
  rw [store_value]
  unfold store? stored
  dsimp only
  split_ifs with he
  · rfl
  · have hpos : 0 < r.archive.size :=
      Nat.pos_of_ne_zero fun h0 => he (Array.isEmpty_iff_size_eq_zero.mpr h0)
    have hslot : (r.phase side).interval % r.archive.size < r.archive.size := Nat.mod_lt _ hpos
    rw [mod?_of hpos]
    simp only [Option.bind_eq_bind, Option.bind_some, Array.getElem?_eq_getElem hslot, Option.elim_some]
    rw [sub?_of hpos]
    simp only [Option.bind_some, boundary?_eq]
    rfl

theorem retire?_eq (r : ChunkedRanking I) (side : Side) :
    r.retire? side = some (r.retire side).value := by
  unfold retire?
  split_ifs with h
  · rw [retire_of_isOver h]
    unfold retireTaken?
    dsimp only
    rw [store?_eq]
    rfl
  · rw [retire_of_not_isOver h]

theorem Fits.update?_eq (h : r.Fits) (hnow : now ≤ maxWord) (weight : Int64) (identity : I) :
    r.update? now weight identity = some (r.update now weight identity).value := by
  unfold update? update
  simp only [Side.ofIndex?_index, Side.ofIndex?_xor, Option.bind_eq_bind, Option.bind_some, retire?_eq]
  split_ifs with hlive
  · rfl
  · have hfits := (h.congr (alike_retire r r.current.other)).congr
      (alike_setRecorder _ r.current.other
        (((r.retire r.current.other).value.phase r.current.other).recorder.update weight identity).value)
    rw [hfits.activate?_eq hnow]
    rfl

theorem Fits.update (h : r.Fits) (hnow : now ≤ maxWord) (weight : Int64) (identity : I) :
    (r.update now weight identity).value.2.Fits := by
  unfold ChunkedRanking.update
  dsimp only
  split_ifs with hlive
  · exact h.congr (alike_setRecorder r _ _)
  · exact ((h.congr (alike_retire r _)).congr (alike_setRecorder _ _ _)).activate hnow _

theorem Fits.rotateExpired?_eq (h : r.Fits) (hnow : now ≤ maxWord) :
    r.rotateExpired? now = some (r.rotateExpired now).value := by
  unfold rotateExpired? rotateExpired
  simp only [Side.ofIndex?_index, Side.ofIndex?_xor, Option.bind_eq_bind, Option.bind_some, retire?_eq]
  split_ifs with hexpired
  · exact (h.congr (alike_retire r _)).activate?_eq hnow _
  · rfl

theorem Fits.rotateExpired (h : r.Fits) (hnow : now ≤ maxWord) : (r.rotateExpired now).value.Fits := by
  unfold ChunkedRanking.rotateExpired
  dsimp only
  split_ifs with hexpired
  · exact (h.congr (alike_retire r _)).activate hnow _
  · exact h

omit [DecidableEq I] in
theorem Fits.archiveFrom?_eq (h : r.Fits) (side : Side) :
    r.archiveFrom? (r.phase side).interval = some (r.archiveFrom (r.phase side).interval) := by
  have hnumber := h.number_le side
  have harchive := h.archive_le
  have hroom : maxWord / Limits.minChunkInterval + Limits.maxChunks ≤ maxWord := by decide
  refine mapM_eq_filterMap _ _ fun step hstep => ?_
  have hlt := List.mem_range.mp hstep
  have hpos : 0 < r.archive.size := Nat.zero_lt_of_lt hlt
  have hslot : ((r.phase side).interval + step + 1) % r.archive.size < r.archive.size :=
    Nat.mod_lt _ hpos
  rw [add?_of (by omega)]
  simp only [Option.bind_eq_bind, Option.bind_some, ← Nat.add_assoc]
  rw [mod?_of hpos]
  exact ⟨rfl, by rw [Array.getElem?_eq_getElem hslot]; rfl⟩

theorem Fits.mergeArchive?_eq (h : r.Fits) (now : Nat) : r.mergeArchive? now = some (r.mergeArchive now) := by
  unfold mergeArchive?
  simp only [Side.ofIndex?_index, Option.bind_eq_bind, Option.bind_some, h.archiveFrom?_eq]
  rfl

theorem Fits.descending?_eq (h : r.Fits) (hnow : now ≤ maxWord) :
    r.descending? now = some (r.descending now).value := by
  have hrotated := h.rotateExpired hnow
  have hsettled := (hrotated.congr (alike_retire _ .first)).congr (alike_retire _ .second)
  unfold descending? descending
  simp only [h.rotateExpired?_eq hnow, retire?_eq, hsettled.mergeArchive?_eq, Side.ofIndex?_index,
    Option.bind_eq_bind, Option.bind_some, Logged.value_bind]
  generalize (((r.rotateExpired now).value.retire .first).value.retire .second).value = settled
  split_ifs
  · rfl
  · rfl

theorem Fits.descending (h : r.Fits) (hnow : now ≤ maxWord) : (r.descending now).value.2.Fits := by
  have hrotated := h.rotateExpired hnow
  have hsettled := (hrotated.congr (alike_retire _ .first)).congr (alike_retire _ .second)
  unfold ChunkedRanking.descending
  simp only [Logged.value_bind]
  generalize (((r.rotateExpired now).value.retire .first).value.retire .second).value = settled at hsettled ⊢
  split_ifs
  · exact (hsettled.congr (alike_collect settled settled.current)).congr (alike_collector _ _)
  · exact hsettled.congr (alike_collector settled _)

end ChunkedRanking

end WindowedMetrics
