import WindowedMetrics.Proofs.Checked.Accesses
import WindowedMetrics.Proofs.Checked.Words

/-!
# Checked windows

Rolling windows, counters and hit ratios with all arithmetic checked.  A window fits if its chunks are not
shorter and not more than the limits allow (`RollingWindow.Fits`): then the number of an interval, and what
is added to it on the way to a slot or to a boundary, is far from the largest word, whatever the clock
shows.  Nothing is asked of the clock but that it shows words.
-/

namespace WindowedMetrics

/-! ### Loops -/

theorem mapM_eq_filterMap {α β : Type} {f : α → Option β} (g : α → Option β) (l : List α)
    (h : ∀ x ∈ l, f x = g x ∧ (g x).isSome) : l.mapM f = some (l.filterMap g) := by
  induction l with
  | nil => rfl
  | cons x l ih =>
    obtain ⟨hfg, hsome⟩ := h x List.mem_cons_self
    obtain ⟨y, hy⟩ := Option.isSome_iff_exists.mp hsome
    rw [List.mapM_cons, hfg, hy, ih fun z hz => h z (List.mem_cons_of_mem _ hz),
      List.filterMap_cons_some hy]
    rfl

theorem foldlM_some {α β : Type} (f : β → α → Option β) (g : β → α → β) (l : List α) (b : β)
    (h : ∀ b, ∀ x ∈ l, f b x = some (g b x)) : l.foldlM f b = some (l.foldl g b) := by
  induction l generalizing b with
  | nil => rfl
  | cons x l ih =>
    rw [List.foldlM_cons, h b x List.mem_cons_self, List.foldl_cons]
    exact ih _ fun b y hy => h b y (List.mem_cons_of_mem _ hy)

/-! ### Windows -/

/-- Values whose additions can be checked. -/
class CheckedAccumulator (A : Type) (D : outParam Type) [Accumulator A D] where
  add? : A → D → Option A
  /-- What is known of the values. -/
  Sound : A → Prop
  /-- What is asked of the additions. -/
  Fair : D → Prop
  sound_zero : Sound Accumulator.zero
  add?_of : ∀ {a d}, Sound a → Fair d → add? a d = some (Accumulator.add a d)
  sound_add : ∀ {a d}, Sound a → Fair d → Sound (Accumulator.add a d)

/-- Sums of deltas wrap. -/
instance : CheckedAccumulator Int64 Int64 where
  add? a d := some (a + d)
  Sound _ := True
  Fair _ := True
  sound_zero := trivial
  add?_of _ _ := rfl
  sound_add _ _ := trivial

instance : CheckedAccumulator HitCounts (UInt32 × UInt32) where
  add? c d := c.add? d.1 d.2
  Sound := HitCounts.Sound
  Fair d := d.1 ≤ d.2
  sound_zero := HitCounts.sound_zero
  add?_of hc hd := HitCounts.add?_of hc hd
  sound_add hc hd := HitCounts.Sound.add hc hd

variable {A D : Type} [Accumulator A D] [CheckedAccumulator A D]

open CheckedAccumulator (Sound Fair)

def Chunk.add? (c : Chunk A) (delta : D) (now : Nat) (next? : Option Nat) : Option (Chunk A) := do
  let current ← Side.ofIndex? c.current.index
  let phase := c.phases.get current
  if now < phase.invalidation then
    let value ← CheckedAccumulator.add? phase.value delta
    return { c with phases := c.phases.set current { phase with value } }
  else
    let other ← Side.ofIndex? (current.index ^^^ 1)
    let value ← CheckedAccumulator.add? (c.phases.get other).value delta
    let next ← next?
    return {
      current := other
      phases := (c.phases.set current ⟨Accumulator.zero, dormant⟩).set other ⟨value, next⟩ }

namespace RollingWindow

def create? (count interval now : Nat) : Option (RollingWindow A) := do
  let slots ← add? count 1
  let chunks ← (List.range slots).mapM fun i => do
    let intervals ← WindowedMetrics.add? i slots
    let invalidation ← boundary? now intervals interval
    return Chunk.create invalidation
  return { creation := now, interval, chunks := chunks.toArray }

def intervalOf? (w : RollingWindow A) (now : Nat) : Option Nat :=
  intervalIndex? w.creation w.interval now

def slotOf? (w : RollingWindow A) (now : Nat) : Option Nat := do
  let k ← w.intervalOf? now
  mod? k w.slots

def expiryOf? (w : RollingWindow A) (now : Nat) : Option Nat := do
  let k ← w.intervalOf? now
  let intervals ← WindowedMetrics.add? k w.slots
  boundary? w.creation intervals w.interval

def add? (w : RollingWindow A) (delta : D) (now : Nat) : Option (RollingWindow A) := do
  let slot ← w.slotOf? now
  let chunk ← w.chunks[slot]?
  let chunk ← chunk.add? delta now (w.expiryOf? now)
  return { w with chunks := w.chunks.setIfInBounds slot chunk }

/-- The value that has been collected in a slot and its share, if it has not expired. -/
def visit? (w : RollingWindow A) (now step : Nat) : Option (Option (A × Share)) := do
  let newest ← w.slotOf? now
  let place ← WindowedMetrics.add? newest step
  let slot ← mod? place w.slots
  let chunk ← w.chunks[slot]?
  let current ← Side.ofIndex? chunk.current.index
  let phase := chunk.phases.get current
  if now < phase.invalidation then
    let remaining ← sub? phase.invalidation now
    return some (phase.value,
      if remaining < w.interval then .decaying remaining w.interval else .full)
  else return none

def live? (w : RollingWindow A) (now : Nat) : Option (List (A × Share)) := do
  let visited ← (List.range w.slots).mapM fun step => w.visit? now (step + 1)
  return visited.filterMap id

end RollingWindow

/-! ### Chunks -/

/-- What is known of the values of a chunk. -/
def Chunk.Sound (c : Chunk A) : Prop := ∀ side, CheckedAccumulator.Sound (c.phases.get side).value

theorem Chunk.sound_create (invalidation : Nat) : (Chunk.create invalidation : Chunk A).Sound := by
  rintro (_ | _)
  · exact CheckedAccumulator.sound_zero
  · exact CheckedAccumulator.sound_zero

theorem Chunk.add?_of {c : Chunk A} (hc : c.Sound) {delta : D} (hd : Fair A delta) (now next : Nat) :
    c.add? delta now (some next) = some (c.add delta now next).value := by
  unfold Chunk.add? Chunk.add
  simp only [Side.ofIndex?_index, Side.ofIndex?_xor, Option.bind_eq_bind, Option.bind_some]
  by_cases h : now < c.phase.invalidation
  · rw [if_pos h, if_pos (by exact h), CheckedAccumulator.add?_of (hc _) hd]
    rfl
  · rw [if_neg h, if_neg (by exact h), CheckedAccumulator.add?_of (hc _) hd]
    rfl

theorem Chunk.Sound.add {c : Chunk A} (hc : c.Sound) {delta : D} (hd : Fair A delta) (now next : Nat) :
    (c.add delta now next).value.Sound := by
  intro side
  rcases Nat.lt_or_ge now c.phase.invalidation with h | h
  · rw [Chunk.add_of_lt h]
    rcases Side.eq_or_eq_other c.current side with rfl | rfl
    · simp only [Twin.get_set_self]
      exact CheckedAccumulator.sound_add (hc _) hd
    · simp only [Twin.get_set_other]
      exact hc _
  · rw [Chunk.add_of_le h]
    rcases Side.eq_or_eq_other c.current side with rfl | rfl
    · simp only [Twin.get_set_of_other, Twin.get_set_self]
      exact CheckedAccumulator.sound_zero
    · simp only [Twin.get_set_self]
      exact CheckedAccumulator.sound_add (hc _) hd

/-! ### Windows within the limits -/

namespace RollingWindow

theorem sound_create (count interval now : Nat) :
    ∀ chunk ∈ (create count interval now : RollingWindow A).chunks, chunk.Sound := by
  intro chunk hmem
  obtain ⟨i, hi, rfl⟩ := Array.mem_iff_getElem.mp hmem
  simp only [create, Array.getElem_ofFn]
  exact Chunk.sound_create _

theorem sound_add {w : RollingWindow A} (h : ∀ chunk ∈ w.chunks, chunk.Sound) (delta : D)
    (hd : Fair A delta) (now : Nat) : ∀ chunk ∈ (w.add delta now).value.chunks, chunk.Sound := by
  unfold RollingWindow.add
  cases hchunk : w.chunks[w.slotOf now]? with
  | none => exact h
  | some old =>
    intro chunk hmem
    rcases Array.mem_or_eq_of_mem_setIfInBounds hmem with hold | rfl
    · exact h chunk hold
    · exact (h old (Array.mem_of_getElem? hchunk)).add hd _ _

/-- A window within the limits. -/
structure Fits (w : RollingWindow A) : Prop where
  interval_ge : Limits.minChunkInterval ≤ w.interval
  interval_le : w.interval ≤ maxWord
  slots_pos : 0 < w.slots
  slots_le : w.slots ≤ Limits.maxChunks + 1
  sound : ∀ chunk ∈ w.chunks, chunk.Sound

variable {w : RollingWindow A} {now : Nat}

theorem Fits.interval_pos (h : w.Fits) : 0 < w.interval :=
  Nat.lt_of_lt_of_le (by decide) h.interval_ge

theorem Fits.intervalOf?_eq (h : w.Fits) (now : Nat) : w.intervalOf? now = some (w.intervalOf now) :=
  intervalIndex?_of h.interval_pos

theorem Fits.slotOf?_eq (h : w.Fits) (now : Nat) : w.slotOf? now = some (w.slotOf now) := by
  unfold slotOf?
  rw [h.intervalOf?_eq]
  exact mod?_of h.slots_pos

theorem Fits.slotOf_lt (h : w.Fits) (now : Nat) : w.slotOf now < w.slots := Nat.mod_lt _ h.slots_pos

theorem Fits.expiryOf?_eq (h : w.Fits) (hnow : now ≤ maxWord) :
    w.expiryOf? now = some (w.expiryOf now) := by
  have hle : w.intervalOf now ≤ maxWord / Limits.minChunkInterval :=
    intervalIndex_le (by decide) h.interval_ge hnow
  have hslots := h.slots_le
  have hroom : maxWord / Limits.minChunkInterval + (Limits.maxChunks + 1) ≤ maxWord := by decide
  unfold expiryOf?
  rw [h.intervalOf?_eq]
  simp only [Option.bind_eq_bind, Option.bind_some]
  rw [add?_of (by omega)]
  exact boundary?_eq ..

/-- Chunks of one millisecond would be too many. -/
example : (create 2 1 0 : RollingWindow Int64).expiryOf? maxWord = none := by decide +kernel

theorem Fits.add?_eq (h : w.Fits) {delta : D} (hd : Fair A delta) (hnow : now ≤ maxWord) :
    w.add? delta now = some (w.add delta now).value := by
  have hlt := h.slotOf_lt now
  have hchunk : w.chunks[w.slotOf now]? = some w.chunks[w.slotOf now] := Array.getElem?_eq_getElem hlt
  have hsound := h.sound _ (Array.getElem_mem hlt)
  unfold add? add
  rw [h.slotOf?_eq, h.expiryOf?_eq hnow]
  simp only [hchunk, Option.bind_eq_bind, Option.bind_some]
  rw [Chunk.add?_of hsound hd]
  rfl

theorem Fits.add (h : w.Fits) {delta : D} (hd : Fair A delta) (now : Nat) :
    (w.add delta now).value.Fits := by
  have hlt := h.slotOf_lt now
  have hchunk : w.chunks[w.slotOf now]? = some w.chunks[w.slotOf now] := Array.getElem?_eq_getElem hlt
  have hslots : (w.add delta now).value.slots = w.slots := by
    unfold RollingWindow.add slots
    rw [hchunk]
    exact Array.size_setIfInBounds
  constructor
  case interval_ge | interval_le =>
    unfold RollingWindow.add
    rw [hchunk]
    first | exact h.interval_ge | exact h.interval_le
  case slots_pos => exact hslots.symm ▸ h.slots_pos
  case slots_le => exact hslots.symm ▸ h.slots_le
  case sound => exact sound_add h.sound delta hd now

theorem Fits.visit?_eq (h : w.Fits) (now : Nat) {step : Nat} (hstep : step ≤ w.slots) :
    w.visit? now step = some (((w.chunks[(w.slotOf now + step) % w.slots]?).map Chunk.phase).bind
      (w.shown now)) := by
  have hlt := h.slotOf_lt now
  have hslots := h.slots_le
  have hroom : Limits.maxChunks + 1 + (Limits.maxChunks + 1) ≤ maxWord := by decide
  have hplace : (w.slotOf now + step) % w.slots < w.chunks.size := Nat.mod_lt _ h.slots_pos
  unfold visit?
  rw [h.slotOf?_eq]
  simp only [Option.bind_eq_bind, Option.bind_some]
  rw [add?_of (by omega)]
  simp only [Option.bind_some]
  rw [mod?_of h.slots_pos]
  simp only [Option.bind_some, Array.getElem?_eq_getElem hplace, Option.map_some,
    Side.ofIndex?_index]
  generalize w.chunks[(w.slotOf now + step) % w.slots] = chunk
  unfold shown Chunk.phase
  by_cases hlive : now < (chunk.phases.get chunk.current).invalidation
  · rw [if_pos hlive, sub?_of (Nat.le_of_lt hlive)]
    exact congrArg some (if_pos hlive).symm
  · rw [if_neg hlive]
    exact congrArg some (if_neg hlive).symm

theorem Fits.live?_eq (h : w.Fits) (now : Nat) : w.live? now = some (w.live now) := by
  unfold live? live phasesFrom
  rw [mapM_eq_filterMap _ _ fun step hstep => ⟨h.visit?_eq now (List.mem_range.mp hstep), rfl⟩]
  simp only [Option.bind_eq_bind, Option.bind_some, List.filterMap_filterMap]
  rfl

/-- The shares that a window shows can be taken. -/
theorem scale?_of_mem_live {w : RollingWindow Int64} (h : w.Fits) {now : Nat} {c : Int64 × Share}
    (hc : c ∈ w.live now) : c.2.scale? c.1 = some (c.2.scale c.1) := by
  obtain ⟨p, -, hp⟩ := List.mem_filterMap.mp hc
  split_ifs at hp with hlive
  obtain rfl := Option.some.inj hp
  show (w.shareOf p.invalidation now).scale? p.value = some ((w.shareOf p.invalidation now).scale p.value)
  unfold shareOf
  split_ifs with hdecaying
  · exact Share.scale?_decaying hdecaying h.interval_le p.value
  · rfl

omit [CheckedAccumulator A D] in
theorem create?_eq {count : Nat} (hcount : count ≤ Limits.maxChunks) (interval now : Nat) :
    create? count interval now = some (create count interval now : RollingWindow A) := by
  have hroom : Limits.maxChunks + (Limits.maxChunks + 1) ≤ maxWord := by decide
  unfold create?
  rw [add?_of (by omega)]
  simp only [Option.bind_eq_bind, Option.bind_some]
  rw [mapM_eq_filterMap fun i => some (Chunk.create (boundary now (i + (count + 1)) interval))]
  · have hchunks : ((List.range (count + 1)).filterMap fun i =>
        some (Chunk.create (boundary now (i + (count + 1)) interval) : Chunk A)).toArray =
          Array.ofFn fun i : Fin (count + 1) =>
            Chunk.create (boundary now (i.val + (count + 1)) interval) := by
      rw [List.filterMap_eq_map']
      refine Array.ext (by simp) fun i _ _ => ?_
      simp
    simp only [Option.bind_some, hchunks]
    rfl
  · intro i hi
    have hlt := List.mem_range.mp hi
    rw [add?_of (by omega)]
    simp only [Option.bind_some, boundary?_eq]
    exact ⟨rfl, rfl⟩

theorem fits_create {count interval : Nat} (hcount : count ≤ Limits.maxChunks)
    (hi : Limits.minChunkInterval ≤ interval) (hle : interval ≤ maxWord) (now : Nat) :
    (create count interval now : RollingWindow A).Fits where
  interval_ge := hi
  interval_le := hle
  slots_pos := by simp [slots, create]
  slots_le := by simpa [slots, create] using hcount
  sound := sound_create count interval now

end RollingWindow

end WindowedMetrics
