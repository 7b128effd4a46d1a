import WindowedMetrics.Proofs.Checked.Counters
import WindowedMetrics.Proofs.Checked.Retained
import WindowedMetrics.Proofs.Rolling.Window

/-!
# Valid policies never overflow

What is built from a valid policy is within the limits, and stays there: whatever is written to it and
read from it, at whatever instants and in whatever order of them, no number fails to fit
(`validated_fit`).
-/

namespace WindowedMetrics

/-! ### Valid policies -/

/-- Milliseconds that fit in a word. -/
def Duration.millis? (d : Duration) : Option Nat := ensure (d.millis ≤ maxWord) d.millis

def chunkInterval? (window : Duration) (chunks : Nat) : Option Nat := do
  let millis ← window.millis?
  div? millis (max chunks 1)

theorem Duration.millis?_of {d : Duration} (h : d.millis ≤ Limits.maxRetentionWindow) :
    d.millis? = some d.cappedMillis := by
  have hle : d.millis ≤ maxWord := h.trans (by decide)
  rw [cappedMillis_of_le hle]
  exact ensure_of hle _

theorem chunkInterval?_of {window : Duration} (h : window.millis ≤ Limits.maxRetentionWindow)
    (chunks : Nat) : chunkInterval? window chunks = some (chunkInterval window chunks) := by
  unfold chunkInterval?
  rw [Duration.millis?_of h]
  exact div?_of (Nat.lt_of_lt_of_le Nat.one_pos (Nat.le_max_right _ _))

theorem chunkInterval_le (window : Duration) (chunks : Nat) : chunkInterval window chunks ≤ maxWord :=
  (Nat.div_le_self _ _).trans (Nat.min_le_right _ _)

namespace Policy

theorem checkWindow_eq_ok {window : Duration} (h : checkWindow window = .ok ()) :
    window.millis ≤ Limits.maxRetentionWindow := by
  unfold checkWindow at h
  split_ifs at h with hlt
  exact Nat.not_lt.mp hlt

theorem checkInterval_eq_ok {interval : Nat} (h : checkInterval interval = .ok ()) :
    Limits.minChunkInterval ≤ interval := by
  unfold checkInterval at h
  split_ifs at h with hlt
  exact Nat.not_lt.mp hlt

/-- The first fault of a policy, if any. -/
def validate? (p : Policy) : Option (Except ConfigFault Unit) :=
  match p.retention with
  | .byChunks window chunks =>
    if chunks < Limits.minChunks then some (.error (.tooFewChunks chunks))
    else if Limits.maxChunks < chunks then some (.error (.tooManyChunks chunks))
    else match checkWindow window with
      | .error fault => some (.error fault)
      | .ok () => do
        let interval ← chunkInterval? window chunks
        return checkInterval interval
  | _ => some p.validate

/-- The first fault of a policy for a ranking, if any. -/
def validateForRanking? (p : Policy) : Option (Except ConfigFault Unit) := do
  match ← p.validate? with
  | .error fault => return .error fault
  | .ok () =>
    match p.retention with
    | .resetPeriodically interval =>
      let millis ← interval.millis?
      return checkInterval millis
    | _ => return .ok ()

/-- What a valid policy says of the lengths and the number of intervals. -/
structure Valid (p : Policy) : Prop where
  periodic : ∀ interval, p.retention = .resetPeriodically interval →
    interval.millis ≤ Limits.maxRetentionWindow
  byChunks : ∀ window chunks, p.retention = .byChunks window chunks →
    chunks ≤ Limits.maxChunks ∧ window.millis ≤ Limits.maxRetentionWindow ∧
      Limits.minChunkInterval ≤ chunkInterval window chunks

variable {p : Policy}

theorem valid_of_validate (h : p.validate = .ok ()) : p.Valid := by
  obtain ⟨retention, caching, background⟩ := p
  constructor
  · rintro interval rfl
    unfold validate at h
    dsimp only at h
    split_ifs at h
    exact checkWindow_eq_ok h
  · rintro window chunks rfl
    unfold validate at h
    dsimp only at h
    split_ifs at h with hfew hmany
    obtain ⟨⟨⟩, hwindow, hinterval⟩ := exists_ok_of_bind h
    exact ⟨Nat.not_lt.mp hmany, checkWindow_eq_ok hwindow, checkInterval_eq_ok hinterval⟩

theorem validate?_eq (p : Policy) : p.validate? = some p.validate := by
  obtain ⟨retention, caching, background⟩ := p
  cases retention with
  | byChunks window chunks =>
    unfold validate? validate
    dsimp only
    split_ifs
    · rfl
    · rfl
    · cases hwindow : checkWindow window with
      | error fault => rfl
      | ok =>
        dsimp only
        rw [chunkInterval?_of (checkWindow_eq_ok hwindow)]
        rfl
  | _ => rfl

theorem validateForRanking?_eq (p : Policy) : p.validateForRanking? = some p.validateForRanking := by
  unfold validateForRanking? validateForRanking
  rw [validate?_eq]
  cases hvalid : p.validate with
  | error fault => rfl
  | ok =>
    have hperiodic := (valid_of_validate hvalid).periodic
    cases hretention : p.retention with
    | resetPeriodically interval =>
      simp only [Option.bind_eq_bind, Option.bind_some, Duration.millis?_of (hperiodic interval hretention)]
      rfl
    | _ => rfl

end Policy

/-! ### Building -/

/-- What a retention makes, given what it makes from an interval and from chunks of an interval. -/
def Retention.make? {α : Type} (r : Retention) (periodic : Nat → Option α)
    (rolling : Nat → Nat → Option α) (otherwise : α) : Option α :=
  match r with
  | .resetPeriodically interval => do
    let millis ← interval.millis?
    periodic millis
  | .byChunks window chunks => do
    let interval ← chunkInterval? window chunks
    rolling chunks interval
  | _ => some otherwise

theorem Policy.Valid.make?_eq {p : Policy} (h : p.Valid) {α : Type} {periodic : Nat → Option α}
    {rolling : Nat → Nat → Option α} {made : α}
    (hperiodic : ∀ interval, p.retention = .resetPeriodically interval →
      periodic interval.cappedMillis = some made)
    (hrolling : ∀ window chunks, p.retention = .byChunks window chunks → chunks ≤ Limits.maxChunks →
      rolling chunks (chunkInterval window chunks) = some made) :
    p.retention.make? periodic rolling made = some made := by
  cases hr : p.retention with
  | resetPeriodically interval =>
    unfold Retention.make?
    dsimp only
    rw [Duration.millis?_of (h.periodic interval hr)]
    exact hperiodic interval hr
  | byChunks window chunks =>
    obtain ⟨hchunks, hwindow, -⟩ := h.byChunks window chunks hr
    unfold Retention.make?
    dsimp only
    rw [chunkInterval?_of hwindow]
    exact hrolling window chunks hr hchunks
  | _ => rfl

/-- An aggregate made for a valid policy, in its cache. -/
def Policy.build? {σ V : Type} (p : Policy) (made : Option σ) :
    Option (Except ConfigFault (Decorated σ V)) := do
  match ← p.validate? with
  | .error fault => return .error fault
  | .ok () =>
    let inner ← made
    return .ok (.create inner p.caching)

theorem Policy.build?_eq {σ V : Type} {p : Policy} {made? : Option σ} {made : σ}
    (h : p.Valid → made? = some made) :
    (p.build? made? : Option (Except ConfigFault (Decorated σ V))) =
      some (do p.validate; return .create made p.caching) := by
  unfold build?
  rw [validate?_eq]
  cases hvalid : p.validate with
  | error fault => rfl
  | ok =>
    simp only [Option.bind_eq_bind, Option.bind_some, h (valid_of_validate hvalid)]
    rfl

namespace Counter

def ofRetention? (r : Retention) (now : Nat) : Option Counter :=
  r.make? (fun interval => some (createPeriodic interval now))
    (fun chunks interval => createRolling? chunks interval now) (ofRetention r now)

def build? (p : Policy) (now : Nat) : Option (Except ConfigFault (Decorated Counter Int64)) :=
  p.build? (ofRetention? p.retention now)

theorem ofRetention?_eq {p : Policy} (h : p.Valid) (now : Nat) :
    ofRetention? p.retention now = some (ofRetention p.retention now) := by
  refine h.make?_eq (fun interval hr => ?_) fun window chunks hr hchunks => ?_
  · rw [hr]
    rfl
  · unfold createRolling?
    rw [RollingWindow.create?_eq hchunks, hr]
    rfl

theorem build?_eq (p : Policy) (now : Nat) : build? p now = some (build p now) :=
  Policy.build?_eq fun h => ofRetention?_eq h now

theorem fits_ofRetention {p : Policy} (h : p.Valid) (now : Nat) : (ofRetention p.retention now).Fits := by
  cases hr : p.retention with
  | byChunks window chunks =>
    obtain ⟨hchunks, -, hinterval⟩ := h.byChunks window chunks hr
    exact RollingWindow.fits_create hchunks hinterval (chunkInterval_le window chunks) now
  | _ => trivial

end Counter

namespace HitRatio

def ofRetention? (r : Retention) (now : Nat) : Option HitRatio :=
  r.make? (fun interval => some (createPeriodic interval now))
    (fun chunks interval => createRolling? chunks interval now) (ofRetention r now)

def build? (p : Policy) (now : Nat) : Option (Except ConfigFault (Decorated HitRatio Float)) :=
  p.build? (ofRetention? p.retention now)

theorem ofRetention?_eq {p : Policy} (h : p.Valid) (now : Nat) :
    ofRetention? p.retention now = some (ofRetention p.retention now) := by
  refine h.make?_eq (fun interval hr => ?_) fun window chunks hr hchunks => ?_
  · rw [hr]
    rfl
  · unfold createRolling?
    rw [RollingWindow.create?_eq hchunks, hr]
    rfl

theorem build?_eq (p : Policy) (now : Nat) : build? p now = some (build p now) :=
  Policy.build?_eq fun h => ofRetention?_eq h now

theorem fits_ofRetention {p : Policy} (h : p.Valid) (now : Nat) : (ofRetention p.retention now).Fits := by
  cases hr : p.retention with
  | byChunks window chunks =>
    obtain ⟨hchunks, -, hinterval⟩ := h.byChunks window chunks hr
    exact RollingWindow.fits_create hchunks hinterval (chunkInterval_le window chunks) now
  | _ => exact HitCounts.sound_zero

end HitRatio

variable {I : Type} [DecidableEq I]

/-- A ranking within the limits has its numbers within them. -/
theorem ChunkedRanking.fits_create {settings : RankingSettings} {interval archiveSize now : Nat}
    {r : ChunkedRanking I} (h : create settings interval archiveSize now = .ok r)
    (hi : Limits.minChunkInterval ≤ interval) (ha : archiveSize ≤ Limits.maxChunks) : r.Fits := by
  obtain ⟨-, -, h⟩ := exists_ok_of_bind h
  split_ifs at h
  obtain ⟨first, -, h⟩ := exists_ok_of_bind h
  obtain ⟨second, -, h⟩ := exists_ok_of_bind h
  obtain rfl := Except.ok.inj h
  refine ⟨hi, ?_, ?_⟩
  · exact Array.size_replicate.trans_le ha
  · rintro (_ | _)
    · exact Nat.zero_le _
    · exact Nat.zero_le _

namespace RetainedRanking

def createRolling? (settings : RankingSettings) (interval archiveSize now : Nat)
    (background : Background) : Option (Except ConfigFault (RetainedRanking I)) := do
  let _ ← boundary? now 1 interval
  return createRolling settings interval archiveSize now background

def ofPolicy? (p : Policy) (settings : RankingSettings) (now : Nat) :
    Option (Except ConfigFault (RetainedRanking I)) :=
  p.retention.make? (fun interval => createRolling? settings interval 0 now p.background)
    (fun chunks interval => createRolling? settings interval chunks now p.background)
    (ofPolicy p settings now)

def build? (p : Policy) (settings : RankingSettings) (now : Nat) :
    Option (Except ConfigFault (Decorated (RetainedRanking I) (List (Position I)))) := do
  match ← p.validateForRanking? with
  | .error fault => return .error fault
  | .ok () =>
    match settings.validate with
    | .error fault => return .error fault
    | .ok () =>
      let made ← ofPolicy? p settings now
      return made.map fun r => .create r p.caching

theorem createRolling?_eq (settings : RankingSettings) (interval archiveSize now : Nat)
    (background : Background) : createRolling? settings interval archiveSize now background =
      some (createRolling settings interval archiveSize now background :
        Except ConfigFault (RetainedRanking I)) := by
  unfold createRolling?
  rw [boundary?_eq]
  rfl

theorem ofPolicy?_eq {p : Policy} (h : p.Valid) (settings : RankingSettings) (now : Nat) :
    ofPolicy? p settings now =
      some (ofPolicy p settings now : Except ConfigFault (RetainedRanking I)) := by
  refine h.make?_eq (fun interval hr => ?_) fun window chunks hr _ => ?_
  · rw [createRolling?_eq, ofPolicy, hr]
  · rw [createRolling?_eq, ofPolicy, hr]

theorem build?_eq (p : Policy) (settings : RankingSettings) (now : Nat) :
    build? p settings now = some (build p settings now :
      Except ConfigFault (Decorated (RetainedRanking I) (List (Position I)))) := by
  unfold build? build
  rw [Policy.validateForRanking?_eq]
  cases hvalid : p.validateForRanking with
  | error fault => rfl
  | ok =>
    cases settings.validate with
    | error fault => rfl
    | ok =>
      obtain ⟨⟨⟩, hvalidate, -⟩ := exists_ok_of_bind hvalid
      simp only [Option.bind_eq_bind, Option.bind_some,
        ofPolicy?_eq (Policy.valid_of_validate hvalidate)]
      cases (ofPolicy p settings now : Except ConfigFault (RetainedRanking I)) with
      | error fault => rfl
      | ok r => rfl

theorem fits_createRolling {settings : RankingSettings} {interval archiveSize now : Nat}
    {background : Background} {r : RetainedRanking I}
    (h : createRolling settings interval archiveSize now background = .ok r)
    (hi : Limits.minChunkInterval ≤ interval) (ha : archiveSize ≤ Limits.maxChunks) : r.Fits := by
  obtain ⟨ranking, hranking, h⟩ := exists_ok_of_bind h
  obtain rfl := Except.ok.inj h
  exact ChunkedRanking.fits_create hranking hi ha

theorem fits_build {p : Policy} {settings : RankingSettings} {now : Nat}
    {d : Decorated (RetainedRanking I) (List (Position I))} (h : build p settings now = .ok d) :
    d.inner.Fits := by
  obtain ⟨⟨⟩, hvalid, h⟩ := exists_ok_of_bind h
  obtain ⟨⟨⟩, hvalidate, hinterval⟩ := exists_ok_of_bind hvalid
  obtain ⟨-, -, h⟩ := exists_ok_of_bind h
  obtain ⟨r, hr, h⟩ := exists_ok_of_bind h
  obtain rfl := Except.ok.inj h
  show r.Fits
  unfold ofPolicy at hr
  cases hretention : p.retention with
  | uniform | resetOnSnapshot =>
    rw [hretention] at hr
    obtain ⟨s, -, rfl⟩ := exists_ok_of_map hr
    trivial
  | resetPeriodically interval =>
    rw [hretention] at hr hinterval
    exact fits_createRolling hr (Policy.checkInterval_eq_ok hinterval) (Nat.zero_le _)
  | byChunks window chunks =>
    obtain ⟨hchunks, -, hlong⟩ := (Policy.valid_of_validate hvalidate).byChunks window chunks hretention
    rw [hretention] at hr
    exact fits_createRolling hr hlong hchunks

/-- A ranking in a cache after an operation. -/
def operate (d : Decorated (RetainedRanking I) (List (Position I))) :
    Operation I → Decorated (RetainedRanking I) (List (Position I))
  | .update now weight identity => (Aggregate.write d now (weight, identity)).value.2
  | .read now => (Aggregate.read d now).value.2
  | .runTask number => { d with inner := (d.inner.runTask number).value.2 }
  | .dropTask number => { d with inner := (d.inner.dropTask number).2 }

theorem fits_operate {d : Decorated (RetainedRanking I) (List (Position I))} (h : d.inner.Fits)
    {op : Operation I} (hop : ∀ now ∈ op.instant?, now ≤ maxWord) : (operate d op).inner.Fits := by
  cases op with
  | update now weight identity => exact h.update (hop now rfl) weight identity
  | read now => exact invariant_fits.decorated.read h now (hop now rfl)
  | runTask number => exact h.runTask number
  | dropTask number => exact h.dropTask number

theorem fits_run {d : Decorated (RetainedRanking I) (List (Position I))} (h : d.inner.Fits)
    (ops : List (Operation I)) (hops : ∀ now ∈ instants ops, now ≤ maxWord) :
    (ops.foldl operate d).inner.Fits := by
  induction ops using List.reverseRecOn with
  | nil => exact h
  | append_singleton ops op ih =>
    rw [instants_concat] at hops
    rw [List.foldl_append]
    refine fits_operate (ih fun now hnow => hops now (List.mem_append_left _ hnow)) fun now hnow => ?_
    exact hops now (List.mem_append_right _ (Option.mem_toList.mpr hnow))

end RetainedRanking

/-! ### Valid policies -/

/-- **Nothing overflows under a valid policy.**  Counters and hit ratios of valid policies, and rankings
that have been built, are made without a number that does not fit, and after every run, with any clock,
every write, every read and every task fits again. -/
theorem validated_fit (p : Policy) (creation : Nat) :
    (p.validate = .ok () →
      (∃ c, Counter.build? p creation = some (.ok c) ∧ ∀ run : List (Access Int64),
        (∀ access ∈ run, access.instant ≤ maxWord) → Aggregate.AllFit (Aggregate.after c run)) ∧
      ∃ r, HitRatio.build? p creation = some (.ok r) ∧ ∀ run : List (Access (UInt32 × UInt32)),
        (∀ access ∈ run, access.instant ≤ maxWord) → Aggregate.AllFit (Aggregate.after r run)) ∧
    ∀ (I : Type) [DecidableEq I] (settings : RankingSettings)
      (d : Decorated (RetainedRanking I) (List (Position I))),
        RetainedRanking.build p settings creation = .ok d →
        RetainedRanking.build? p settings creation = some (.ok d) ∧ ∀ ops : List (Operation I),
          (∀ now ∈ instants ops, now ≤ maxWord) →
          let d := ops.foldl RetainedRanking.operate d
          Aggregate.AllFit d ∧
            ∀ number, d.inner.runTask? number = some (d.inner.runTask number).value := by
  refine ⟨fun hp => ⟨?_, ?_⟩, ?_⟩
  · have hvalid := Policy.valid_of_validate hp
    refine ⟨.create (Counter.ofRetention p.retention creation) p.caching, ?_, fun run hrun => ?_⟩
    · rw [Counter.build?_eq, Counter.build, hp]
      rfl
    · have hinv := Counter.invariant_fits.decorated (V := Int64)
      exact hinv.allFit (hinv.after (Counter.fits_ofRetention hvalid creation) run hrun)
  · have hvalid := Policy.valid_of_validate hp
    refine ⟨.create (HitRatio.ofRetention p.retention creation) p.caching, ?_, fun run hrun => ?_⟩
    · rw [HitRatio.build?_eq, HitRatio.build, hp]
      rfl
    · have hinv := HitRatio.invariant_fits.decorated (V := Float)
      exact hinv.allFit (hinv.after (HitRatio.fits_ofRetention hvalid creation) run hrun)
  · intro I _ settings d hd
    refine ⟨by rw [RetainedRanking.build?_eq, hd], fun ops hops => ⟨?_, fun number => ?_⟩⟩
    · have hfits := RetainedRanking.fits_run (RetainedRanking.fits_build hd) ops hops
      exact RetainedRanking.invariant_fits.decorated.allFit hfits
    · exact RetainedRanking.runTask?_eq _ number

/-- The clock starts at the last instant and jumps to the first. -/
theorem validated_fit_jumps :
    let p : Policy := { retention := .byChunks ⟨1, 0⟩ 2, background := .deferred }
    let settings : RankingSettings := { capacity := 1, poolSize := 1, batchSize := 1 }
    let run : List (Access Int64) := [.write 0 7, .read maxWord, .write 600 (-9)]
    let updates : List (Access (UInt32 × UInt32)) := [.write maxWord (3, 4), .write 0 (5, 4)]
    let ops : List (Operation Nat) := [.update 0 3 1, .read maxWord, .update 600 4 2, .runTask 0]
    p.validate = .ok () ∧
      (∃ c, Counter.build? p maxWord = some (.ok c) ∧
        (∀ access ∈ run, access.instant ≤ maxWord) ∧ Aggregate.AllFit (Aggregate.after c run)) ∧
      (∃ r, HitRatio.build? p maxWord = some (.ok r) ∧
        (∀ access ∈ updates, access.instant ≤ maxWord) ∧
        Aggregate.AllFit (Aggregate.after r updates)) ∧
      ∃ d : Decorated (RetainedRanking Nat) (List (Position Nat)),
        RetainedRanking.build p settings maxWord = .ok d ∧ (∀ now ∈ instants ops, now ≤ maxWord) ∧
          Aggregate.AllFit (ops.foldl RetainedRanking.operate d) := by
  intro p settings run updates ops
  have hp : p.validate = .ok () := by decide
  have hrun : ∀ access ∈ run, access.instant ≤ maxWord := by decide
  have hupdates : ∀ access ∈ updates, access.instant ≤ maxWord := by decide
  have hops : ∀ now ∈ instants ops, now ≤ maxWord := by decide
  obtain ⟨ranking, hranking⟩ : ∃ ranking : ChunkedRanking Nat,
      ChunkedRanking.create settings 500 2 maxWord = .ok ranking :=
    ChunkedRanking.exists_create (by decide) (by decide) (by decide) 2 maxWord
  obtain ⟨d, hd⟩ : ∃ d : Decorated (RetainedRanking Nat) (List (Position Nat)),
      RetainedRanking.build p settings maxWord = .ok d := by
    have hcreate : RetainedRanking.createRolling settings 500 2 maxWord .deferred =
        .ok (.rolling { ranking, background := .deferred }) := by
      unfold RetainedRanking.createRolling
      rw [hranking]
      rfl
    refine ⟨.create (.rolling { ranking, background := .deferred }) none, ?_⟩
    show (RetainedRanking.createRolling settings 500 2 maxWord .deferred >>= fun r =>
      .ok (Decorated.create r none)) = _
    rw [hcreate]
    rfl
  obtain ⟨hvalid, hbuilt⟩ := validated_fit p maxWord
  obtain ⟨⟨c, hc, hcounter⟩, r, hr, hratio⟩ := hvalid hp
  exact ⟨hp, ⟨c, hc, hrun, hcounter run hrun⟩, ⟨r, hr, hupdates, hratio updates hupdates⟩, d, hd, hops,
    ((hbuilt Nat settings d hd).2 ops hops).1⟩

end WindowedMetrics
