import Mathlib.Data.List.AList
import Mathlib.Data.List.Sort
import Mathlib.Data.Prod.Lex
import WindowedMetrics.Proofs.Ranking.Offers

/-!
# The standings behind a ranking

A ranking is a list kept in order; what it stands for is a map from identities to marks.  A mark is the
weight of an offer and the number of that offer, counted over all offers.  `Standings` are such a map with the
rules of offers said in terms of it: nothing in them has an order, and the position that gives way is the one
with the least mark.

The list is the map sorted by the marks (`Ranking.Records`), and every offer gets the same verdict from both
(`Records.offer`).  So ties are always decided by which offer came first.
-/

namespace WindowedMetrics

variable {I : Type}

/-- The offer that an identity is ranked by. -/
structure Mark where
  weight : Int64
  number : Nat
  deriving DecidableEq

/-- An identity with its mark. -/
abbrev Entry (I : Type) := Σ _ : I, Mark

namespace Entry

def position (e : Entry I) : Position I := ⟨e.2.weight, e.1⟩

/-- Entries are compared by weight, and those of equal weight by the number of the offer. -/
def key (e : Entry I) : ℤ ×ₗ ℕ := toLex (e.2.weight.toInt, e.2.number)

/-- The lighter entry, or the earlier one of equal weight. -/
def AtMost (a b : Entry I) : Prop := a.key ≤ b.key

instance : DecidableRel (AtMost (I := I)) := fun a b => inferInstanceAs (Decidable (a.key ≤ b.key))

instance : Std.Total (AtMost (I := I)) := ⟨fun a b => le_total a.key b.key⟩

instance : IsTrans (Entry I) AtMost := ⟨fun _ _ _ hab hbc => le_trans hab hbc⟩

end Entry

/-- A map from identities to marks, with the number of offers made so far. -/
structure Standings (I : Type) where
  capacity : Nat
  threshold : Int64
  made : Nat := 0
  marks : AList fun _ : I => Mark := ∅

namespace Standings

/-- The positions of the entries, sorted by their marks. -/
def ascending (s : Standings I) : List (Position I) :=
  (s.marks.entries.insertionSort Entry.AtMost).map Entry.position

/-- The entry with the least mark. -/
def least? (s : Standings I) : Option (Entry I) :=
  s.marks.entries.find? fun e : Entry I => s.marks.entries.all fun other => decide (e.AtMost other)

/-- The marks replaced, and one more offer made. -/
def count (s : Standings I) (marks : AList fun _ : I => Mark) : Standings I :=
  { s with made := s.made + 1, marks }

variable [DecidableEq I]

/-- Offer a position. -/
def offer (s : Standings I) (weight : Int64) (identity : I) : Verdict × Standings I :=
  if s.capacity = 0 ∨ weight < s.threshold then (.tooSmall, s.count s.marks)
  else
    let mark : Mark := ⟨weight, s.made⟩
    match s.marks.lookup identity with
    | some standing =>
      if weight ≤ standing.weight then (.duplicate, s.count s.marks)
      else (.inserted, s.count (s.marks.insert identity mark))
    | none =>
      if s.marks.entries.length < s.capacity then (.inserted, s.count (s.marks.insert identity mark))
      else
        match s.least? with
        | none => (.tooSmall, s.count s.marks)
        | some least =>
          if weight ≤ least.2.weight then (.tooSmall, s.count s.marks)
          else (.inserted, s.count ((s.marks.erase least.1).insert identity mark))

omit [DecidableEq I] in
/-- Drop all entries. -/
def reset (s : Standings I) : Standings I := { s with marks := ∅ }

end Standings

/-! ### Entries in order -/

section Order

variable {l : List (Entry I)} {e : Entry I}

/-- Entries in the order of their marks, which are all different. -/
def ByMark (l : List (Entry I)) : Prop := l.Pairwise fun a b => a.key < b.key

theorem ByMark.eq_of_key_eq (h : ByMark l) {a b : Entry I} (ha : a ∈ l) (hb : b ∈ l)
    (hkey : a.key = b.key) : a = b := by
  have hnodup : (l.map Entry.key).Nodup := List.pairwise_map.mpr (h.imp fun hlt => hlt.ne)
  exact List.inj_on_of_nodup_map hnodup ha hb hkey

/-- There is one way to sort the entries. -/
theorem ByMark.insertionSort_eq (h : ByMark l) {entries : List (Entry I)} (hp : entries.Perm l) :
    entries.insertionSort Entry.AtMost = l := by
  refine List.Perm.eq_of_pairwise (fun a b ha hb hab hba => ?_) (List.pairwise_insertionSort _ _)
    (h.imp fun hlt => hlt.le) ((List.perm_insertionSort _ _).trans hp)
  have hmem : a ∈ l := hp.mem_iff.mp ((List.mem_insertionSort _).mp ha)
  exact h.eq_of_key_eq hmem hb (le_antisymm hab hba)

/-- A later entry comes in front of the heavier ones only. -/
theorem Entry.atMost_iff {a b : Entry I} (h : b.2.number < a.2.number) :
    a.AtMost b ↔ a.2.weight < b.2.weight := by
  unfold AtMost key
  rw [Prod.Lex.toLex_le_toLex, Int64.lt_iff_toInt_lt]
  dsimp only
  omega

variable (hlater : ∀ b ∈ l, b.2.number < e.2.number)
include hlater

theorem ByMark.orderedInsert (h : ByMark l) : ByMark (l.orderedInsert Entry.AtMost e) := by
  induction l with
  | nil => exact List.pairwise_singleton _ _
  | cons b l ih =>
    obtain ⟨hb, hl⟩ := List.pairwise_cons.mp h
    by_cases hle : e.AtMost b
    · rw [List.orderedInsert_cons_of_le _ _ hle]
      have heb : e.key < b.key := by
        refine lt_of_le_of_ne hle fun hkey => ?_
        have hnumber : e.2.number = b.2.number := congrArg (fun k => (ofLex k).2) hkey
        exact absurd (hlater b List.mem_cons_self) (by omega)
      refine List.pairwise_cons.mpr ⟨fun x hx => ?_, h⟩
      rcases List.mem_cons.mp hx with rfl | hx
      · exact heb
      · exact heb.trans (hb x hx)
    · rw [List.orderedInsert_of_not_le _ _ hle]
      refine List.pairwise_cons.mpr
        ⟨fun x hx => ?_, ih (fun x hx => hlater x (List.mem_cons_of_mem _ hx)) hl⟩
      rcases (List.mem_orderedInsert _).mp hx with rfl | hx
      · exact not_le.mp hle
      · exact hb x hx

/-- Sorting in a new entry is placing its position. -/
theorem map_orderedInsert : (l.orderedInsert Entry.AtMost e).map Entry.position =
    Ranking.place e.position (l.map Entry.position) := by
  induction l with
  | nil => rfl
  | cons b l ih =>
    have hiff := Entry.atMost_iff (hlater b List.mem_cons_self)
    rw [List.map_cons]
    unfold Ranking.place
    by_cases hle : e.AtMost b
    · rw [List.orderedInsert_cons_of_le _ _ hle]
      exact (if_pos (hiff.mp hle)).symm
    · rw [List.orderedInsert_of_not_le _ _ hle, List.map_cons,
        ih fun x hx => hlater x (List.mem_cons_of_mem _ hx)]
      exact (if_neg fun hlt => hle (hiff.mpr hlt)).symm

end Order

/-! ### Rankings and standings -/

variable [DecidableEq I]

/-- The ranking is the map of the standings in order, which is `l`. -/
structure Ranking.Records (r : Ranking I) (s : Standings I) (l : List (Entry I)) : Prop where
  capacity_eq : r.capacity = s.capacity
  threshold_eq : r.threshold = s.threshold
  perm : s.marks.entries.Perm l
  byMark : ByMark l
  earlier : ∀ e ∈ l, e.2.number < s.made
  positions_eq : r.positions = l.map Entry.position

namespace Ranking.Records

variable {r : Ranking I} {s : Standings I} {l : List (Entry I)} {identity : I}

omit [DecidableEq I] in
theorem ascending_eq (h : r.Records s l) : s.ascending = r.positions := by
  unfold Standings.ascending
  rw [h.byMark.insertionSort_eq h.perm, h.positions_eq]

omit [DecidableEq I] in
/-- The first entry is the only one with the least mark. -/
theorem least?_eq {first : Entry I} {rest : List (Entry I)} (h : r.Records s (first :: rest)) :
    s.least? = some first := by
  have hfirst : first ∈ s.marks.entries := h.perm.mem_iff.mpr List.mem_cons_self
  have hleast : ∀ other ∈ s.marks.entries, first.AtMost other := by
    intro other hother
    rcases List.mem_cons.mp (h.perm.mem_iff.mp hother) with rfl | hrest
    · exact le_refl _
    · exact ((List.pairwise_cons.mp h.byMark).1 other hrest).le
  unfold Standings.least?
  cases hfind : s.marks.entries.find? fun e : Entry I => s.marks.entries.all fun other => decide (e.AtMost other) with
  | none =>
    have hnone := List.find?_eq_none.mp hfind first hfirst
    exact absurd (List.all_eq_true.mpr fun other hother => decide_eq_true (hleast other hother)) hnone
  | some least =>
    have hmem : least ∈ s.marks.entries := List.mem_of_find?_eq_some hfind
    have hall := List.find?_some hfind
    simp only [List.all_eq_true, decide_eq_true_eq] at hall
    have hkey : least.key = first.key := le_antisymm (hall first hfirst) (hleast least hmem)
    rw [h.byMark.eq_of_key_eq (h.perm.mem_iff.mp hmem) List.mem_cons_self hkey]

omit [DecidableEq I] in
theorem nodupKeys (h : r.Records s l) : l.NodupKeys :=
  (List.perm_nodupKeys h.perm).mp s.marks.nodupKeys

theorem lookup_eq (h : r.Records s l) (identity : I) : s.marks.lookup identity = l.dlookup identity :=
  List.perm_dlookup identity s.marks.nodupKeys h.perm

theorem weightOf?_eq (h : r.Records s l) (identity : I) :
    r.weightOf? identity = (s.marks.lookup identity).map Mark.weight := by
  rw [h.lookup_eq]
  unfold weightOf?
  rw [h.positions_eq]
  clear h
  induction l with
  | nil => rfl
  | cons e l ih =>
    rw [List.map_cons]
    by_cases hi : e.1 = identity
    · subst hi
      rw [List.find?_cons_of_pos (by simp [Entry.position]), List.dlookup_cons_eq]
      rfl
    · rw [List.find?_cons_of_neg (by simp [Entry.position, hi]),
        List.dlookup_cons_ne _ _ (Ne.symm hi)]
      exact ih

theorem without_eq (h : r.Records s l) (identity : I) :
    r.without identity = (l.kerase identity).map Entry.position := by
  unfold without List.kerase
  rw [h.positions_eq, List.eraseP_map]
  congr 2
  funext e
  exact decide_eq_decide.mpr eq_comm

omit [DecidableEq I] in
/-- An offer that is skipped is counted. -/
theorem skip (h : r.Records s l) : r.Records (s.count s.marks) l where
  capacity_eq := h.capacity_eq
  threshold_eq := h.threshold_eq
  perm := h.perm
  byMark := h.byMark
  earlier := fun e he => Nat.lt_succ_of_lt (h.earlier e he)
  positions_eq := h.positions_eq

/-- A new mark among the entries that stay. -/
theorem insert (h : r.Records s l) (weight : Int64) {marks : AList fun _ : I => Mark}
    {rest : List (Entry I)} (hrest : rest.Sublist l) (hp : (marks.entries.kerase identity).Perm rest) :
    Ranking.Records ⟨r.capacity, r.threshold, place ⟨weight, identity⟩ (rest.map Entry.position)⟩
      (s.count (marks.insert identity ⟨weight, s.made⟩))
      (rest.orderedInsert Entry.AtMost ⟨identity, ⟨weight, s.made⟩⟩) := by
  have hlater : ∀ b ∈ rest, b.2.number < s.made := fun b hb => h.earlier b (hrest.subset hb)
  refine ⟨h.capacity_eq, h.threshold_eq, ?_, ?_, ?_, ?_⟩
  · exact (hp.cons _).trans (List.perm_orderedInsert _ _ _).symm
  · exact ByMark.orderedInsert hlater (h.byMark.sublist hrest)
  · intro e he
    rcases (List.mem_orderedInsert _).mp he with rfl | he
    · exact Nat.lt_succ_self _
    · exact Nat.lt_succ_of_lt (hlater e he)
  · exact (map_orderedInsert (e := ⟨identity, ⟨weight, s.made⟩⟩) hlater).symm

/-- **Every offer gets the same verdict** from the list and from the map, and the list stays the map. -/
theorem offer (h : r.Records s l) (weight : Int64) (identity : I) :
    (r.offer weight identity).1 = (s.offer weight identity).1 ∧
      ∃ l', (r.offer weight identity).2.Records (s.offer weight identity).2 l' := by
  have hlength : s.marks.entries.length = r.positions.length := by
    rw [h.perm.length_eq, h.positions_eq, List.length_map]
  unfold Ranking.offer Standings.offer
  rw [← h.capacity_eq, ← h.threshold_eq, h.weightOf?_eq, hlength]
  by_cases hrefused : weight < r.threshold ∨ r.capacity = 0
  · rw [if_pos hrefused, if_pos hrefused.symm]
    exact ⟨rfl, l, h.skip⟩
  rw [if_neg hrefused, if_neg (mt Or.symm hrefused)]
  cases hlookup : s.marks.lookup identity with
  | some standing =>
    dsimp only [Option.map_some]
    by_cases hle : weight ≤ standing.weight
    · rw [if_pos hle, if_pos hle]
      exact ⟨rfl, l, h.skip⟩
    · rw [if_neg hle, if_neg hle, h.without_eq]
      exact ⟨rfl, _, h.insert weight (List.kerase_sublist _ _) (h.perm.kerase s.marks.nodupKeys)⟩
  | none =>
    dsimp only [Option.map_none]
    -- nothing is erased for a new identity
    have hnew : identity ∉ s.marks.entries.keys := AList.lookup_eq_none.mp hlookup
    have hkerase : s.marks.entries.kerase identity = s.marks.entries := List.kerase_of_notMem_keys hnew
    have hfull : r.isFull = true ↔ ¬ r.positions.length < r.capacity := by
      unfold Ranking.isFull
      rw [decide_eq_true_iff, Nat.not_lt]
    by_cases hroom : r.positions.length < r.capacity
    · rw [if_neg (fun hf => hfull.mp hf hroom), if_pos hroom, h.positions_eq]
      exact ⟨rfl, _, h.insert weight (List.Sublist.refl _) (hkerase.symm ▸ h.perm)⟩
    rw [if_pos (hfull.mpr hroom), if_neg hroom]
    cases l with
    | nil =>
      -- a full ranking that keeps positions has one
      have hempty : r.positions.length = 0 := by rw [h.positions_eq]; rfl
      exact absurd (Or.inr (by omega)) hrefused
    | cons first rest =>
      have hpositions : r.positions = first.position :: rest.map Entry.position := h.positions_eq
      rw [h.least?_eq, hpositions]
      dsimp only [Entry.position]
      by_cases hle : weight ≤ first.2.weight
      · rw [if_pos hle, if_pos hle]
        exact ⟨rfl, _, h.skip⟩
      rw [if_neg hle, if_neg hle]
      have hgone : (s.marks.erase first.1).entries.Perm rest := by
        have hkept := h.perm.kerase (a := first.1) s.marks.nodupKeys
        rwa [List.kerase_cons_eq rfl] at hkept
      have habsent : identity ∉ (s.marks.erase first.1).entries.keys := fun hmem =>
        hnew (List.mem_keys_of_mem_keys_kerase hmem)
      have hkept : ((s.marks.erase first.1).entries.kerase identity).Perm rest := by
        rwa [List.kerase_of_notMem_keys habsent]
      exact ⟨rfl, _, h.insert weight (List.sublist_cons_self _ _) hkept⟩

omit [DecidableEq I] in
theorem reset (h : r.Records s l) : r.reset.Records s.reset [] where
  capacity_eq := h.capacity_eq
  threshold_eq := h.threshold_eq
  perm := List.Perm.refl _
  byMark := List.Pairwise.nil
  earlier := fun _ he => nomatch he
  positions_eq := rfl

end Ranking.Records

/-! ### Runs of calls -/

/-- A call that changes a ranking. -/
inductive Ranking.Call (I : Type) where
  | offer (weight : Int64) (identity : I)
  | reset

namespace Ranking

/-- The ranking after some calls. -/
def after (r : Ranking I) (calls : List (Call I)) : Ranking I :=
  calls.foldl (fun r call => match call with
    | .offer weight identity => r.add weight identity
    | .reset => r.reset) r

end Ranking

namespace Standings

omit [DecidableEq I] in
/-- Standings without entries. -/
def blank (capacity : Nat) (threshold : Int64) : Standings I := { capacity, threshold }

/-- The standings after the calls of a ranking. -/
def after (s : Standings I) (calls : List (Ranking.Call I)) : Standings I :=
  calls.foldl (fun s call => match call with
    | .offer weight identity => (s.offer weight identity).2
    | .reset => s.reset) s

end Standings

omit [DecidableEq I] in
theorem Ranking.records_blank (capacity : Nat) (threshold : Int64) :
    (blank capacity threshold : Ranking I).Records (Standings.blank capacity threshold) [] where
  capacity_eq := rfl
  threshold_eq := rfl
  perm := List.Perm.refl _
  byMark := List.Pairwise.nil
  earlier := fun _ he => nomatch he
  positions_eq := rfl

theorem Ranking.Records.after {r : Ranking I} {s : Standings I} {l : List (Entry I)}
    (h : r.Records s l) (calls : List (Ranking.Call I)) :
    ∃ l', (r.after calls).Records (s.after calls) l' := by
  induction calls generalizing r s l with
  | nil => exact ⟨l, h⟩
  | cons call calls ih =>
    cases call with
    | offer weight identity =>
      obtain ⟨-, l', hnext⟩ := h.offer weight identity
      exact ih hnext
    | reset => exact ih h.reset

/-! ### What an offer leaves alone -/

/-- The positions of the other identities. -/
def others (identity : I) (l : List (Position I)) : List (Position I) :=
  l.filter fun p => p.identity ≠ identity

namespace Ranking

variable {identity : I}

@[simp] theorem others_cons_of_ne {p : Position I} (h : p.identity ≠ identity)
    (l : List (Position I)) : others identity (p :: l) = p :: others identity l :=
  List.filter_cons_of_pos (decide_eq_true h)

@[simp] theorem others_cons_self (weight : Int64) (l : List (Position I)) :
    others identity (⟨weight, identity⟩ :: l) = others identity l :=
  List.filter_cons_of_neg (by simp)

theorem others_place (weight : Int64) (l : List (Position I)) :
    others identity (place ⟨weight, identity⟩ l) = others identity l := by
  induction l with
  | nil => exact others_cons_self weight []
  | cons q l ih =>
    unfold place
    split_ifs with hlt
    · exact others_cons_self weight (q :: l)
    · unfold others at ih ⊢
      rw [List.filter_cons, List.filter_cons, ih]

theorem others_without (r : Ranking I) :
    others identity (r.without identity) = others identity r.positions := by
  unfold without
  induction r.positions with
  | nil => rfl
  | cons q l ih =>
    by_cases hq : q.identity = identity
    · subst hq
      rw [List.eraseP_cons_of_pos (by simp)]
      exact (others_cons_self q.weight l).symm
    · rw [List.eraseP_cons_of_neg (by simpa using hq), others_cons_of_ne hq, others_cons_of_ne hq, ih]

/-- An offer is skipped without a trace, or its position is there afterwards and at most one other is
gone, which was the first of a full ranking. -/
theorem Outcome.traces {r : Ranking I} {weight : Int64} {verdict : Verdict} {l : List (Position I)}
    (h : Outcome r weight identity verdict l) :
    (verdict ≠ .inserted ∧ l = r.positions) ∨
      (verdict = .inserted ∧ ⟨weight, identity⟩ ∈ l ∧
        ∃ gone : Option (Position I),
          others identity r.positions = gone.toList ++ others identity l ∧
          (gone ≠ none → r.capacity ≤ r.positions.length ∧ r.positions.head? = gone ∧
            identity ∉ identities r.positions)) := by
  cases h with
  | refused | duplicate | outweighed => exact .inl ⟨by decide, rfl⟩
  | raised =>
    refine .inr ⟨rfl, mem_place.mpr (.inl rfl), none, ?_, fun hn => absurd rfl hn⟩
    rw [others_place, others_without]
    rfl
  | evicting lightest rest hpos hnew hfull =>
    have hother : lightest.identity ≠ identity := fun hi => hnew (by simp [hpos, ← hi])
    refine .inr ⟨rfl, mem_place.mpr (.inl rfl), some lightest, ?_, fun _ => ⟨hfull, by simp [hpos], hnew⟩⟩
    rw [hpos, others_cons_of_ne hother, others_place]
    rfl
  | admitted =>
    refine .inr ⟨rfl, mem_place.mpr (.inl rfl), none, ?_, fun hn => absurd rfl hn⟩
    rw [others_place]
    rfl

/-- **A ranking is its standings in order**: after any calls its positions are the entries sorted by
weight and, among equal weights, by the number of the offer; the next offer gets the verdict of the
standings and leaves the positions that they have next.  An offer that is skipped changes nothing; one that
is inserted changes the position of its identity and takes away at most the first position. -/
theorem positions_standings (capacity : Nat) (threshold : Int64) (calls : List (Call I)) :
    let r := (blank capacity threshold).after calls
    let s := (Standings.blank capacity threshold).after calls
    r.positions = s.ascending ∧
      ∀ weight identity,
        let next := r.offer weight identity
        next.1 = (s.offer weight identity).1 ∧
          next.2.positions = (s.offer weight identity).2.ascending ∧
          (next.1 ≠ .inserted → next.2 = r) ∧
          (next.1 = .inserted → ⟨weight, identity⟩ ∈ next.2.positions ∧
            ∃ gone : Option (Position I),
              others identity r.positions = gone.toList ++ others identity next.2.positions ∧
              (gone ≠ none → r.capacity ≤ r.positions.length ∧ r.positions.head? = gone ∧
                identity ∉ identities r.positions)) := by
  intro r s
  obtain ⟨l, h⟩ := (records_blank (I := I) capacity threshold).after calls
  refine ⟨h.ascending_eq.symm, fun weight identity => ?_⟩
  intro next
  obtain ⟨hverdict, l', hnext⟩ := h.offer weight identity
  refine ⟨hverdict, hnext.ascending_eq.symm, ?_, ?_⟩
  · intro hskipped
    rcases (outcome_offer r weight identity).traces with ⟨-, hsame⟩ | ⟨hinserted, -⟩
    · exact Ranking.ext (capacity_offer r weight identity) (threshold_offer r weight identity) hsame
    · exact absurd hinserted hskipped
  · intro hinserted
    rcases (outcome_offer r weight identity).traces with ⟨hskipped, -⟩ | ⟨-, htraces⟩
    · exact absurd hinserted hskipped
    · exact htraces

/-- Of two positions of equal weight the one that was offered with it first gives way. -/
theorem positions_standings_tie :
    let calls : List (Call Nat) := [.offer 9 3, .reset, .offer 5 1, .offer 7 2, .offer 7 1]
    let r := (blank 2 0).after calls
    let s := (Standings.blank 2 0).after calls
    s.ascending = [⟨7, 2⟩, ⟨7, 1⟩] ∧
      (r.offer 7 1).1 = .duplicate ∧ (r.offer 7 1).2 = r ∧
      (s.offer 8 3).1 = .inserted ∧ (s.offer 8 3).2.ascending = [⟨7, 1⟩, ⟨8, 3⟩] ∧
      ⟨8, 3⟩ ∈ (r.offer 8 3).2.positions := by
  intro calls r s
  obtain ⟨hpositions, hoffer⟩ := positions_standings (I := Nat) 2 0 calls
  obtain ⟨-, -, hskipped, -⟩ := hoffer 7 1
  obtain ⟨hverdict, hnext, -, hinserted⟩ := hoffer 8 3
  have hduplicate : (r.offer 7 1).1 = .duplicate := by decide
  have hadded : (r.offer 8 3).1 = .inserted := by decide
  refine ⟨?_, hduplicate, hskipped (by rw [hduplicate]; decide), ?_, ?_, (hinserted hadded).1⟩
  · rw [← hpositions]
    decide
  · rw [← hverdict]
    decide
  · rw [← hnext]
    decide

end Ranking

end WindowedMetrics
