import ThePipe.Utils.Segments

/-!
# The gaps between split points

What `for_each_disjoint_segment` is for: its calls enumerate the maximal runs of numbers within the
boundaries that contain no split point.  They do so exactly when there is no last run of one number
right after a split point (`enumeratesGaps_iff`).
-/

set_option autoImplicit false

namespace ThePipe.Utils

variable {w : ℕ}

/-- A run of numbers within the boundaries without a split point, which cannot be made longer. -/
structure IsMaximalRun (boundaries : InclusiveIntegralRange w) (splitPoints : FlatSet (BitVec w))
    (r : InclusiveIntegralRange w) : Prop where
  nonempty : r.startAt ≤ r.stopAt
  bounded : boundaries.startAt ≤ r.startAt ∧ r.stopAt ≤ boundaries.stopAt
  free : ∀ p ∈ splitPoints.values, ¬ r.Contains p
  left : r.startAt = boundaries.startAt ∨ r.startAt - 1 ∈ splitPoints.values
  right : r.stopAt = boundaries.stopAt ∨ r.stopAt + 1 ∈ splitPoints.values

/-- One of the points lies after the first range and before the second. -/
def SplitBetween (points : List (BitVec w)) (r r' : InclusiveIntegralRange w) : Prop :=
  ∃ p ∈ points, r.stopAt < p ∧ p < r'.startAt

/-- The ranges are the maximal runs, in order. -/
structure EnumeratesGaps (boundaries : InclusiveIntegralRange w)
    (splitPoints : FlatSet (BitVec w)) (ranges : List (InclusiveIntegralRange w)) : Prop where
  runs : ∀ r, r ∈ ranges ↔ IsMaximalRun boundaries splitPoints r
  increasing : ranges.Pairwise fun r r' => r.stopAt < r'.startAt
  separated : ranges.Pairwise (SplitBetween splitPoints.values)
  /-- Every number that is left over is in exactly one of them. -/
  covers : ∀ n, boundaries.Contains n → n ∉ splitPoints.values →
    ∃! r, r ∈ ranges ∧ r.Contains n

/-- The last run has one number, and comes right after a split point. -/
def EndsWithSingleton (boundaries : InclusiveIntegralRange w)
    (splitPoints : FlatSet (BitVec w)) : Prop :=
  boundaries.stopAt ∉ splitPoints.values ∧ ∃ p ∈ splitPoints.values,
    boundaries.startAt ≤ p ∧ p < boundaries.stopAt ∧ p + 1 = boundaries.stopAt

instance (boundaries : InclusiveIntegralRange w) (splitPoints : FlatSet (BitVec w)) :
    Decidable (EndsWithSingleton boundaries splitPoints) :=
  decidable_of_iff (boundaries.stopAt ∉ splitPoints.values ∧ splitPoints.values.any fun p =>
      boundaries.startAt ≤ p ∧ p < boundaries.stopAt ∧ p + 1 = boundaries.stopAt)
    (by simp [EndsWithSingleton])

/-! ## Maximal runs -/

section Runs

variable {boundaries r r' : InclusiveIntegralRange w} {splitPoints : FlatSet (BitVec w)}
  {n : BitVec w}

theorem IsMaximalRun.startAt_le (h : IsMaximalRun boundaries splitPoints r)
    (h' : IsMaximalRun boundaries splitPoints r') (hn : r.Contains n) (hn' : r'.Contains n) :
    r.startAt ≤ r'.startAt := by
  by_contra hlt
  rw [not_le] at hlt
  rcases h.left with hfirst | hsplit
  · exact absurd (h'.bounded.1.trans_lt hlt) (by rw [hfirst]; exact lt_irrefl _)
  · -- the split point before `r` would be inside `r'`
    refine h'.free _ hsplit ⟨(le_sub_one_iff hlt).2 hlt, ?_⟩
    have hbefore : r.startAt - 1 < r.startAt := (le_sub_one_iff hlt).1 le_rfl
    exact hbefore.le.trans (hn.1.trans hn'.2)

theorem IsMaximalRun.le_stopAt (h : IsMaximalRun boundaries splitPoints r)
    (h' : IsMaximalRun boundaries splitPoints r') (hn : r.Contains n) (hn' : r'.Contains n) :
    r'.stopAt ≤ r.stopAt := by
  by_contra hlt
  rw [not_le] at hlt
  rcases h.right with hlast | hsplit
  · exact absurd (hlt.trans_le h'.bounded.2) (by rw [hlast]; exact lt_irrefl _)
  · refine h'.free _ hsplit ⟨?_, (add_one_le_iff hlt).2 hlt⟩
    have hafter : r.stopAt < r.stopAt + 1 := (add_one_le_iff hlt).1 le_rfl
    exact hn'.1.trans (hn.2.trans hafter.le)

theorem IsMaximalRun.eq (h : IsMaximalRun boundaries splitPoints r)
    (h' : IsMaximalRun boundaries splitPoints r') (hn : r.Contains n) (hn' : r'.Contains n) :
    r = r' := by
  have hstart : r.startAt = r'.startAt :=
    le_antisymm (h.startAt_le h' hn hn') (h'.startAt_le h hn' hn)
  have hstop : r.stopAt = r'.stopAt :=
    le_antisymm (h'.le_stopAt h hn' hn) (h.le_stopAt h' hn hn')
  cases r
  cases r'
  simp_all

end Runs

/-! ## Split points between the ranges -/

section Separated

variable {indexStart : BitVec w} {is is' : List (BitVec w)} {r r' : InclusiveIntegralRange w}

theorem SplitBetween.mono (hsub : ∀ p ∈ is, p ∈ is') (h : SplitBetween is r r') :
    SplitBetween is' r r' := by
  obtain ⟨p, hp, hlt⟩ := h
  exact ⟨p, hsub p hp, hlt⟩

theorem separated_segmentLoop (hs : is.Pairwise (· < ·)) (hle : ∀ i ∈ is, indexStart ≤ i) :
    (segmentLoop indexStart is).1.Pairwise (SplitBetween is) := by
  induction is generalizing indexStart with
  | nil => simp [segmentLoop]
  | cons p ps ih =>
    obtain ⟨hp, hps⟩ := List.pairwise_cons.1 hs
    have hnext : ∀ q ∈ ps, p + 1 ≤ q := by
      intro q hq
      exact (add_one_le_iff (hp q hq)).2 (hp q hq)
    have hrest : (segmentLoop (p + 1) ps).1.Pairwise (SplitBetween (p :: ps)) :=
      (ih hps hnext).imp (SplitBetween.mono fun _ hq => List.mem_cons_of_mem p hq)
    have hafter : ∀ r ∈ (segmentLoop (p + 1) ps).1, p < r.startAt := by
      intro r hr
      have hlast : ∀ q ∈ ps, q ≤ BitVec.allOnes w := by
        intro q _
        rw [BitVec.le_def, BitVec.toNat_allOnes]
        omega
      obtain ⟨ho, hbefore⟩ := ordered_segmentLoop hps hnext hlast
      obtain ⟨q, hq, -⟩ := hbefore r hr
      exact (add_one_le_iff (hp q hq)).1 (ho.bounded r hr).1
    rw [segmentLoop]
    dsimp only
    split
    · next hne =>
      have hlt : indexStart < p := lt_of_le_of_ne (hle p List.mem_cons_self) hne
      refine List.pairwise_cons.2 ⟨?_, hrest⟩
      intro r hr
      exact ⟨p, List.mem_cons_self, (le_sub_one_iff hlt).1 le_rfl, hafter r hr⟩
    · exact hrest

variable {boundaries : InclusiveIntegralRange w} {splitPoints : FlatSet (BitVec w)}

theorem separated_forEachDisjointSegment (hs : splitPoints.Increasing) :
    (forEachDisjointSegment boundaries splitPoints).Pairwise
      (SplitBetween splitPoints.values) := by
  by_cases hnil : (trim boundaries splitPoints).values = []
  · rw [forEachDisjointSegment_of_eq_nil hnil]
    exact List.pairwise_singleton _ _
  · have hsorted := increasing_trim boundaries hs
    have hstart : ∀ p ∈ (trim boundaries splitPoints).values, boundaries.startAt ≤ p := by
      intro p hp
      exact ((mem_trim hs).1 hp).2.1
    have hback := (mem_trim hs).1 (List.getLast_mem hnil)
    have hloop : (segmentLoop boundaries.startAt (trim boundaries splitPoints).values).1.Pairwise
        (SplitBetween splitPoints.values) :=
      (separated_segmentLoop hsorted hstart).imp
        (SplitBetween.mono fun _ hp => ((mem_trim hs).1 hp).1)
    rw [forEachDisjointSegment_of_ne_nil hnil]
    dsimp only
    split
    · next hlast =>
      have hlt := lt_of_le_of_ne hback.2.2 hlast.2.symm
      refine List.pairwise_append.2 ⟨hloop, List.pairwise_singleton _ _, ?_⟩
      intro r hr r' hr'
      obtain rfl := List.mem_singleton.1 hr'
      -- the last split point
      obtain ⟨-, hbefore⟩ := ordered_segmentLoop hsorted hstart fun p hp => ((mem_trim hs).1 hp).2.2
      obtain ⟨p, hp, hstop⟩ := hbefore r hr
      exact ⟨_, hback.1, hstop.trans_le (le_getLast_trim hs hnil hp),
        (add_one_le_iff hlt).1 le_rfl⟩
    · exact hloop

end Separated

/-! ## The enumeration -/

section Enumeration

variable {boundaries r : InclusiveIntegralRange w} {splitPoints : FlatSet (BitVec w)}
  {ranges : List (InclusiveIntegralRange w)}

/-- Ranges in order with split points between them, which leave out the split points and nothing
else, are maximal runs. -/
theorem isMaximalRun_of_mem (ho : Ordered ranges boundaries.startAt boundaries.stopAt)
    (hseparated : ranges.Pairwise (SplitBetween splitPoints.values))
    (hcovers : ∀ n, Covers ranges n ↔ boundaries.Contains n ∧ n ∉ splitPoints.values)
    (hr : r ∈ ranges) : IsMaximalRun boundaries splitPoints r := by
  have hnonempty := ho.nonempty r hr
  obtain ⟨hfirst, hlast⟩ := ho.bounded r hr
  -- another range is before `r` or after it, with a split point in between
  have hother : ∀ r' ∈ ranges, r' ≠ r →
      SplitBetween splitPoints.values r' r ∨ SplitBetween splitPoints.values r r' := by
    intro r' hr' hne
    have hsymm : Std.Symm fun r r' =>
        SplitBetween splitPoints.values r r' ∨ SplitBetween splitPoints.values r' r :=
      ⟨fun _ _ h => h.symm⟩
    have heither : ranges.Pairwise fun r r' =>
        SplitBetween splitPoints.values r r' ∨ SplitBetween splitPoints.values r' r :=
      hseparated.imp Or.inl
    exact heither.forall hr' hr hne
  refine ⟨hnonempty, ⟨hfirst, hlast⟩, ?_, ?_, ?_⟩
  · intro p hp hc
    exact ((hcovers p).1 ⟨r, hr, hc⟩).2 hp
  · rcases hfirst.eq_or_lt with heq | hlt
    · exact .inl heq.symm
    · right
      by_contra hnot
      have hbefore : r.startAt - 1 < r.startAt := (le_sub_one_iff hlt).1 le_rfl
      obtain ⟨r', hr', hc⟩ := (hcovers (r.startAt - 1)).2
        ⟨⟨(le_sub_one_iff hlt).2 hlt, hbefore.le.trans (hnonempty.trans hlast)⟩, hnot⟩
      have hne : r' ≠ r := by
        rintro rfl
        exact absurd hc.1 (not_le.2 hbefore)
      obtain ⟨p, -, hpr', hpr⟩ | ⟨p, -, hpr, hpr'⟩ := hother r' hr' hne
      · exact absurd ((le_sub_one_iff hlt).2 hpr) (not_le.2 (hc.2.trans_lt hpr'))
      · exact absurd ((hnonempty.trans_lt hpr).trans hpr') (not_lt.2 (hc.1.trans hbefore.le))
  · rcases hlast.eq_or_lt with heq | hlt
    · exact .inl heq
    · right
      by_contra hnot
      have hafter : r.stopAt < r.stopAt + 1 := (add_one_le_iff hlt).1 le_rfl
      obtain ⟨r', hr', hc⟩ := (hcovers (r.stopAt + 1)).2
        ⟨⟨hfirst.trans (hnonempty.trans hafter.le), (add_one_le_iff hlt).2 hlt⟩, hnot⟩
      have hne : r' ≠ r := by
        rintro rfl
        exact absurd hc.2 (not_le.2 hafter)
      obtain ⟨p, -, hpr', hpr⟩ | ⟨p, -, hpr, hpr'⟩ := hother r' hr' hne
      · exact absurd ((hafter.trans_le hc.2).trans hpr') (not_lt.2 (hpr.le.trans hnonempty))
      · exact absurd ((add_one_le_iff hlt).2 hpr) (not_le.2 (hpr'.trans_le hc.1))

/-- **When the gaps are enumerated**: for split points that increase, the calls are for the maximal
runs without a split point, in order, if and only if there is no last run of one number right after
a split point. -/
theorem enumeratesGaps_iff (boundaries : InclusiveIntegralRange w)
    (splitPoints : FlatSet (BitVec w)) (hs : splitPoints.Increasing)
    (hb : boundaries.startAt ≤ boundaries.stopAt) :
    EnumeratesGaps boundaries splitPoints (forEachDisjointSegment boundaries splitPoints) ↔
      ¬ EndsWithSingleton boundaries splitPoints := by
  constructor
  · rintro h ⟨hstop, p, hp, hstart, hlt, hsucc⟩
    obtain ⟨r, ⟨hr, hc⟩, -⟩ := h.covers boundaries.stopAt ⟨hb, le_rfl⟩ hstop
    have hcovered := (covers_forEachDisjointSegment hs).1 ⟨r, hr, hc⟩
    exact hcovered.2 ⟨rfl, p, hp, hstart, hlt, hsucc⟩
  · intro hends
    have ho := ordered_forEachDisjointSegment hs hb
    have hseparated := @separated_forEachDisjointSegment w boundaries splitPoints hs
    have hcovers : ∀ n, Covers (forEachDisjointSegment boundaries splitPoints) n ↔
        boundaries.Contains n ∧ n ∉ splitPoints.values := by
      intro n
      rw [covers_forEachDisjointSegment hs, and_iff_left_iff_imp]
      rintro ⟨-, hn⟩ ⟨rfl, hlast⟩
      exact hends ⟨hn, hlast⟩
    have hruns : ∀ r ∈ forEachDisjointSegment boundaries splitPoints,
        IsMaximalRun boundaries splitPoints r :=
      fun r hr => isMaximalRun_of_mem ho hseparated hcovers hr
    have hunique : ∀ n, boundaries.Contains n → n ∉ splitPoints.values →
        ∃! r, r ∈ forEachDisjointSegment boundaries splitPoints ∧ r.Contains n := by
      intro n hn hnot
      obtain ⟨r, hr, hc⟩ := (hcovers n).2 ⟨hn, hnot⟩
      refine ⟨r, ⟨hr, hc⟩, ?_⟩
      rintro r' ⟨hr', hc'⟩
      exact (hruns r' hr').eq (hruns r hr) hc' hc
    refine ⟨fun r => ⟨hruns r, fun hr => ?_⟩, ho.pairwise, hseparated, hunique⟩
    have hfirst : r.Contains r.startAt := ⟨le_rfl, hr.nonempty⟩
    obtain ⟨r', ⟨hr', hc⟩, -⟩ := hunique r.startAt
      ⟨hr.bounded.1, hr.nonempty.trans hr.bounded.2⟩ fun hmem => hr.free _ hmem hfirst
    rw [hr.eq (hruns r' hr') hfirst hc]
    exact hr'

/-- The split point 9 leaves a last run of three numbers, and the lower boundary one of one. -/
theorem enumeratesGaps_iff_inside :
    EnumeratesGaps ⟨3, 12⟩ (⟨[4, 9]⟩ : FlatSet (BitVec 32))
      (forEachDisjointSegment ⟨3, 12⟩ ⟨[4, 9]⟩) :=
  (enumeratesGaps_iff ⟨3, 12⟩ ⟨[4, 9]⟩ (by decide) (by decide)).2 (by decide)

/-- No call is made for the number 5. -/
theorem last_number_is_left_out :
    ¬ EnumeratesGaps ⟨0, 5⟩ (⟨[4]⟩ : FlatSet (BitVec 32))
      (forEachDisjointSegment ⟨0, 5⟩ ⟨[4]⟩) := by
  intro h
  obtain ⟨r, ⟨hr, hc⟩, -⟩ := h.covers 5 (by decide) (by decide)
  have hranges : forEachDisjointSegment ⟨0, 5⟩ (⟨[4]⟩ : FlatSet (BitVec 32)) =
      [⟨0, 3⟩] := by decide
  rw [hranges, List.mem_singleton] at hr
  subst hr
  exact absurd hc (by decide)

end Enumeration

end ThePipe.Utils
