import ThePipe.Utils.FlatSet

/-!
# Splitting a range

`for_each_disjoint_segment` calls a function on the ranges that remain of `boundaries` when the
split points are taken out.  Here it returns these ranges, in the order of the calls.  The
arithmetic wraps around: what comes after the largest number is zero.

The calls cover what the split points leave over, except that a last range of one number, right
after a split point, is not reported.
-/

set_option autoImplicit false

namespace ThePipe.Utils

variable {w : ℕ}

/-- The `while` loop: the ranges it reports, and `index_start` as it is left. -/
def segmentLoop (indexStart : BitVec w) :
    List (BitVec w) → List (InclusiveIntegralRange w) × BitVec w
  | [] => ([], indexStart)
  | indexStop :: is =>
    let (ranges, last) := segmentLoop (indexStop + 1) is
    (if indexStart ≠ indexStop then ⟨indexStart, indexStop - 1⟩ :: ranges else ranges, last)

def forEachDisjointSegment (boundaries : InclusiveIntegralRange w)
    (splitPoints : FlatSet (BitVec w)) : List (InclusiveIntegralRange w) :=
  match (trim boundaries splitPoints).values with
  | [] => [boundaries]
  | i :: is =>
    let (ranges, indexStart) :=
      if i = boundaries.startAt then segmentLoop (boundaries.startAt + 1) is
      else segmentLoop boundaries.startAt (i :: is)
    if indexStart ≠ boundaries.stopAt ∧ boundaries.stopAt ≠ (i :: is).getLast (by simp) then
      ranges ++ [⟨indexStart, boundaries.stopAt⟩]
    else ranges

/-! ## The successor of a number -/

theorem one_toNat {p q : BitVec w} (h : p < q) : (1 : BitVec w).toNat = 1 := by
  have hw := q.isLt
  rw [BitVec.lt_def] at h
  refine BitVec.toNat_one (Nat.pos_of_ne_zero ?_)
  rintro rfl
  omega

theorem add_one_toNat {p q : BitVec w} (h : p < q) : (p + 1).toNat = p.toNat + 1 := by
  have hw := q.isLt
  rw [BitVec.toNat_add, one_toNat h]
  rw [BitVec.lt_def] at h
  exact Nat.mod_eq_of_lt (by omega)

theorem sub_one_toNat {p q : BitVec w} (h : p < q) : (q - 1).toNat = q.toNat - 1 := by
  have hw := q.isLt
  rw [BitVec.toNat_sub, one_toNat h]
  rw [BitVec.lt_def] at h
  rw [show 2 ^ w - 1 + q.toNat = q.toNat - 1 + 2 ^ w by omega, Nat.add_mod_right]
  exact Nat.mod_eq_of_lt (by omega)

theorem add_one_le_iff {p q n : BitVec w} (h : p < q) : p + 1 ≤ n ↔ p < n := by
  rw [BitVec.le_def, BitVec.lt_def, add_one_toNat h]
  omega

theorem le_sub_one_iff {p q n : BitVec w} (h : p < q) : n ≤ q - 1 ↔ n < q := by
  have hsub := sub_one_toNat h
  rw [BitVec.lt_def] at h
  rw [BitVec.le_def, BitVec.lt_def, hsub]
  omega

/-! ## Ranges in order -/

/-- None of the ranges is inverted, each ends before the next one starts, and they are all within
the boundaries. -/
structure Ordered (ranges : List (InclusiveIntegralRange w)) (first last : BitVec w) : Prop where
  pairwise : ranges.Pairwise fun r r' => r.stopAt < r'.startAt
  nonempty : ∀ r ∈ ranges, r.startAt ≤ r.stopAt
  bounded : ∀ r ∈ ranges, first ≤ r.startAt ∧ r.stopAt ≤ last

/-- Some of the ranges contains the number. -/
def Covers (ranges : List (InclusiveIntegralRange w)) (n : BitVec w) : Prop :=
  ∃ r ∈ ranges, r.Contains n

theorem covers_singleton {range : InclusiveIntegralRange w} {n : BitVec w} :
    Covers [range] n ↔ range.Contains n := by
  simp [Covers]

theorem covers_append {ranges ranges' : List (InclusiveIntegralRange w)} {n : BitVec w} :
    Covers (ranges ++ ranges') n ↔ Covers ranges n ∨ Covers ranges' n := by
  simp only [Covers, List.mem_append, or_and_right, exists_or]

theorem length_segmentLoop_le (indexStart : BitVec w) (is : List (BitVec w)) :
    (segmentLoop indexStart is).1.length ≤ is.length := by
  induction is generalizing indexStart with
  | nil => exact le_rfl
  | cons p ps ih =>
    have hrest := ih (p + 1)
    rw [segmentLoop]
    dsimp only
    split
    · rw [List.length_cons, List.length_cons]
      omega
    · rw [List.length_cons]
      omega

section Loop

variable {indexStart n : BitVec w} {is : List (BitVec w)}

/-- Whatever the order of the split points, the loop misses no number that some of them is greater
than. -/
theorem covers_segmentLoop_of_notMem (hstart : indexStart ≤ n) (hn : n ∉ is)
    (hlt : ∃ i ∈ is, n < i) : Covers (segmentLoop indexStart is).1 n := by
  induction is generalizing indexStart with
  | nil =>
    obtain ⟨i, hi, -⟩ := hlt
    cases hi
  | cons p ps ih =>
    rw [List.mem_cons, not_or] at hn
    obtain ⟨hne, hn⟩ := hn
    rw [segmentLoop]
    dsimp only
    rcases lt_or_gt_of_ne hne with hnp | hpn
    · -- the range before the split point
      have hp : indexStart < p := hstart.trans_lt hnp
      rw [if_pos hp.ne]
      exact ⟨_, List.mem_cons_self, hstart, (le_sub_one_iff hp).2 hnp⟩
    · obtain ⟨i, hi, hni⟩ := hlt
      have hi : i ∈ ps := by
        rcases List.mem_cons.1 hi with rfl | hi
        · exact absurd hni (lt_asymm hpn)
        · exact hi
      obtain ⟨r, hr, hc⟩ := ih ((add_one_le_iff hpn).2 hpn) hn ⟨i, hi, hni⟩
      refine ⟨r, ?_, hc⟩
      split
      · exact List.mem_cons_of_mem _ hr
      · exact hr

/-- What the loop reports lies between the start and the last split point, and leaves out exactly
the split points. -/
theorem covers_segmentLoop (hs : is.Pairwise (· < ·)) (hle : ∀ i ∈ is, indexStart ≤ i) :
    Covers (segmentLoop indexStart is).1 n ↔
      indexStart ≤ n ∧ n ∉ is ∧ ∃ i ∈ is, n < i := by
  induction is generalizing indexStart with
  | nil => simp [segmentLoop, Covers]
  | cons p ps ih =>
    obtain ⟨hp, hps⟩ := List.pairwise_cons.1 hs
    have hstart : indexStart ≤ p := hle p List.mem_cons_self
    have hnext : ∀ q ∈ ps, p + 1 ≤ q := fun q hq => (add_one_le_iff (hp q hq)).2 (hp q hq)
    constructor
    · intro hc
      have hcases : (indexStart ≤ n ∧ n < p) ∨ Covers (segmentLoop (p + 1) ps).1 n := by
        rw [segmentLoop] at hc
        dsimp only at hc
        split at hc
        · next hne =>
          have hlt : indexStart < p := lt_of_le_of_ne hstart hne
          obtain ⟨r, hr, hn, hn'⟩ := hc
          rcases List.mem_cons.1 hr with rfl | hr
          · exact .inl ⟨hn, (le_sub_one_iff hlt).1 hn'⟩
          · exact .inr ⟨r, hr, hn, hn'⟩
        · exact .inr hc
      rcases hcases with ⟨hn, hnp⟩ | hafter
      · -- in the range before the split point
        refine ⟨hn, ?_, p, List.mem_cons_self, hnp⟩
        intro hmem
        rcases List.mem_cons.1 hmem with rfl | hmem
        · exact lt_irrefl _ hnp
        · exact lt_asymm hnp (hp n hmem)
      · -- in one of those after it
        obtain ⟨hn, hnot, q, hq, hnq⟩ := (ih hps hnext).1 hafter
        have hpn : p < n := (add_one_le_iff (hp q hq)).1 hn
        refine ⟨hstart.trans hpn.le, ?_, q, List.mem_cons_of_mem _ hq, hnq⟩
        simp [hpn.ne', hnot]
    · rintro ⟨hn, hnot, hlt⟩
      exact covers_segmentLoop_of_notMem hn hnot hlt

theorem ordered_segmentLoop {last : BitVec w} (hs : is.Pairwise (· < ·))
    (hle : ∀ i ∈ is, indexStart ≤ i) (hlast : ∀ i ∈ is, i ≤ last) :
    Ordered (segmentLoop indexStart is).1 indexStart last ∧
      ∀ r ∈ (segmentLoop indexStart is).1, ∃ i ∈ is, r.stopAt < i := by
  induction is generalizing indexStart with
  | nil => simp [segmentLoop, Ordered.mk]
  | cons p ps ih =>
    obtain ⟨hp, hps⟩ := List.pairwise_cons.1 hs
    have hstart : indexStart ≤ p := hle p List.mem_cons_self
    have hnext : ∀ q ∈ ps, p + 1 ≤ q := fun q hq => (add_one_le_iff (hp q hq)).2 (hp q hq)
    obtain ⟨ho, hbefore⟩ := ih hps hnext fun i hi => hlast i (List.mem_cons_of_mem _ hi)
    have hafter : ∀ r ∈ (segmentLoop (p + 1) ps).1, p < r.startAt := by
      intro r hr
      obtain ⟨q, hq, -⟩ := hbefore r hr
      exact (add_one_le_iff (hp q hq)).1 (ho.bounded r hr).1
    have hbefore' : ∀ r ∈ (segmentLoop (p + 1) ps).1, ∃ i ∈ p :: ps, r.stopAt < i := by
      intro r hr
      obtain ⟨q, hq, hlt⟩ := hbefore r hr
      exact ⟨q, List.mem_cons_of_mem _ hq, hlt⟩
    have hbounded : ∀ r ∈ (segmentLoop (p + 1) ps).1, indexStart ≤ r.startAt ∧ r.stopAt ≤ last :=
      fun r hr => ⟨hstart.trans (hafter r hr).le, (ho.bounded r hr).2⟩
    rw [segmentLoop]
    dsimp only
    split
    · next hne =>
      have hlt : indexStart < p := lt_of_le_of_ne hstart hne
      have hstop : p - 1 < p := (le_sub_one_iff hlt).1 le_rfl
      refine ⟨⟨?_, ?_, ?_⟩, ?_⟩
      · exact List.pairwise_cons.2 ⟨fun r hr => hstop.trans (hafter r hr), ho.pairwise⟩
      · rw [List.forall_mem_cons]
        exact ⟨(le_sub_one_iff hlt).2 hlt, ho.nonempty⟩
      · rw [List.forall_mem_cons]
        exact ⟨⟨le_rfl, hstop.le.trans (hlast p List.mem_cons_self)⟩, hbounded⟩
      · rw [List.forall_mem_cons]
        exact ⟨⟨p, List.mem_cons_self, hstop⟩, hbefore'⟩
    · exact ⟨⟨ho.pairwise, ho.nonempty, hbounded⟩, hbefore'⟩

theorem segmentLoop_last (hne : is ≠ []) :
    (segmentLoop indexStart is).2 = is.getLast hne + 1 := by
  induction is generalizing indexStart with
  | nil => exact absurd rfl hne
  | cons p ps ih =>
    cases ps with
    | nil => rfl
    | cons q qs =>
      rw [segmentLoop]
      dsimp only
      rw [ih (List.cons_ne_nil _ _), List.getLast_cons_cons]

end Loop

/-! ## All the ranges -/

section Segments

variable {boundaries : InclusiveIntegralRange w} {splitPoints : FlatSet (BitVec w)} {n : BitVec w}

theorem forEachDisjointSegment_of_eq_nil (h : (trim boundaries splitPoints).values = []) :
    forEachDisjointSegment boundaries splitPoints = [boundaries] := by
  unfold forEachDisjointSegment
  split
  · rfl
  · next heq => rw [h] at heq; cases heq

theorem forEachDisjointSegment_of_ne_nil (h : (trim boundaries splitPoints).values ≠ []) :
    forEachDisjointSegment boundaries splitPoints =
      let back := (trim boundaries splitPoints).values.getLast h
      let ranges := (segmentLoop boundaries.startAt (trim boundaries splitPoints).values).1
      if back + 1 ≠ boundaries.stopAt ∧ boundaries.stopAt ≠ back then
        ranges ++ [⟨back + 1, boundaries.stopAt⟩]
      else ranges := by
  unfold forEachDisjointSegment
  split
  · next heq => exact absurd heq h
  · next i is heq =>
    simp only [heq]
    have hskip : (if i = boundaries.startAt then segmentLoop (boundaries.startAt + 1) is
        else segmentLoop boundaries.startAt (i :: is)) =
        segmentLoop boundaries.startAt (i :: is) := by
      split
      · next hi => simp only [segmentLoop, hi, ne_eq, not_true_eq_false, if_false]
      · rfl
    rw [hskip, segmentLoop_last (List.cons_ne_nil i is)]

theorem length_forEachDisjointSegment_le (boundaries : InclusiveIntegralRange w)
    (splitPoints : FlatSet (BitVec w)) :
    (forEachDisjointSegment boundaries splitPoints).length ≤ splitPoints.values.length + 1 := by
  have htrim : (trim boundaries splitPoints).values.length ≤ splitPoints.values.length :=
    infix_trim.length_le
  by_cases h : (trim boundaries splitPoints).values = []
  · rw [forEachDisjointSegment_of_eq_nil h]
    simp
  · have hloop := length_segmentLoop_le boundaries.startAt (trim boundaries splitPoints).values
    rw [forEachDisjointSegment_of_ne_nil h]
    dsimp only
    split
    · rw [List.length_append, List.length_singleton]
      omega
    · omega

theorem le_getLast_trim (hs : splitPoints.Increasing) (hne : (trim boundaries splitPoints).values ≠ [])
    {p : BitVec w} (hp : p ∈ (trim boundaries splitPoints).values) :
    p ≤ (trim boundaries splitPoints).values.getLast hne := by
  have hle : (trim boundaries splitPoints).values.Pairwise (· ≤ ·) :=
    List.Pairwise.imp le_of_lt (increasing_trim boundaries hs)
  exact hle.rel_getLast hp

theorem covers_segmentLoop_trim (hs : splitPoints.Increasing)
    (hne : (trim boundaries splitPoints).values ≠ []) :
    Covers (segmentLoop boundaries.startAt (trim boundaries splitPoints).values).1 n ↔
      (boundaries.Contains n ∧ n ∉ splitPoints.values) ∧
        n < (trim boundaries splitPoints).values.getLast hne := by
  have hsorted := increasing_trim boundaries hs
  have hback := ((mem_trim hs).1 (List.getLast_mem hne)).2
  rw [covers_segmentLoop hsorted fun p hp => ((mem_trim hs).1 hp).2.1]
  constructor
  · rintro ⟨hstart, hn, p, hp, hlt⟩
    have hlt' := hlt.trans_le (le_getLast_trim hs hne hp)
    have hc : boundaries.Contains n := ⟨hstart, hlt'.le.trans hback.2⟩
    exact ⟨⟨hc, fun hmem => hn ((mem_trim hs).2 ⟨hmem, hc⟩)⟩, hlt'⟩
  · rintro ⟨⟨hc, hn⟩, hlt⟩
    exact ⟨hc.1, fun hmem => hn ((mem_trim hs).1 hmem).1, _, List.getLast_mem hne, hlt⟩

/-- **What the ranges cover**: the numbers within the boundaries that are not split points, except
the upper boundary when the number before it is a split point. -/
theorem covers_forEachDisjointSegment (hs : splitPoints.Increasing) :
    Covers (forEachDisjointSegment boundaries splitPoints) n ↔
      (boundaries.Contains n ∧ n ∉ splitPoints.values) ∧
        ¬ (n = boundaries.stopAt ∧
          ∃ p ∈ splitPoints.values, boundaries.startAt ≤ p ∧ p < n ∧ p + 1 = n) := by
  by_cases hnil : (trim boundaries splitPoints).values = []
  · have hnone : ∀ p ∈ splitPoints.values, ¬ boundaries.Contains p := by
      intro p hp hc
      have hmem : p ∈ (trim boundaries splitPoints).values := (mem_trim hs).2 ⟨hp, hc⟩
      rw [hnil] at hmem
      cases hmem
    rw [forEachDisjointSegment_of_eq_nil hnil, covers_singleton]
    constructor
    · intro hc
      refine ⟨⟨hc, fun hn => hnone n hn hc⟩, ?_⟩
      rintro ⟨rfl, p, hp, hsp, hlt, -⟩
      exact hnone p hp ⟨hsp, hlt.le⟩
    · exact fun h => h.1.1
  · rw [forEachDisjointSegment_of_ne_nil hnil]
    have hloop := covers_segmentLoop_trim (n := n) hs hnil
    have hback := (mem_trim hs).1 (List.getLast_mem hnil)
    have hgreatest : ∀ p ∈ splitPoints.values, boundaries.Contains p →
        p ≤ (trim boundaries splitPoints).values.getLast hnil := fun p hp hc =>
      le_getLast_trim hs hnil ((mem_trim hs).2 ⟨hp, hc⟩)
    dsimp only
    generalize (trim boundaries splitPoints).values.getLast hnil = back at *
    obtain ⟨hmem, hstart, hstop⟩ := hback
    have hbefore : n < back → n ≠ boundaries.stopAt := fun hlt => (hlt.trans_le hstop).ne
    split
    · next hlast =>
      have hlt : back < boundaries.stopAt := lt_of_le_of_ne hstop hlast.2.symm
      have hrange : InclusiveIntegralRange.Contains ⟨back + 1, boundaries.stopAt⟩ n ↔
          back < n ∧ n ≤ boundaries.stopAt := and_congr_left' (add_one_le_iff hlt)
      rw [covers_append, covers_singleton, hloop, hrange]
      constructor
      · rintro (⟨h, hn⟩ | ⟨hn, hns⟩)
        · exact ⟨h, fun hmiss => hbefore hn hmiss.1⟩
        · have hc : boundaries.Contains n := ⟨hstart.trans hn.le, hns⟩
          refine ⟨⟨hc, fun h => absurd (hgreatest n h hc) (not_le.2 hn)⟩, ?_⟩
          rintro ⟨rfl, p, hp, hsp, hpn, heq⟩
          -- `p` would be the last split point
          rcases (hgreatest p hp ⟨hsp, hpn.le⟩).lt_or_eq with hpb | rfl
          · exact absurd heq (((add_one_le_iff hpb).2 hpb).trans_lt hlt).ne
          · exact hlast.1 heq
      · rintro ⟨⟨hc, hn⟩, -⟩
        rcases lt_trichotomy n back with hlt' | rfl | hlt'
        · exact .inl ⟨⟨hc, hn⟩, hlt'⟩
        · exact absurd hmem hn
        · exact .inr ⟨hlt', hc.2⟩
    · next hlast =>
      rw [hloop]
      constructor
      · rintro ⟨h, hn⟩
        exact ⟨h, fun hmiss => hbefore hn hmiss.1⟩
      · rintro ⟨⟨hc, hn⟩, hmiss⟩
        refine ⟨⟨hc, hn⟩, ?_⟩
        by_contra hge
        have hlt : back < n := lt_of_le_of_ne (not_lt.1 hge) fun h => hn (h ▸ hmem)
        have hsucc : back + 1 = boundaries.stopAt := by
          by_contra hne
          exact hlast ⟨hne, (hlt.trans_le hc.2).ne'⟩
        have heq : n = boundaries.stopAt :=
          le_antisymm hc.2 (hsucc ▸ (add_one_le_iff hlt).2 hlt)
        exact hmiss ⟨heq, back, hmem, hstart, hlt, hsucc.trans heq.symm⟩

theorem ordered_forEachDisjointSegment (hs : splitPoints.Increasing)
    (hb : boundaries.startAt ≤ boundaries.stopAt) :
    Ordered (forEachDisjointSegment boundaries splitPoints) boundaries.startAt
      boundaries.stopAt := by
  by_cases hnil : (trim boundaries splitPoints).values = []
  · rw [forEachDisjointSegment_of_eq_nil hnil]
    exact ⟨List.pairwise_singleton _ _, by simpa using hb, by simp⟩
  · rw [forEachDisjointSegment_of_ne_nil hnil]
    have hsorted := increasing_trim boundaries hs
    have hstop : ∀ p ∈ (trim boundaries splitPoints).values, p ≤ boundaries.stopAt :=
      fun p hp => ((mem_trim hs).1 hp).2.2
    obtain ⟨ho, hbefore⟩ := ordered_segmentLoop hsorted (fun p hp => ((mem_trim hs).1 hp).2.1) hstop
    have hback := ((mem_trim hs).1 (List.getLast_mem hnil)).2
    have hbefore' : ∀ r ∈ (segmentLoop boundaries.startAt (trim boundaries splitPoints).values).1,
        r.stopAt < (trim boundaries splitPoints).values.getLast hnil := by
      intro r hr
      obtain ⟨p, hp, hlt⟩ := hbefore r hr
      exact hlt.trans_le (le_getLast_trim hs hnil hp)
    dsimp only
    split
    · next hlast =>
      have hlt := lt_of_le_of_ne hback.2 hlast.2.symm
      have hnext := (add_one_le_iff hlt).1 le_rfl
      refine ⟨?_, ?_, ?_⟩
      · refine List.pairwise_append.2 ⟨ho.pairwise, List.pairwise_singleton _ _, ?_⟩
        intro r hr r' hr'
        obtain rfl := List.mem_singleton.1 hr'
        exact (hbefore' r hr).trans hnext
      · intro r hr
        rcases List.mem_append.1 hr with hr | hr
        · exact ho.nonempty r hr
        · obtain rfl := List.mem_singleton.1 hr
          exact (add_one_le_iff hlt).2 hlt
      · intro r hr
        rcases List.mem_append.1 hr with hr | hr
        · exact ho.bounded r hr
        · obtain rfl := List.mem_singleton.1 hr
          exact ⟨hback.1.trans hnext.le, le_rfl⟩
    · exact ho

theorem Ordered.disjoint {ranges : List (InclusiveIntegralRange w)} {first last : BitVec w}
    (h : Ordered ranges first last) :
    ranges.Pairwise fun r r' => ∀ n, ¬ (r.Contains n ∧ r'.Contains n) := by
  refine h.pairwise.imp ?_
  rintro r r' hlt n ⟨⟨-, hr⟩, hr', -⟩
  exact absurd (hr.trans_lt hlt) (not_lt.2 hr')

end Segments

/-! ## Split points in any order -/

section AnyOrder

variable {boundaries : InclusiveIntegralRange w} {splitPoints : FlatSet (BitVec w)}
  {indexStart n : BitVec w} {is js : List (BitVec w)}

/-- Whatever the order of the split points, the ranges miss nothing but split points and the upper
boundary. -/
theorem covers_forEachDisjointSegment_of_notMem (hc : boundaries.Contains n)
    (hlast : n ≠ boundaries.stopAt) (hn : n ∉ splitPoints.values) :
    Covers (forEachDisjointSegment boundaries splitPoints) n := by
  by_cases hnil : (trim boundaries splitPoints).values = []
  · rw [forEachDisjointSegment_of_eq_nil hnil, covers_singleton]
    exact hc
  have hn' : n ∉ (trim boundaries splitPoints).values := fun hmem => hn (infix_trim.subset hmem)
  have hstop : n < boundaries.stopAt := lt_of_le_of_ne hc.2 hlast
  rw [forEachDisjointSegment_of_ne_nil hnil]
  dsimp only
  by_cases hlt : ∃ i ∈ (trim boundaries splitPoints).values, n < i
  · obtain ⟨r, hr, hcr⟩ := covers_segmentLoop_of_notMem hc.1 hn' hlt
    refine ⟨r, ?_, hcr⟩
    split
    · exact List.mem_append_left _ hr
    · exact hr
  · -- all split points are less, and the last range contains the number
    push Not at hlt
    have hback := List.getLast_mem hnil
    have hless : (trim boundaries splitPoints).values.getLast hnil < n :=
      lt_of_le_of_ne (hlt _ hback) fun heq => hn' (heq ▸ hback)
    have hnext := (add_one_le_iff hless).2 hless
    rw [if_pos ⟨(hnext.trans_lt hstop).ne, (hless.trans hstop).ne'⟩]
    exact ⟨_, List.mem_append_right _ (List.mem_singleton_self _), hnext, hc.2⟩

theorem segmentLoop_append : segmentLoop indexStart (is ++ js) =
    ((segmentLoop indexStart is).1 ++ (segmentLoop (segmentLoop indexStart is).2 js).1,
      (segmentLoop (segmentLoop indexStart is).2 js).2) := by
  induction is generalizing indexStart with
  | nil => rfl
  | cons p ps ih =>
    rw [List.cons_append, segmentLoop, segmentLoop, ih]
    dsimp only
    split <;> rfl

/-- The loop does not get to a number that it does not start at, unless the one before it is a split
point. -/
theorem segmentLoop_snd_ne (hstart : indexStart ≠ n) (hn : ∀ p ∈ is, p + 1 ≠ n) :
    (segmentLoop indexStart is).2 ≠ n := by
  by_cases hnil : is = []
  · rw [hnil]
    exact hstart
  · rw [segmentLoop_last hnil]
    exact hn _ (List.getLast_mem hnil)

theorem segmentLoop_cons_of_ne {p : BitVec w} (hp : indexStart ≠ p) :
    (segmentLoop indexStart (p :: is)).1 =
      ⟨indexStart, p - 1⟩ :: (segmentLoop (p + 1) is).1 := by
  rw [segmentLoop]
  exact if_pos hp

theorem not_disjoint_segmentLoop_of_ne {greatest : BitVec w} (hstart : indexStart ≠ greatest)
    (hbetween : (segmentLoop (greatest + 1) is).2 ≠ greatest)
    (hnonempty : ∀ r ∈ (segmentLoop indexStart (greatest :: (is ++ [greatest]))).1,
      r.startAt ≤ r.stopAt) :
    ¬ (segmentLoop indexStart (greatest :: (is ++ [greatest]))).1.Pairwise
      fun r r' => ∀ n, ¬ (r.Contains n ∧ r'.Contains n) := by
  rw [segmentLoop_cons_of_ne hstart, segmentLoop_append, segmentLoop_cons_of_ne hbetween]
    at hnonempty ⊢
  intro hpairwise
  have hrest := (List.pairwise_cons.1 hpairwise).1
  refine hrest ⟨_, greatest - 1⟩ (List.mem_append_right _ List.mem_cons_self) (greatest - 1)
    ⟨⟨hnonempty _ List.mem_cons_self, le_rfl⟩, ?_, le_rfl⟩
  apply hnonempty ⟨_, greatest - 1⟩
  simp

/-- The greatest split point comes twice: two ranges that are not inverted start right after it, one
of which is the last. -/
theorem not_disjoint_segmentLoop_append {greatest stop : BitVec w} (hless : greatest < stop)
    (hle : ∀ p ∈ is, p ≤ greatest)
    (hnonempty : ∀ r ∈ (segmentLoop indexStart (greatest :: (is ++ [greatest]))).1,
      r.startAt ≤ r.stopAt) :
    ¬ List.Pairwise (fun r r' => ∀ n, ¬ (r.Contains n ∧ r'.Contains n))
      ((segmentLoop indexStart (greatest :: (is ++ [greatest]))).1 ++
        [⟨greatest + 1, stop⟩]) := by
  obtain ⟨x, xs, hcons⟩ : ∃ x xs, is ++ [greatest] = x :: xs := by
    cases is <;> simp
  have hx : x ≤ greatest := by
    have hmem : x ∈ is ++ [greatest] := hcons ▸ List.mem_cons_self
    rcases List.mem_append.1 hmem with hmem | hmem
    · exact hle x hmem
    · exact (List.mem_singleton.1 hmem).le
  have hafter : greatest < greatest + 1 := (add_one_le_iff hless).1 le_rfl
  have hlater : (segmentLoop (greatest + 1) (is ++ [greatest])).1 =
      ⟨greatest + 1, x - 1⟩ :: (segmentLoop (x + 1) xs).1 := by
    rw [hcons]
    exact segmentLoop_cons_of_ne (hx.trans_lt hafter).ne'
  obtain ⟨front, hfront⟩ : ∃ front, (segmentLoop indexStart (greatest :: (is ++ [greatest]))).1 =
      front ++ ⟨greatest + 1, x - 1⟩ :: (segmentLoop (x + 1) xs).1 := by
    rw [segmentLoop]
    dsimp only
    rw [hlater]
    split
    · exact ⟨[_], rfl⟩
    · exact ⟨[], rfl⟩
  rw [hfront] at hnonempty ⊢
  intro hpairwise
  rw [List.append_assoc, List.cons_append] at hpairwise
  have hrest := (List.pairwise_cons.1 (List.pairwise_append.1 hpairwise).2.1).1
  refine hrest ⟨greatest + 1, stop⟩ (List.mem_append_right _ (List.mem_singleton_self _))
    (greatest + 1) ⟨⟨le_rfl, ?_⟩, le_rfl, (add_one_le_iff hless).2 hless⟩
  exact hnonempty ⟨greatest + 1, x - 1⟩ (List.mem_append_right _ List.mem_cons_self)

/-- When the greatest split point comes once more at the end, some range is inverted or two of them
overlap: either the last range or the one before the split point is reported twice. -/
theorem not_disjoint_of_greatest_twice {before between : List (BitVec w)} {greatest : BitVec w}
    (hvalues : (trim boundaries splitPoints).values =
      before ++ greatest :: (between ++ [greatest]))
    (hstart : boundaries.startAt ≠ boundaries.stopAt)
    (hstop : boundaries.stopAt = BitVec.allOnes w)
    (hle : ∀ p ∈ (trim boundaries splitPoints).values, p ≤ greatest ∧ p + 1 ≠ boundaries.stopAt)
    (hnonempty : ∀ r ∈ forEachDisjointSegment boundaries splitPoints, r.startAt ≤ r.stopAt) :
    ¬ (forEachDisjointSegment boundaries splitPoints).Pairwise
      fun r r' => ∀ n, ¬ (r.Contains n ∧ r'.Contains n) := by
  have hnil : (trim boundaries splitPoints).values ≠ [] := by
    rw [hvalues]
    simp
  have hback : (trim boundaries splitPoints).values.getLast hnil = greatest := by
    simp [hvalues]
  have hmem : greatest ∈ (trim boundaries splitPoints).values := hback ▸ List.getLast_mem hnil
  obtain ⟨-, hnext⟩ := hle greatest hmem
  -- the ranges from the first time the greatest split point comes
  obtain ⟨first, hloop⟩ : ∃ first, (segmentLoop boundaries.startAt
      (trim boundaries splitPoints).values).1 = first ++ (segmentLoop
        (segmentLoop boundaries.startAt before).2 (greatest :: (between ++ [greatest]))).1 :=
    ⟨_, by rw [hvalues, segmentLoop_append]⟩
  rw [forEachDisjointSegment_of_ne_nil hnil] at hnonempty ⊢
  dsimp only at hnonempty ⊢
  rw [hback, hloop] at hnonempty ⊢
  intro hpairwise
  by_cases hlast : boundaries.stopAt = greatest
  · rw [if_neg fun h => h.2 hlast] at hnonempty hpairwise
    refine not_disjoint_segmentLoop_of_ne ?_ ?_ (fun r hr => hnonempty r (List.mem_append_right _ hr))
      (List.pairwise_append.1 hpairwise).2.1
    · refine hlast ▸ segmentLoop_snd_ne hstart fun p hp => (hle p ?_).2
      rw [hvalues]
      exact List.mem_append_left _ hp
    · refine hlast ▸ segmentLoop_snd_ne (hlast ▸ hnext) fun p hp => (hle p ?_).2
      rw [hvalues]
      simp [hp]
  · have hless : greatest < boundaries.stopAt := by
      refine lt_of_le_of_ne ?_ (Ne.symm hlast)
      rw [hstop, BitVec.le_def, BitVec.toNat_allOnes]
      omega
    rw [if_pos ⟨hnext, hlast⟩] at hnonempty hpairwise
    rw [List.append_assoc] at hpairwise
    refine not_disjoint_segmentLoop_append hless (fun p hp => (hle p ?_).1)
      (fun r hr => hnonempty r (List.mem_append_left _ (List.mem_append_right _ hr)))
      (List.pairwise_append.1 hpairwise).2.1
    rw [hvalues]
    simp [hp]

end AnyOrder

end ThePipe.Utils
