import Mathlib.Data.BitVec
import Mathlib.Data.List.Destutter
import Mathlib.Data.List.Sort
import Mathlib.Data.List.TakeWhile
import Mathlib.Order.Defs.LinearOrder

/-!
# Flat sets and integral ranges

A `flat_set` is meant to be a sorted vector without duplicates.  The constructor sorts, but it does
not erase what `unique` leaves behind: the vector is strictly increasing exactly when there was no
duplicate (`representation_iff`).  `trim` cuts a flat set down to the values within some boundaries.
-/

set_option autoImplicit false

namespace ThePipe.Utils

/-- Unsigned integers are compared by their values. -/
instance linearOrderBitVec {w : ℕ} : LinearOrder (BitVec w) where
  le_refl := BitVec.le_refl
  le_trans _ _ _ := BitVec.le_trans
  le_antisymm _ _ := BitVec.le_antisymm
  le_total := BitVec.le_total
  lt_iff_le_not_ge x y := by
    simp only [BitVec.le_def, BitVec.lt_def]
    omega
  toDecidableLE := inferInstance
  toDecidableLT := inferInstance
  toDecidableEq := inferInstance

/-! ## Sorted lists -/

section Sorted

variable {α : Type*} [LinearOrder α] {l : List α}

theorem mem_destutter_ne {a : α} : a ∈ l.destutter (· ≠ ·) ↔ a ∈ l := by
  refine ⟨fun h => (l.destutter_sublist (· ≠ ·)).subset h, fun h => ?_⟩
  cases l with
  | nil => cases h
  | cons b l =>
    rw [List.destutter_cons']
    induction l generalizing b with
    | nil => simpa using h
    | cons c l ih =>
      rw [List.destutter'_cons]
      split
      · rcases List.mem_cons.1 h with rfl | h
        · exact List.mem_cons_self
        · exact List.mem_cons_of_mem _ (ih c h)
      · next hbc =>
        obtain rfl : b = c := not_not.1 hbc
        rcases List.mem_cons.1 h with rfl | h
        · exact List.mem_destutter' _ _ _
        · exact ih b h

theorem dropWhile_lt_of_pairwise (h : l.Pairwise (· < ·)) (a : α) :
    l.dropWhile (fun b => decide (b < a)) = l.filter (fun b => decide (a ≤ b)) := by
  induction l with
  | nil => rfl
  | cons b l ih =>
    obtain ⟨hb, hl⟩ := List.pairwise_cons.1 h
    by_cases hba : b < a
    · rw [List.dropWhile_cons_of_pos (by simpa), List.filter_cons_of_neg (by simpa), ih hl]
    · rw [List.dropWhile_cons_of_neg (by simpa using hba), eq_comm, List.filter_eq_self]
      intro c hc
      have hab : a ≤ b := not_lt.1 hba
      rcases List.mem_cons.1 hc with rfl | hc
      · simpa using hab
      · simpa using hab.trans (hb c hc).le

theorem takeWhile_le_of_pairwise (h : l.Pairwise (· < ·)) (a : α) :
    l.takeWhile (fun b => decide (b ≤ a)) = l.filter (fun b => decide (b ≤ a)) := by
  induction l with
  | nil => rfl
  | cons b l ih =>
    obtain ⟨hb, hl⟩ := List.pairwise_cons.1 h
    by_cases hba : b ≤ a
    · rw [List.takeWhile_cons_of_pos (by simpa), List.filter_cons_of_pos (by simpa), ih hl]
    · rw [List.takeWhile_cons_of_neg (by simpa using hba), eq_comm, List.filter_eq_nil_iff]
      intro c hc
      have hab : a < b := not_le.1 hba
      rcases List.mem_cons.1 hc with rfl | hc
      · simpa using hab
      · simpa using hab.trans (hb c hc)

end Sorted

theorem mapIdx_keep {α : Type*} {l : List α} : l.mapIdx (fun _ a => a) = l := by
  rw [List.mapIdx_eq_iff]
  simp

/-! ## Flat sets -/

/-- `flat_set<T>`, and the span over one that `immutable_flat_set<T>` is. -/
structure FlatSet (α : Type*) where
  values : List α
  deriving DecidableEq

namespace FlatSet

/-- What a flat set is meant to be: its values are sorted, and there are no duplicates. -/
def Increasing {α : Type*} [LT α] (vals : FlatSet α) : Prop := vals.values.Pairwise (· < ·)

instance {α : Type*} [LT α] [DecidableLT α] (vals : FlatSet α) : Decidable vals.Increasing := by
  unfold Increasing; infer_instance

variable {α β : Type*} [LinearOrder α] {a : α}

/-- `std::ranges::unique`, which moves the first of each run of equal values to the front.  It
returns the vector, and the subrange from behind these values to the end.  There are values in the
subrange that have been moved from; `moved` says what is at its positions, in place of the value
that was there before. -/
def unique (moved : ℕ → α → α) (values : List α) : List α × ℕ × ℕ :=
  let kept := values.destutter (· ≠ ·)
  (kept ++ (values.drop kept.length).mapIdx moved, kept.length, values.length)

/-- What is erased is from the end of the subrange to the end of the vector. -/
def sortAndRemoveDuplicates (moved : ℕ → α → α) (l : List α) : List α :=
  let values := l.insertionSort (· ≤ ·)
  let (values, _, last) := unique moved values
  values.take last ++ values.drop values.length

/-- The constructor: the values that `conv` takes.  Without a converter it is the identity. -/
def make (moved : ℕ → α → α) (l : List β) (conv : β → α) : FlatSet α :=
  ⟨sortAndRemoveDuplicates moved (l.map conv)⟩

def empty : FlatSet α := ⟨[]⟩

/-- `span::trim`: what is between two positions. -/
def trim (vals : FlatSet α) (first last : ℕ) : FlatSet α := ⟨(vals.values.take last).drop first⟩

/-! ### What the constructor makes -/

variable {moved : ℕ → α → α} {l : List α}

theorem mem_destutter_insertionSort :
    a ∈ (l.insertionSort (· ≤ ·)).destutter (· ≠ ·) ↔ a ∈ l := by
  rw [mem_destutter_ne, (List.perm_insertionSort _ l).mem_iff]

theorem pairwise_destutter_insertionSort (l : List α) :
    ((l.insertionSort (· ≤ ·)).destutter (· ≠ ·)).Pairwise (· < ·) := by
  have hsub := List.destutter_sublist (· ≠ · : α → α → Prop) (l.insertionSort (· ≤ ·))
  have hle : ((l.insertionSort (· ≤ ·)).destutter (· ≠ ·)).Pairwise (· ≤ ·) :=
    (List.pairwise_insertionSort (· ≤ ·) l).sublist hsub
  have hne := List.isChain_destutter (· ≠ · : α → α → Prop) (l.insertionSort (· ≤ ·))
  rw [← List.isChain_iff_pairwise] at hle ⊢
  exact List.isChain_iff_getElem.2 fun i hi => lt_of_le_of_ne (hle.getElem i hi) (hne.getElem i hi)

/-- Nothing is erased: behind the values that are kept there is something for each of the others. -/
theorem sortAndRemoveDuplicates_eq : sortAndRemoveDuplicates moved l =
    (l.insertionSort (· ≤ ·)).destutter (· ≠ ·) ++ ((l.insertionSort (· ≤ ·)).drop
      ((l.insertionSort (· ≤ ·)).destutter (· ≠ ·)).length).mapIdx moved := by
  have hlength : ((l.insertionSort (· ≤ ·)).destutter (· ≠ ·) ++ ((l.insertionSort (· ≤ ·)).drop
      ((l.insertionSort (· ≤ ·)).destutter (· ≠ ·)).length).mapIdx moved).length =
        (l.insertionSort (· ≤ ·)).length := by
    have hle := (List.destutter_sublist (· ≠ ·) (l.insertionSort (· ≤ ·))).length_le
    rw [List.length_append, List.length_mapIdx, List.length_drop]
    omega
  unfold sortAndRemoveDuplicates unique
  dsimp only
  rw [← hlength, List.take_length, List.drop_length, List.append_nil]

theorem length_sortAndRemoveDuplicates : (sortAndRemoveDuplicates moved l).length = l.length := by
  have hle := (List.destutter_sublist (· ≠ ·) (l.insertionSort (· ≤ ·))).length_le
  rw [List.length_insertionSort] at hle
  rw [sortAndRemoveDuplicates_eq, List.length_append, List.length_mapIdx, List.length_drop,
    List.length_insertionSort]
  omega

/-- Without duplicates there is nothing to erase. -/
theorem sortAndRemoveDuplicates_of_nodup (h : l.Nodup) :
    sortAndRemoveDuplicates moved l = l.insertionSort (· ≤ ·) := by
  have hsorted : (l.insertionSort (· ≤ ·)).Nodup := (List.perm_insertionSort _ l).nodup_iff.2 h
  have hkept := List.destutter_of_isChain (· ≠ ·) _ hsorted.isChain
  rw [sortAndRemoveDuplicates_eq, hkept, List.drop_length, List.mapIdx_nil, List.append_nil]

/-- **When the constructor makes a set**: what it makes is sorted without duplicates, and has the
values of the input as its members, if and only if no value occurs twice in the input. -/
theorem sortAndRemoveDuplicates_isSet_iff (moved : ℕ → α → α) (l : List α) :
    ((sortAndRemoveDuplicates moved l).Pairwise (· < ·) ∧
      ∀ a, a ∈ sortAndRemoveDuplicates moved l ↔ a ∈ l) ↔ l.Nodup := by
  constructor
  · rintro ⟨hsorted, hmem⟩
    have hnodup : (sortAndRemoveDuplicates moved l).Nodup := hsorted.imp fun h => h.ne
    have hsub := List.subperm_of_subset hnodup fun a ha => (hmem a).1 ha
    have hperm := hsub.perm_of_length_le length_sortAndRemoveDuplicates.ge
    exact hperm.nodup_iff.1 hnodup
  · intro hnodup
    have hkept := List.destutter_of_isChain (· ≠ ·) _
      ((List.perm_insertionSort (· ≤ ·) l).nodup_iff.2 hnodup).isChain
    rw [sortAndRemoveDuplicates_of_nodup hnodup, ← hkept]
    exact ⟨pairwise_destutter_insertionSort l, fun a => mem_destutter_insertionSort⟩

theorem increasing_make {l : List β} {conv : β → α} (h : (l.map conv).Nodup) :
    (make moved l conv).Increasing :=
  ((sortAndRemoveDuplicates_isSet_iff moved _).2 h).1

theorem mem_make {l : List β} {conv : β → α} :
    a ∈ (make (fun _ a => a) l conv).values ↔ ∃ b ∈ l, conv b = a := by
  rw [make, sortAndRemoveDuplicates_eq, mapIdx_keep, List.mem_append, mem_destutter_insertionSort,
    List.mem_map, or_iff_left_of_imp]
  intro ha
  rw [← List.mem_map, ← (List.perm_insertionSort (· ≤ ·) _).mem_iff]
  exact List.mem_of_mem_drop ha

/-- Where a value occurs twice, the greatest of the values is there twice: at the end of those that
are kept, and at the very end. -/
theorem values_make_of_not_nodup {l : List β} {conv : β → α} (h : ¬ (l.map conv).Nodup) :
    ∃ before between greatest, (∀ b ∈ l, conv b ≤ greatest) ∧
      (make (fun _ a => a) l conv).values =
        before ++ greatest :: (between ++ [greatest]) := by
  have hmem : ∀ {a}, a ∈ (l.map conv).insertionSort (· ≤ ·) ↔ ∃ b ∈ l, conv b = a := by
    intro a
    rw [(List.perm_insertionSort (· ≤ ·) _).mem_iff, List.mem_map]
  have hle := List.pairwise_insertionSort (· ≤ ·) (l.map conv)
  have hnodup : ¬ ((l.map conv).insertionSort (· ≤ ·)).Nodup := by
    rwa [(List.perm_insertionSort (· ≤ ·) _).nodup_iff]
  have hlt := pairwise_destutter_insertionSort (l.map conv)
  have hkept : ∀ {a}, a ∈ ((l.map conv).insertionSort (· ≤ ·)).destutter (· ≠ ·) ↔
      a ∈ (l.map conv).insertionSort (· ≤ ·) := mem_destutter_ne
  have hsub := List.destutter_sublist (· ≠ ·) ((l.map conv).insertionSort (· ≤ ·))
  rw [make, sortAndRemoveDuplicates_eq, mapIdx_keep]
  generalize (l.map conv).insertionSort (· ≤ ·) = sorted at *
  generalize sorted.destutter (· ≠ ·) = kept at *
  -- something is left behind the values that are kept
  have hrest : sorted.drop kept.length ≠ [] := by
    intro hnil
    rw [List.drop_eq_nil_iff] at hnil
    rw [hsub.eq_of_length_le hnil] at hlt
    exact hnodup (hlt.imp fun h => h.ne)
  have hsorted : sorted ≠ [] := by
    rintro rfl
    exact hnodup List.nodup_nil
  have hgreatest := List.getLast_mem hsorted
  have hne : kept ≠ [] := List.ne_nil_of_mem (hkept.2 hgreatest)
  have hback : kept.getLast hne = sorted.getLast hsorted :=
    le_antisymm (hle.rel_getLast (hkept.1 (List.getLast_mem hne)))
      ((hlt.imp le_of_lt).rel_getLast (hkept.2 hgreatest))
  refine ⟨kept.dropLast, (sorted.drop kept.length).dropLast, sorted.getLast hsorted,
    fun b hb => hle.rel_getLast (hmem.2 ⟨b, hb, rfl⟩), ?_⟩
  have hsplit := List.dropLast_append_getLast hne
  have hsplit' := List.dropLast_append_getLast hrest
  rw [hback] at hsplit
  rw [List.getLast_drop] at hsplit'
  show kept ++ _ = _
  rw [hsplit', ← List.singleton_append, ← List.append_assoc, hsplit]

end FlatSet

/-! ## Integral ranges -/

/-- `inclusive_integral_range<T>`, for an unsigned type of `w` bits. -/
structure InclusiveIntegralRange (w : ℕ) where
  startAt : BitVec w
  stopAt : BitVec w
  deriving DecidableEq

namespace InclusiveIntegralRange

variable {w : ℕ}

def Contains (range : InclusiveIntegralRange w) (n : BitVec w) : Prop :=
  range.startAt ≤ n ∧ n ≤ range.stopAt

instance (range : InclusiveIntegralRange w) : DecidablePred range.Contains := fun n => by
  unfold Contains; infer_instance

end InclusiveIntegralRange

section Trim

variable {w : ℕ} (boundaries : InclusiveIntegralRange w) (vals : FlatSet (BitVec w))

def trim : FlatSet (BitVec w) :=
  let startAt := vals.values.findIdx (fun val => boundaries.startAt ≤ val)
  let stopAt := startAt + (vals.values.drop startAt).findIdx (fun val => boundaries.stopAt < val)
  if startAt = vals.values.length ∨ stopAt = 0 then .empty else vals.trim startAt stopAt

variable {boundaries vals}

theorem infix_trim : (trim boundaries vals).values <:+: vals.values := by
  unfold trim FlatSet.trim
  dsimp only
  split
  · exact List.nil_infix
  · exact (List.drop_suffix _ _).isInfix.trans (List.take_prefix _ _).isInfix

/-- Where no value is above the upper bound, only those before the first one that is not below the
lower bound are cut off. -/
theorem values_trim_of_le (hstop : ∀ val ∈ vals.values, val ≤ boundaries.stopAt) :
    (trim boundaries vals).values =
      vals.values.dropWhile (fun val => decide (val < boundaries.startAt)) := by
  have hstart : vals.values.drop (vals.values.findIdx (fun val => boundaries.startAt ≤ val)) =
      vals.values.dropWhile (fun val => decide (val < boundaries.startAt)) := by
    rw [List.dropWhile_eq_drop_findIdx_not]
    simp only [← decide_not, not_lt]
  have hnone : (vals.values.drop (vals.values.findIdx
      (fun val => boundaries.startAt ≤ val))).findIdx (fun val => boundaries.stopAt < val) =
        (vals.values.drop (vals.values.findIdx (fun val => boundaries.startAt ≤ val))).length := by
    rw [List.findIdx_eq_length]
    intro val hval
    simpa using hstop val (List.mem_of_mem_drop hval)
  unfold trim
  dsimp only
  rw [hnone, ← hstart, List.length_drop]
  split
  · next h =>
    rw [eq_comm, FlatSet.empty, List.drop_eq_nil_iff]
    omega
  · show (vals.values.take _).drop _ = _
    rw [List.take_of_length_le (by omega)]

theorem values_trim (hs : vals.Increasing) : (trim boundaries vals).values =
    (vals.values.filter (boundaries.startAt ≤ ·)).filter (· ≤ boundaries.stopAt) := by
  have hstart : vals.values.drop (vals.values.findIdx (fun val => boundaries.startAt ≤ val)) =
      vals.values.filter (boundaries.startAt ≤ ·) := by
    rw [← dropWhile_lt_of_pairwise hs, List.dropWhile_eq_drop_findIdx_not]
    simp only [← decide_not, not_lt]
  have hsorted := List.Pairwise.filter (boundaries.startAt ≤ ·) hs
  have hstop : (vals.values.filter (boundaries.startAt ≤ ·)).take
      ((vals.values.filter (boundaries.startAt ≤ ·)).findIdx
        (fun val => boundaries.stopAt < val)) =
      (vals.values.filter (boundaries.startAt ≤ ·)).filter (· ≤ boundaries.stopAt) := by
    rw [← takeWhile_le_of_pairwise hsorted, List.takeWhile_eq_take_findIdx_not]
    simp only [← decide_not, not_le]
  unfold trim
  dsimp only
  split
  · next h =>
    rw [eq_comm, FlatSet.empty, ← hstop, ← hstart]
    rcases h with h | h
    · rw [h, List.drop_length, List.take_nil]
    · rw [Nat.add_eq_zero_iff] at h
      rw [h.2, List.take_zero]
  · simp only [FlatSet.trim, List.drop_take, Nat.add_sub_cancel_left, hstart, hstop]

theorem increasing_trim (boundaries : InclusiveIntegralRange w) (hs : vals.Increasing) :
    (trim boundaries vals).Increasing :=
  List.Pairwise.sublist infix_trim.sublist hs

theorem mem_trim (hs : vals.Increasing) {n : BitVec w} :
    n ∈ (trim boundaries vals).values ↔ n ∈ vals.values ∧ boundaries.Contains n := by
  rw [values_trim hs, List.mem_filter, List.mem_filter]
  simp [InclusiveIntegralRange.Contains, and_assoc]

/-- **Flat sets keep their representation when nothing occurs twice.**  A flat set is strictly
increasing and has the converted values as its members if and only if no two of them are equal.
What `trim` returns is the contiguous part of a strictly increasing sequence that lies between the
bounds, without a condition. -/
theorem representation_iff {α β : Type*} [LinearOrder α] (moved : ℕ → α → α) (l : List β)
    (conv : β → α) (s : FlatSet (BitVec w)) (hs : s.Increasing)
    (boundaries : InclusiveIntegralRange w) :
    (((FlatSet.make moved l conv).Increasing ∧
        ∀ a, a ∈ (FlatSet.make moved l conv).values ↔ ∃ b ∈ l, conv b = a) ∧
      (trim boundaries s).values <:+: s.values ∧
        (trim boundaries s).values = s.values.filter boundaries.Contains) ↔
      (l.map conv).Nodup := by
  have htrim : (trim boundaries s).values = s.values.filter boundaries.Contains := by
    rw [values_trim hs, List.filter_filter]
    congr 1
    funext n
    simp [InclusiveIntegralRange.Contains, and_comm]
  rw [← FlatSet.sortAndRemoveDuplicates_isSet_iff moved, and_iff_left ⟨infix_trim, htrim⟩]
  simp only [FlatSet.Increasing, FlatSet.make, List.mem_map]

/-- The values 2, 3 and 5, whose input is not sorted, and the part of them up to 4. -/
theorem representation_iff_distinct :
    (FlatSet.make (fun _ n => n) [4, 1, 2] (· + 1) : FlatSet ℕ).Increasing ∧
      (trim ⟨0, 4⟩ (⟨[2, 3, 5]⟩ : FlatSet (BitVec 32))).values <:+: [2, 3, 5] := by
  have h := (representation_iff (fun _ n => n) [4, 1, 2] (fun n : ℕ => n + 1)
    (⟨[2, 3, 5]⟩ : FlatSet (BitVec 32)) (by decide) ⟨0, 4⟩).2 (by decide)
  exact ⟨h.1.1, h.2.1⟩

/-- Of two equal values both stay. -/
theorem duplicate_is_kept :
    (FlatSet.make (fun _ n => n) [1, 1] id : FlatSet ℕ).values = [1, 1] ∧
      ¬ (FlatSet.make (fun _ n => n) [1, 1] id : FlatSet ℕ).Increasing := by
  have hvalues : (FlatSet.make (fun _ n => n) [1, 1] id : FlatSet ℕ).values = [1, 1] := by decide
  refine ⟨hvalues, ?_⟩
  rw [FlatSet.Increasing, hvalues]
  decide

end Trim

end ThePipe.Utils
