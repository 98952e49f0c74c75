import Mathlib.Data.List.AList

/-!
# Tables with a frame

`Frame base own t` says that the table `t` is `base` with the entries `own` added: nothing of
`base` has been removed or replaced.  What a run adds to a table that it does not own is followed
by `Frame.insert`, `Frame.replace` and `Frame.erase`.
-/

set_option autoImplicit false

namespace ThePipe.Lib

variable {κ ν : Type*} [DecidableEq κ]

/-! ## Association lists -/

theorem AList.lookup_insert_ite (t : AList fun _ : κ => ν) (k k' : κ) (v : ν) :
    (t.insert k v).lookup k' = if k' = k then some v else t.lookup k' := by
  split
  · next h => rw [h, AList.lookup_insert]
  · next h => exact AList.lookup_insert_ne h

theorem AList.lookup_erase_ite (t : AList fun _ : κ => ν) (k k' : κ) :
    (t.erase k).lookup k' = if k' = k then none else t.lookup k' := by
  split
  · next h => rw [h, AList.lookup_erase]
  · next h => exact AList.lookup_erase_ne h

/-- Changes every value, or drops its entry. -/
def AList.filterMap (t : AList fun _ : κ => ν) (f : κ → ν → Option ν) : AList fun _ : κ => ν where
  entries := t.entries.filterMap fun d => (f d.1 d.2).map fun v => ⟨d.1, v⟩
  nodupKeys := by
    rw [List.nodupKeys_iff_pairwise]
    refine (List.nodupKeys_iff_pairwise.1 t.nodupKeys).filterMap _ ?_
    intro d d' hne e he e' he'
    obtain ⟨v, -, rfl⟩ := Option.map_eq_some_iff.1 he
    obtain ⟨v', -, rfl⟩ := Option.map_eq_some_iff.1 he'
    exact hne

theorem AList.lookup_filterMap (t : AList fun _ : κ => ν) (f : κ → ν → Option ν) (k : κ) :
    (AList.filterMap t f).lookup k = (t.lookup k).bind (f k) := by
  ext v
  rw [← Option.mem_def, AList.mem_lookup_iff, Option.bind_eq_some_iff]
  simp only [AList.filterMap, List.mem_filterMap, Option.map_eq_some_iff]
  constructor
  · rintro ⟨⟨k', v'⟩, hmem, w, hw, heq⟩
    cases heq
    exact ⟨v', AList.mem_lookup_iff.2 hmem, hw⟩
  · rintro ⟨v', hlookup, hv⟩
    exact ⟨⟨k, v'⟩, AList.mem_lookup_iff.1 hlookup, v, hv, rfl⟩

/-- Converts every value. -/
def AList.map {μ : Type*} (t : AList fun _ : κ => ν) (f : κ → ν → μ) : AList fun _ : κ => μ where
  entries := t.entries.map fun d => ⟨d.1, f d.1 d.2⟩
  nodupKeys := by
    rw [List.nodupKeys_iff_pairwise, List.pairwise_map]
    exact List.nodupKeys_iff_pairwise.1 t.nodupKeys

theorem AList.lookup_map {μ : Type*} (t : AList fun _ : κ => ν) (f : κ → ν → μ) (k : κ) :
    (AList.map t f).lookup k = (t.lookup k).map (f k) := by
  ext v
  rw [← Option.mem_def, AList.mem_lookup_iff, Option.map_eq_some_iff]
  simp only [AList.map, List.mem_map]
  constructor
  · rintro ⟨⟨k', v'⟩, hmem, heq⟩
    cases heq
    exact ⟨v', AList.mem_lookup_iff.2 hmem, rfl⟩
  · rintro ⟨v', hlookup, rfl⟩
    exact ⟨⟨k, v'⟩, AList.mem_lookup_iff.1 hlookup, rfl⟩

/-! ## Frames -/

/-- The table is `base` with the entries `own` added. -/
structure Frame (base : AList fun _ : κ => ν) (own : List (κ × ν)) (t : AList fun _ : κ => ν) :
    Prop where
  lookup : ∀ k, t.lookup k = (own.lookup k).or (base.lookup k)
  nodup : (own.map Prod.fst).Nodup
  fresh : ∀ d ∈ own, base.lookup d.1 = none

namespace Frame

variable {base t : AList fun _ : κ => ν} {own own' : List (κ × ν)} {k : κ} {v v' : ν}

theorem refl (base : AList fun _ : κ => ν) : Frame base [] base :=
  ⟨fun _ => rfl, List.nodup_nil, fun _ h => by cases h⟩

theorem mem_lookup_of_nodup (h : (own.map Prod.fst).Nodup) :
    own.lookup k = some v ↔ (k, v) ∈ own := by
  induction own with
  | nil => simp
  | cons d own ih =>
    obtain ⟨k', v'⟩ := d
    simp only [List.map_cons, List.nodup_cons] at h
    by_cases hk : k = k'
    · subst hk
      have hnot : (k, v) ∉ own := fun hmem => h.1 (List.mem_map_of_mem hmem)
      simp [hnot, eq_comm]
    · have hbeq : (k == k') = false := beq_false_of_ne hk
      simp [List.lookup_cons, hbeq, ih h.2, hk]

theorem lookup_eq_none_iff : own.lookup k = none ↔ k ∉ own.map Prod.fst := by
  induction own with
  | nil => simp
  | cons d own ih =>
    by_cases hk : k = d.1
    · simp [hk]
    · have hbeq : (k == d.1) = false := beq_false_of_ne hk
      rw [List.lookup_cons, hbeq]
      simp only [ih, List.map_cons, List.mem_cons, hk, false_or]

theorem perm (h : Frame base own t) (hp : own.Perm own') : Frame base own' t := by
  have hnodup : (own'.map Prod.fst).Nodup := (hp.map _).nodup_iff.1 h.nodup
  refine ⟨fun k => ?_, hnodup, fun d hd => h.fresh d (hp.mem_iff.2 hd)⟩
  have hlookup : own'.lookup k = own.lookup k := by
    ext v
    rw [mem_lookup_of_nodup hnodup, mem_lookup_of_nodup h.nodup, hp.mem_iff]
  rw [h.lookup, hlookup]

theorem lookup_own (h : Frame base own t) (hmem : (k, v) ∈ own) : t.lookup k = some v := by
  rw [h.lookup, (mem_lookup_of_nodup h.nodup).2 hmem, Option.some_or]

theorem lookup_cases (h : Frame base own t) (hmem : t.lookup k = some v) :
    (k, v) ∈ own ∨ base.lookup k = some v := by
  rw [h.lookup] at hmem
  cases hk : own.lookup k with
  | none =>
    rw [hk, Option.none_or] at hmem
    exact .inr hmem
  | some v' =>
    rw [hk, Option.some_or] at hmem
    exact .inl ((mem_lookup_of_nodup h.nodup).1 (hk.trans hmem))

theorem mem_iff (h : Frame base own t) : k ∈ t ↔ k ∈ base ∨ k ∈ own.map Prod.fst := by
  rw [← AList.lookup_isSome, h.lookup, Option.isSome_or, Bool.or_eq_true, AList.lookup_isSome,
    or_comm]
  refine or_congr_right ?_
  rw [← not_iff_not, ← lookup_eq_none_iff, Bool.not_eq_true, Option.isSome_eq_false_iff,
    Option.isNone_iff_eq_none]

theorem insert {l₁ l₂ : List (κ × ν)} (h : Frame base (l₁ ++ l₂) t) (hk : t.lookup k = none) :
    Frame base (l₁ ++ (k, v) :: l₂) (t.insert k v) := by
  have hcons : Frame base ((k, v) :: (l₁ ++ l₂)) (t.insert k v) := by
    have hnone := hk
    rw [h.lookup, Option.or_eq_none_iff] at hnone
    refine ⟨fun k' => ?_, ?_, ?_⟩
    · rw [AList.lookup_insert_ite, List.lookup_cons]
      split
      · next heq => subst heq; simp
      · next hne =>
        have hbeq : (k' == k) = false := beq_false_of_ne hne
        rw [hbeq]
        exact h.lookup k'
    · exact List.nodup_cons.2 ⟨lookup_eq_none_iff.1 hnone.1, h.nodup⟩
    · rw [List.forall_mem_cons]
      exact ⟨hnone.2, h.fresh⟩
  exact hcons.perm List.perm_middle.symm

theorem cons {l : List (κ × ν)} (h : Frame base l t) (hk : t.lookup k = none) :
    Frame base ((k, v) :: l) (t.insert k v) := by
  have hsplit : Frame base ([] ++ l) t := h
  exact hsplit.insert hk

theorem erase {l₁ l₂ : List (κ × ν)} (h : Frame base (l₁ ++ (k, v) :: l₂) t) :
    Frame base (l₁ ++ l₂) (t.erase k) := by
  have hcons := h.perm List.perm_middle
  have hnodup := List.nodup_cons.1 hcons.nodup
  have hbase := hcons.fresh (k, v) List.mem_cons_self
  refine ⟨fun k' => ?_, hnodup.2, fun d hd => hcons.fresh d (List.mem_cons_of_mem _ hd)⟩
  rw [AList.lookup_erase_ite]
  split
  · next heq =>
    rw [heq, lookup_eq_none_iff.2 hnodup.1]
    exact hbase.symm
  · next hne =>
    have hbeq : (k' == k) = false := beq_false_of_ne hne
    rw [hcons.lookup, List.lookup_cons, hbeq]

theorem replace {l₁ l₂ : List (κ × ν)} (h : Frame base (l₁ ++ (k, v) :: l₂) t) :
    Frame base (l₁ ++ (k, v') :: l₂) (t.insert k v') := by
  have hinsert := h.erase.insert (v := v') (AList.lookup_erase k t)
  refine ⟨fun k' => ?_, hinsert.nodup, hinsert.fresh⟩
  rw [← hinsert.lookup, AList.lookup_insert_ite, AList.lookup_insert_ite, AList.lookup_erase_ite]
  split <;> rfl

end Frame

end ThePipe.Lib
