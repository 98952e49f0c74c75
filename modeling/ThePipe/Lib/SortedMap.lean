import Mathlib.Data.List.Sort

/-!
# Maps as lists with increasing keys

A finite map over a linear order has one list of entries with increasing keys, so that maps are
equal when they have the same entries.  `insert` keeps a value that is there already.  Inserting
the entries of such a list one after the other, converted by a function that may fail, gives the
list of the converted entries.
-/

set_option autoImplicit false

namespace ThePipe.Lib

universe u

variable {κ α β γ ε : Type*}

/-! ## Folds that may fail -/

theorem bind_eq_ok {σ τ : Type u} {x : Except ε σ} {f : σ → Except ε τ} {b : τ} :
    x >>= f = .ok b ↔ ∃ a, x = .ok a ∧ f a = .ok b := by
  cases x with
  | error e => simp [bind, Except.bind]
  | ok a => simp [bind, Except.bind]

theorem map_eq_ok {x : Except ε α} {f : α → β} {b : β} :
    x.map f = .ok b ↔ ∃ a, x = .ok a ∧ f a = b := by
  cases x <;> simp [Except.map]

theorem foldlM_map_isOk {f : β → Except ε α} {g : γ → β → α → γ} {l : List β} {c : γ} :
    (∃ c', l.foldlM (fun c b => (f b).map (g c b)) c = .ok c') ↔ ∀ b ∈ l, ∃ a, f b = .ok a := by
  induction l generalizing c with
  | nil => simp [pure, Except.pure]
  | cons b l ih =>
    rw [List.forall_mem_cons]
    constructor
    · rintro ⟨c', hc'⟩
      rw [List.foldlM_cons, bind_eq_ok] at hc'
      obtain ⟨c₁, hc₁, hrest⟩ := hc'
      obtain ⟨a, ha, -⟩ := map_eq_ok.1 hc₁
      exact ⟨⟨a, ha⟩, ih.1 ⟨c', hrest⟩⟩
    · rintro ⟨⟨a, ha⟩, hrest⟩
      obtain ⟨c', hc'⟩ := (ih (c := g c b a)).2 hrest
      refine ⟨c', ?_⟩
      rw [List.foldlM_cons, bind_eq_ok]
      exact ⟨_, map_eq_ok.2 ⟨a, ha, rfl⟩, hc'⟩

theorem foldlM_append_eq_ok {f : β → Except ε α} {l : List β} {acc acc' : List α} :
    l.foldlM (fun acc b => (f b).map fun a => acc ++ [a]) acc = .ok acc' ↔
      ∃ tail, acc' = acc ++ tail ∧ List.Forall₂ (fun b a => f b = .ok a) l tail := by
  induction l generalizing acc with
  | nil =>
    rw [List.foldlM_nil]
    constructor
    · intro h
      cases h
      exact ⟨[], (List.append_nil _).symm, .nil⟩
    · rintro ⟨tail, rfl, htail⟩
      cases htail
      rw [List.append_nil]
      rfl
  | cons b l ih =>
    rw [List.foldlM_cons, bind_eq_ok]
    constructor
    · rintro ⟨acc₁, hacc₁, hrest⟩
      obtain ⟨a, ha, rfl⟩ := map_eq_ok.1 hacc₁
      obtain ⟨tail, rfl, htail⟩ := ih.1 hrest
      exact ⟨a :: tail, by simp, .cons ha htail⟩
    · rintro ⟨tail, rfl, htail⟩
      cases htail with
      | @cons _ a _ tail ha htail =>
        refine ⟨acc ++ [a], map_eq_ok.2 ⟨a, ha, rfl⟩, ih.2 ⟨tail, by simp, htail⟩⟩

theorem forall₂_eq_map {f : α → β} {l : List β} {l' : List α} :
    List.Forall₂ (fun b a => b = f a) l l' ↔ l = l'.map f := by
  rw [← List.forall₂_map_right_iff (R := Eq), List.forall₂_eq_eq_eq]

/-! ## Increasing keys -/

variable [LinearOrder κ]

/-- The keys increase. -/
def Increasing (l : List (κ × α)) : Prop := l.Pairwise fun a b => a.1 < b.1

instance (l : List (κ × α)) : Decidable (Increasing l) := by unfold Increasing; infer_instance

/-- The entries with a new one in its place, unless its key is there already. -/
def insertEntry (k : κ) (v : α) : List (κ × α) → List (κ × α)
  | [] => [(k, v)]
  | e :: es =>
    if k < e.1 then (k, v) :: e :: es
    else if k = e.1 then e :: es
    else e :: insertEntry k v es

theorem mem_insertEntry {k : κ} {v : α} {l : List (κ × α)} {e : κ × α}
    (h : e ∈ insertEntry k v l) : e = (k, v) ∨ e ∈ l := by
  induction l with
  | nil => exact .inl (List.mem_singleton.1 h)
  | cons e' l ih =>
    rw [insertEntry] at h
    split at h
    · exact List.mem_cons.1 h
    · split at h
      · exact .inr h
      · rcases List.mem_cons.1 h with rfl | h
        · exact .inr List.mem_cons_self
        · exact (ih h).imp_right (List.mem_cons_of_mem e')

theorem Increasing.insertEntry {k : κ} {v : α} {l : List (κ × α)} (h : Increasing l) :
    Increasing (insertEntry k v l) := by
  induction l with
  | nil => exact List.pairwise_singleton _ _
  | cons e l ih =>
    obtain ⟨hhead, htail⟩ := List.pairwise_cons.1 h
    rw [Lib.insertEntry]
    split
    · next hlt =>
      refine List.pairwise_cons.2 ⟨?_, h⟩
      intro e' he'
      rcases List.mem_cons.1 he' with rfl | he'
      · exact hlt
      · exact hlt.trans (hhead e' he')
    · next hlt =>
      split
      · exact h
      · next hne =>
        refine List.pairwise_cons.2 ⟨?_, ih htail⟩
        intro e' he'
        rcases mem_insertEntry he' with rfl | he'
        · exact lt_of_le_of_ne (not_lt.1 hlt) (Ne.symm hne)
        · exact hhead e' he'

theorem insertEntry_of_forall_lt {k : κ} {v : α} {l : List (κ × α)} (h : ∀ e ∈ l, e.1 < k) :
    insertEntry k v l = l ++ [(k, v)] := by
  induction l with
  | nil => rfl
  | cons e l ih =>
    obtain ⟨hlt, htail⟩ := List.forall_mem_cons.1 h
    rw [insertEntry, if_neg hlt.asymm, if_neg hlt.ne', ih htail, List.cons_append]

/-- Inserting increasing entries one after the other appends them. -/
theorem foldl_insertEntry {f : α → β} {l : List (κ × α)} {acc : List (κ × β)}
    (hacc : ∀ e ∈ acc, ∀ e' ∈ l, e.1 < e'.1) (h : Increasing l) :
    l.foldl (fun acc e => insertEntry e.1 (f e.2) acc) acc =
      acc ++ l.map fun e => (e.1, f e.2) := by
  induction l generalizing acc with
  | nil => simp
  | cons e l ih =>
    obtain ⟨hhead, htail⟩ := List.pairwise_cons.1 h
    rw [List.foldl_cons, insertEntry_of_forall_lt fun e' he' => hacc e' he' e List.mem_cons_self,
      ih ?_ htail]
    · simp
    · intro e₁ he₁ e₂ he₂
      rcases List.mem_append.1 he₁ with he₁ | he₁
      · exact hacc e₁ he₁ e₂ (List.mem_cons_of_mem e he₂)
      · obtain rfl := List.mem_singleton.1 he₁
        exact hhead e₂ he₂

theorem Increasing.lookup_eq_some_iff {l : List (κ × α)} (h : Increasing l) {k : κ} {v : α} :
    l.lookup k = some v ↔ (k, v) ∈ l := by
  induction l with
  | nil => simp
  | cons e l ih =>
    obtain ⟨k', v'⟩ := e
    obtain ⟨hhead, htail⟩ := List.pairwise_cons.1 h
    by_cases hk : k = k'
    · subst hk
      rw [List.lookup_cons_self, Option.some_inj]
      constructor
      · rintro rfl
        exact List.mem_cons_self
      · intro hmem
        rcases List.mem_cons.1 hmem with heq | hmem
        · exact (Prod.mk.inj heq).2.symm
        · exact absurd (hhead _ hmem) (lt_irrefl k)
    · rw [List.lookup_cons, beq_false_of_ne hk]
      show l.lookup k = some v ↔ _
      rw [ih htail, List.mem_cons, or_iff_right]
      intro heq
      exact hk (Prod.mk.inj heq).1

theorem Increasing.filter {l : List (κ × α)} (h : Increasing l) (p : κ × α → Bool) :
    Increasing (l.filter p) :=
  List.Pairwise.filter p h

theorem Increasing.ext {l l' : List (κ × α)} (h : Increasing l) (h' : Increasing l')
    (hmem : ∀ e, e ∈ l ↔ e ∈ l') : l = l' := by
  have hnodup : l.Nodup := h.imp fun hlt heq => absurd (congrArg Prod.fst heq) hlt.ne
  have hnodup' : l'.Nodup := h'.imp fun hlt heq => absurd (congrArg Prod.fst heq) hlt.ne
  have hperm : l.Perm l' := (List.perm_ext_iff_of_nodup hnodup hnodup').2 hmem
  refine hperm.eq_of_pairwise ?_ h h'
  intro a b _ _ hab hba
  exact absurd hab hba.asymm

/-! ## Maps -/

/-- A finite map. -/
@[ext]
structure SortedMap (κ α : Type*) [LinearOrder κ] where
  entries : List (κ × α)
  increasing : Increasing entries

namespace SortedMap

def empty : SortedMap κ α := ⟨[], .nil⟩

instance : EmptyCollection (SortedMap κ α) := ⟨empty⟩

/-- Inserts an entry, unless its key is there already. -/
def insert (m : SortedMap κ α) (k : κ) (v : α) : SortedMap κ α :=
  ⟨insertEntry k v m.entries, m.increasing.insertEntry⟩

theorem foldlM_insert_eq_ok {f : β → Except ε α} {l : List (κ × β)} {m m' : SortedMap κ α}
    (hm : ∀ e ∈ m.entries, ∀ e' ∈ l, e.1 < e'.1) (h : Increasing l) :
    l.foldlM (fun m e => (f e.2).map fun a => m.insert e.1 a) m = .ok m' ↔
      ∃ tail, m'.entries = m.entries ++ tail ∧
        List.Forall₂ (fun e e' => e'.1 = e.1 ∧ f e.2 = .ok e'.2) l tail := by
  induction l generalizing m with
  | nil =>
    rw [List.foldlM_nil]
    constructor
    · intro heq
      cases heq
      exact ⟨[], (List.append_nil _).symm, .nil⟩
    · rintro ⟨tail, heq, htail⟩
      cases htail
      rw [List.append_nil] at heq
      rw [SortedMap.ext heq]
      rfl
  | cons e l ih =>
    obtain ⟨hhead, htail⟩ := List.pairwise_cons.1 h
    have hinsert (a : α) : (m.insert e.1 a).entries = m.entries ++ [(e.1, a)] :=
      insertEntry_of_forall_lt fun e' he' => hm e' he' e List.mem_cons_self
    have hnext (a : α) : ∀ e₁ ∈ (m.insert e.1 a).entries, ∀ e₂ ∈ l, e₁.1 < e₂.1 := by
      intro e₁ he₁ e₂ he₂
      rw [hinsert] at he₁
      rcases List.mem_append.1 he₁ with he₁ | he₁
      · exact hm e₁ he₁ e₂ (List.mem_cons_of_mem e he₂)
      · obtain rfl := List.mem_singleton.1 he₁
        exact hhead e₂ he₂
    rw [List.foldlM_cons, bind_eq_ok]
    constructor
    · rintro ⟨m₁, hm₁, hrest⟩
      obtain ⟨a, ha, rfl⟩ := map_eq_ok.1 hm₁
      obtain ⟨tail, heq, hforall⟩ := (ih (hnext a) htail).1 hrest
      refine ⟨(e.1, a) :: tail, ?_, .cons ⟨rfl, ha⟩ hforall⟩
      rw [heq, hinsert, List.append_assoc, List.singleton_append]
    · rintro ⟨tail, heq, hforall⟩
      cases hforall with
      | @cons _ e' _ tail hconv hforall =>
        obtain ⟨k, a⟩ := e'
        obtain ⟨rfl, ha⟩ := hconv
        refine ⟨m.insert e.1 a, map_eq_ok.2 ⟨a, ha, rfl⟩, (ih (hnext a) htail).2 ⟨tail, ?_, hforall⟩⟩
        rw [heq, hinsert, List.append_assoc, List.singleton_append]

end SortedMap

end ThePipe.Lib
