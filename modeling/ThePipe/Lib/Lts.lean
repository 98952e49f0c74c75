import Mathlib.Data.List.Basic
import Mathlib.Data.List.Induction

/-!
# Labelled transition systems

A system is given by its initial states and a partial step function; the label of a step carries
everything the environment decides in it.  `Reach ok ls s` are the states `s` that a run reaches
by the steps `ls`, each of which `ok` allows in the state it is taken in.  Properties of runs are
proved by `Reach.invariant`, whose invariant may speak about the steps taken so far, and concrete
runs are found by evaluating `run`.  What happens from a given state on is a statement about `run`,
which is proved by `run_invariant`.  Two systems are put side by side by `driving`.
-/

set_option autoImplicit false

namespace ThePipe.Lib

variable {σ ℓ : Type*}

/-- A labelled transition system. -/
structure Lts (σ ℓ : Type*) where
  init : σ → Prop
  step : σ → ℓ → Option σ

namespace Lts

variable (L : Lts σ ℓ)

/-- The states reached by steps that `ok` allows, with these steps. -/
inductive Reach (ok : σ → ℓ → Prop) : List ℓ → σ → Prop
  | init {s : σ} : L.init s → Reach ok [] s
  | step {ls : List ℓ} {s s' : σ} {l : ℓ} : Reach ok ls s → ok s l → L.step s l = some s' →
      Reach ok (ls ++ [l]) s'

/-- Takes the steps `ls` one after the other, as long as `ok` allows them. -/
def run (ok : σ → ℓ → Prop) [∀ s l, Decidable (ok s l)] (s : σ) : List ℓ → Option σ
  | [] => some s
  | l :: ls => if ok s l then (L.step s l).bind fun s' => run ok s' ls else none

variable {L} {ok : σ → ℓ → Prop}

theorem Reach.append_run [∀ s l, Decidable (ok s l)] {ls ls' : List ℓ} {s s' : σ}
    (h : L.Reach ok ls s) (hr : L.run ok s ls' = some s') : L.Reach ok (ls ++ ls') s' := by
  induction ls' generalizing ls s with
  | nil =>
    obtain rfl : s = s' := by simpa [run] using hr
    simpa using h
  | cons l ls' ih =>
    simp only [run] at hr
    split at hr
    · next hok =>
      obtain ⟨t, ht, hr⟩ := Option.bind_eq_some_iff.1 hr
      simpa using ih (h.step hok ht) hr
    · cases hr

theorem Reach.of_run [∀ s l, Decidable (ok s l)] {ls : List ℓ} {s s' : σ} (h0 : L.init s)
    (hr : L.run ok s ls = some s') : L.Reach ok ls s' := by
  simpa using (Reach.init h0).append_run hr

/-- To find a run it is enough to evaluate what is of interest in its last state. -/
theorem Reach.exists_of_map_run {α : Type*} [∀ s l, Decidable (ok s l)] {ls : List ℓ} {s : σ}
    {f : σ → α} {a : α} (h0 : L.init s) (hr : (L.run ok s ls).map f = some a) :
    ∃ s', L.Reach ok ls s' ∧ f s' = a := by
  obtain ⟨s', hs', ha⟩ := Option.map_eq_some_iff.1 hr
  exact ⟨s', .of_run h0 hs', ha⟩

/-- **Induction over runs.**  What holds at the start and is preserved by every allowed step of a
reachable state holds after every run; it may mention the steps taken. -/
theorem Reach.invariant {I : List ℓ → σ → Prop} (h0 : ∀ s, L.init s → I [] s)
    (hstep : ∀ ls s l s', L.Reach ok ls s → I ls s → ok s l → L.step s l = some s' →
      I (ls ++ [l]) s') {ls : List ℓ} {s : σ} (h : L.Reach ok ls s) : I ls s := by
  induction h with
  | init hi => exact h0 _ hi
  | step hr ho hs ih => exact hstep _ _ _ _ hr ih ho hs

theorem Reach.mono {ok' : σ → ℓ → Prop} (hok : ∀ s l, ok s l → ok' s l) {ls : List ℓ} {s : σ}
    (h : L.Reach ok ls s) : L.Reach ok' ls s := by
  induction h with
  | init hi => exact .init hi
  | step _ ho hs ih => exact ih.step (hok _ _ ho) hs

theorem Reach.of_mem {ls : List ℓ} {s : σ} {l : ℓ} (h : L.Reach ok ls s) (hl : l ∈ ls) :
    ∃ before after s₁ s₂, ls = before ++ l :: after ∧ L.Reach ok before s₁ ∧ ok s₁ l ∧
      L.step s₁ l = some s₂ := by
  induction h with
  | init _ => cases hl
  | @step ls s s' l' hr ho hs ih =>
    rcases List.mem_append.1 hl with hl | hl
    · obtain ⟨before, after, s₁, s₂, rfl, hr₁, ho₁, hs₁⟩ := ih hl
      exact ⟨before, after ++ [l'], s₁, s₂, by simp, hr₁, ho₁, hs₁⟩
    · obtain rfl := List.mem_singleton.1 hl
      exact ⟨ls, [], s, s', rfl, hr, ho, hs⟩

/-! ## History variables -/

section History

variable {η : Type*} {initial : η} {record : σ → ℓ → η → η}

end History

/-! ## Runs from a given state -/

theorem concat_eq_append_cons_iff {α : Type*} {xs before after : List α} {x y : α} :
    xs ++ [y] = before ++ x :: after ↔
      after = [] ∧ xs = before ∧ y = x ∨
        ∃ after', after = after' ++ [y] ∧ xs = before ++ x :: after' := by
  rcases List.eq_nil_or_concat after with rfl | ⟨after, z, rfl⟩
  · simp
  · have hassoc : before ++ x :: after.concat z = (before ++ x :: after) ++ [z] := by simp
    rw [hassoc, List.append_singleton_inj, List.concat_eq_append]
    constructor
    · rintro ⟨rfl, rfl⟩
      exact .inr ⟨after, rfl, rfl⟩
    · rintro (⟨hnil, -⟩ | ⟨after', heq, rfl⟩)
      · simp at hnil
      · obtain ⟨rfl, rfl⟩ := List.append_singleton_inj.1 heq
        exact ⟨rfl, rfl⟩

section Run

variable [∀ s l, Decidable (ok s l)]

theorem run_append (s : σ) (ls ls' : List ℓ) :
    L.run ok s (ls ++ ls') = (L.run ok s ls).bind fun t => L.run ok t ls' := by
  induction ls generalizing s with
  | nil => simp [run]
  | cons l ls ih =>
    simp only [List.cons_append, run]
    split
    · rw [Option.bind_assoc]
      exact Option.bind_congr fun t _ => ih t
    · rfl

theorem run_append_eq_some {s t : σ} {ls ls' : List ℓ} :
    L.run ok s (ls ++ ls') = some t ↔
      ∃ t', L.run ok s ls = some t' ∧ L.run ok t' ls' = some t := by
  rw [run_append, Option.bind_eq_some_iff]

theorem run_cons_eq_some {s t : σ} {ls : List ℓ} {l : ℓ} :
    L.run ok s (l :: ls) = some t ↔
      ok s l ∧ ∃ t', L.step s l = some t' ∧ L.run ok t' ls = some t := by
  rw [run, Option.ite_none_right_eq_some, Option.bind_eq_some_iff]

theorem run_concat_eq_some {s t : σ} {ls : List ℓ} {l : ℓ} :
    L.run ok s (ls ++ [l]) = some t ↔
      ∃ t', L.run ok s ls = some t' ∧ ok t' l ∧ L.step t' l = some t := by
  simp only [run_append_eq_some, run_cons_eq_some]
  simp [run]

theorem run_true {s t : σ} {ls : List ℓ} (h : L.run ok s ls = some t) :
    L.run (fun _ _ => True) s ls = some t := by
  induction ls generalizing s with
  | nil => exact h
  | cons l ls ih =>
    simp only [run, Option.ite_none_right_eq_some] at h
    obtain ⟨t', ht', h⟩ := Option.bind_eq_some_iff.1 h.2
    simp only [run, if_true]
    exact Option.bind_eq_some_iff.2 ⟨t', ht', ih h⟩

/-- What holds in a state and is preserved by every allowed step holds after every run from it; it
may mention the steps taken. -/
theorem run_invariant {s : σ} {I : List ℓ → σ → Prop} (h0 : I [] s)
    (hstep : ∀ ls t l t', L.run ok s ls = some t → I ls t → ok t l → L.step t l = some t' →
      I (ls ++ [l]) t') {ls : List ℓ} {t : σ} (h : L.run ok s ls = some t) : I ls t := by
  induction ls using List.reverseRecOn generalizing t with
  | nil =>
    obtain rfl : s = t := Option.some.inj h
    exact h0
  | append_singleton ls l ih =>
    obtain ⟨t', ht', hok, hs⟩ := run_concat_eq_some.1 h
    exact hstep ls t' l t ht' (ih ht') hok hs

end Run

/-! ## A system that drives another one -/

section Driving

variable {τ κ : Type*} {D : Lts τ κ} {fed : σ → σ → Option κ} {own : κ → Prop} [DecidablePred own]

variable (L D fed own) in
/-- Two systems side by side.  A step of the first one, from `s` to `s'`, is the step `fed s s'` of
the second one as well, if there is one; besides, the second one takes its `own` steps. -/
def driving : Lts (σ × τ) (ℓ ⊕ κ) where
  init p := L.init p.1 ∧ D.init p.2
  step p
    | .inl l => (L.step p.1 l).bind fun s =>
      match fed p.1 s with
      | none => some (s, p.2)
      | some k => (D.step p.2 k).map fun t => (s, t)
    | .inr k => if own k then (D.step p.2 k).map fun t => (p.1, t) else none

/-- What a step does, by cases. -/
inductive Driving (L : Lts σ ℓ) (D : Lts τ κ) (fed : σ → σ → Option κ) (own : κ → Prop) :
    σ × τ → ℓ ⊕ κ → σ × τ → Prop
  | alone {s s' : σ} {t : τ} {l : ℓ} (hs : L.step s l = some s') (hfed : fed s s' = none) :
      Driving L D fed own (s, t) (.inl l) (s', t)
  | together {s s' : σ} {t t' : τ} {l : ℓ} {k : κ} (hs : L.step s l = some s')
      (hfed : fed s s' = some k) (ht : D.step t k = some t') :
      Driving L D fed own (s, t) (.inl l) (s', t')
  | driven {s : σ} {t t' : τ} {k : κ} (hown : own k) (ht : D.step t k = some t') :
      Driving L D fed own (s, t) (.inr k) (s, t')

theorem driving_cases {p p' : σ × τ} {x : ℓ ⊕ κ} (h : (L.driving D fed own).step p x = some p') :
    Driving L D fed own p x p' := by
  obtain ⟨s, t⟩ := p
  cases x with
  | inl l =>
    obtain ⟨s', hs, h⟩ := Option.bind_eq_some_iff.1 h
    split at h
    · next hfed =>
      cases h
      exact .alone hs hfed
    · next k hfed =>
      obtain ⟨t', ht, rfl⟩ := Option.map_eq_some_iff.1 h
      exact .together hs hfed ht
  | inr k =>
    obtain ⟨hown, h⟩ := Option.ite_none_right_eq_some.1 h
    obtain ⟨t', ht, rfl⟩ := Option.map_eq_some_iff.1 h
    exact .driven hown ht

/-- The run of the system that drives. -/
theorem Reach.driver {ok : σ × τ → ℓ ⊕ κ → Prop} {xs : List (ℓ ⊕ κ)} {p : σ × τ}
    (h : (L.driving D fed own).Reach ok xs p) :
    L.Reach (fun _ _ => True) (xs.filterMap Sum.getLeft?) p.1 := by
  induction h with
  | init h0 => exact .init h0.1
  | step _ _ hs ih =>
    rw [List.filterMap_append]
    cases driving_cases hs with
    | alone hl hfed => exact ih.step trivial hl
    | together hl hfed ht => exact ih.step trivial hl
    | driven hown ht =>
      rw [List.filterMap_cons_none rfl, List.filterMap_nil, List.append_nil]
      exact ih

/-- The system that is driven makes one of its own runs. -/
theorem Reach.driven {ok : σ × τ → ℓ ⊕ κ → Prop} {xs : List (ℓ ⊕ κ)} {p : σ × τ}
    (h : (L.driving D fed own).Reach ok xs p) : ∃ ks, D.Reach (fun _ _ => True) ks p.2 := by
  induction h with
  | init h0 => exact ⟨[], .init h0.2⟩
  | step _ _ hs ih =>
    obtain ⟨ks, hks⟩ := ih
    cases driving_cases hs with
    | alone hl hfed => exact ⟨ks, hks⟩
    | together hl hfed ht => exact ⟨_, hks.step trivial ht⟩
    | driven hown ht => exact ⟨_, hks.step trivial ht⟩

end Driving

end Lts

end ThePipe.Lib
