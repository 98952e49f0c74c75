import ThePipe.Lib.Lts

/-!
# Runs whose steps take effect one at a time

A system refines another one through an abstraction function when each of its steps either changes
nothing that the function shows, or is a step of the other system: its *effect*
(`Lts.Reach.refines`).

Where threads call the operations of a shared object this is how the object is seen to behave as if
every operation were one step: `History` says that each operation has one effect, between its call
and its return, and `Lts.Reach.linearizes` carries this along the runs.
-/

set_option autoImplicit false

namespace ThePipe.Lib

variable {σ τ ℓ κ ι ω : Type*}

/-! ## Refinement -/

/-- What a run has done: its steps, each with its effect if it has one. -/
abbrev Effects (ℓ κ : Type*) := List (ℓ × Option κ)

/-- A step that `ok` allows, or no step at all. -/
def Lts.Moves (A : Lts τ κ) (ok : τ → κ → Prop) (t : τ) : Option κ → τ → Prop
  | none, t' => t' = t
  | some k, t' => ok t k ∧ A.step t k = some t'

/-- **Forward simulation** through an abstraction function: what the run `ls` has effected is a run
of the abstract system.  The invariant may mention the steps taken and their effects. -/
theorem Lts.Reach.refines {C : Lts σ ℓ} {A : Lts τ κ} {ok : σ → ℓ → Prop} {ok' : τ → κ → Prop}
    (abs : σ → τ) (effect : σ → ℓ → Option κ) {I : Effects ℓ κ → σ → Prop}
    (h0 : ∀ s, C.init s → A.init (abs s) ∧ I [] s)
    (hstep : ∀ es s l s', I es s → ok s l → C.step s l = some s' →
      A.Moves ok' (abs s) (effect s l) (abs s') ∧ I (es ++ [(l, effect s l)]) s')
    {ls : List ℓ} {s : σ} (h : C.Reach ok ls s) :
    ∃ es : Effects ℓ κ, es.map Prod.fst = ls ∧ A.Reach ok' (es.filterMap Prod.snd) (abs s) ∧
      I es s := by
  induction h with
  | init hi => exact ⟨[], rfl, .init (h0 _ hi).1, (h0 _ hi).2⟩
  | @step ls s s' l _ hok hs ih =>
    obtain ⟨es, rfl, habs, hI⟩ := ih
    obtain ⟨hmoves, hI'⟩ := hstep es s l s' hI hok hs
    refine ⟨es ++ [(l, effect s l)], by simp, ?_, hI'⟩
    rw [List.filterMap_append]
    cases he : effect s l with
    | none =>
      rw [he] at hmoves
      have hsame : abs s' = abs s := hmoves
      simpa [hsame] using habs
    | some k =>
      rw [he] at hmoves
      simpa using habs.step hmoves.1 hmoves.2

/-! ## Operations of a shared object -/

/-- What happens to an operation. -/
inductive Event (ω : Type*)
  | call (op : ω)
  | effect (op : ω)
  | return
  deriving DecidableEq

/-- Where a thread is in its operation. -/
inductive Stage (ω : Type*)
  | idle
  | called (op : ω)
  | effected
  deriving DecidableEq

/-- An operation is called, has its effect, and returns. -/
def Stage.next [DecidableEq ω] : Stage ω → Event ω → Option (Stage ω)
  | .idle, .call op => some (.called op)
  | .called op, .effect op' => if op' = op then some .effected else none
  | .effected, .return => some .idle
  | _, _ => none

/-- How the steps of a system and those of an abstract one are seen by the threads. -/
structure Interface (ℓ κ ι ω : Type*) where
  thread : ℓ → ι
  /-- The step is the call of an operation, or the return from one. -/
  event : ℓ → Option (Event ω)
  /-- The thread and the operation of an effect. -/
  operation : κ → ι × ω

namespace Interface

variable [DecidableEq ι] [DecidableEq ω] (F : Interface ℓ κ ι ω)

/-- What a step is for a thread. -/
def events (i : ι) (e : ℓ × Option κ) : List (Event ω) :=
  (if F.thread e.1 = i then (F.event e.1).toList else []) ++
    match e.2 with
    | none => []
    | some k => if (F.operation k).1 = i then [.effect (F.operation k).2] else []

/-- Each operation that a thread has called had one effect before it returned, and `stage` is where
the threads are now. -/
def History (es : Effects ℓ κ) (stage : ι → Stage ω) : Prop :=
  ∀ i, (es.flatMap (F.events i)).foldlM Stage.next .idle = some (stage i)

variable {F} {es : Effects ℓ κ} {stage stage' : ι → Stage ω} {e : ℓ × Option κ}

theorem History.nil : F.History [] fun _ => .idle := fun _ => rfl

theorem History.concat (h : F.History es stage)
    (he : ∀ i, (F.events i e).foldlM Stage.next (stage i) = some (stage' i)) :
    F.History (es ++ [e]) stage' := by
  intro i
  rw [List.flatMap_append, List.foldlM_append, h i, List.flatMap_singleton]
  exact he i

end Interface

/-- **Linearization.**  When a step that has no effect changes nothing for the abstract system, an
effect is a step of it, and each thread goes through its operations in order, then every run comes
to a run of the abstract system with the same operations. -/
theorem Lts.Reach.linearizes [DecidableEq ι] [DecidableEq ω] {C : Lts σ ℓ} {A : Lts τ κ}
    {ok : σ → ℓ → Prop} {ok' : τ → κ → Prop} (F : Interface ℓ κ ι ω) (abs : σ → τ)
    (effect : σ → ℓ → Option κ) (stage : σ → ι → Stage ω) {I : σ → Prop}
    (h0 : ∀ s, C.init s → A.init (abs s) ∧ I s ∧ ∀ i, stage s i = .idle)
    (hstep : ∀ s l s', I s → ok s l → C.step s l = some s' →
      A.Moves ok' (abs s) (effect s l) (abs s') ∧ I s' ∧
        ∀ i, (F.events i (l, effect s l)).foldlM Stage.next (stage s i) = some (stage s' i))
    {ls : List ℓ} {s : σ} (h : C.Reach ok ls s) :
    ∃ es : Effects ℓ κ, es.map Prod.fst = ls ∧ A.Reach ok' (es.filterMap Prod.snd) (abs s) ∧
      F.History es (stage s) ∧ I s := by
  refine h.refines abs effect (I := fun es s => F.History es (stage s) ∧ I s) ?_ ?_
  · intro s hs
    obtain ⟨hinit, hI, hidle⟩ := h0 s hs
    refine ⟨hinit, ?_, hI⟩
    rw [show stage s = fun _ => .idle from funext hidle]
    exact .nil
  · rintro es s l s' ⟨hhistory, hI⟩ hok hs
    obtain ⟨hmoves, hI', hevents⟩ := hstep s l s' hI hok hs
    exact ⟨hmoves, hhistory.concat hevents, hI'⟩

end ThePipe.Lib
