import ThePipe.Log.Mutex

/-!
# The log does not get stuck

A thread waits for `log_mutex` at most until the thread that holds it has gone on, which it always
can by itself: a destructor that has waited still finds its context, whatever the other threads have
constructed and destroyed meanwhile, and the mutex is unlocked when an exception leaves the writer,
too.  Apart from what the writer does, an operation is over after six steps (`goes_on`).
-/

set_option autoImplicit false

namespace ThePipe.Log.Mutex

open Lib

variable {ω κ β : Type} {code : WriterCode ω κ β}

def Action.IsCall : Action κ → Prop
  | .call _ => True
  | _ => False

instance : DecidablePred (Action.IsCall (κ := κ))
  | .call _ => isTrue trivial
  | .lock | .save | .assignWriter | .assignGenerator | .now _ | .write | .resume _ | .unlock =>
    isFalse id

/-- A step of the writer. -/
def Action.IsResume : Action κ → Prop
  | .resume _ => True
  | _ => False

instance : DecidablePred (Action.IsResume (κ := κ))
  | .resume _ => isTrue trivial
  | .call _ | .lock | .save | .assignWriter | .assignGenerator | .now _ | .write | .unlock =>
    isFalse id

/-! ## How many steps are left -/

/-- The steps that are left of an operation at most, but for those of the writer. -/
def Pc.left : Pc ω → ℕ
  | .idle => 0
  | .waiting _ => 5
  | .saving _ _ => 4
  | .assigningWriter _ _ _ | .stamping _ _ => 3
  | .assigningGenerator _ _ _ | .handingOver _ => 2
  | .writing _ _ _ | .unlocking => 1

/-- The operations that a thread has called. -/
def calls (t : Thread) (ls : List (Label κ)) : ℕ :=
  ls.countP fun l => l.thread = t ∧ l.action.IsCall

/-- The steps that a thread has taken itself. -/
def ownSteps (t : Thread) (ls : List (Label κ)) : ℕ :=
  ls.countP fun l => l.thread = t ∧ ¬ l.action.IsResume

section Steps

variable {s s' : State ω κ β} {t : Thread}

@[simp] theorem pc_goto_self (pc : Pc ω) : (s.goto t pc).pc t = pc := Function.update_self ..

theorem left_of_locked {op : Operation} {pc : Pc ω} (h : s.locked t op = some pc) : pc.left ≤ 4 := by
  cases op with
  | create cfg =>
    cases h
    exact Nat.le_refl 4
  | destroy =>
    obtain ⟨c, -, rfl⟩ := Option.map_eq_some_iff.1 h
    exact Nat.le_refl 4
  | writeMessage severity message =>
    cases h
    exact Nat.le_succ 3

theorem left_ofProgress (object : ObjectPtr) (call : ℕ) (progress : Progress ω) :
    (Pc.ofProgress object call progress).left = 1 := by
  cases progress <;> rfl

/-- A step of a thread, but for its calls and the steps of the writer, leaves one step less. -/
theorem left_of_step {l : Label κ} (hs : Step code s l s') :
    (s'.pc l.thread).left + (if l.action.IsResume then 0 else 1) ≤
      (s.pc l.thread).left + (if l.action.IsCall then 6 else 0) := by
  cases hs with
  | @lock t op pc hpc hfree hlocked =>
    have hleft := left_of_locked hlocked
    rw [pc_goto_self, hpc]
    show pc.left + 1 ≤ 5 + 0
    omega
  | @resume t object call w answer piece progress hpc hresume =>
    rw [pc_goto_self, hpc, left_ofProgress]
    exact Nat.le_refl 1
  | call hpc | save hpc | assignWriter hpc | assignGenerator hpc | now hpc | writeNull hpc
  | write hpc | unlock hpc =>
    rw [pc_goto_self, hpc]
    simp [Pc.left, Action.IsResume, Action.IsCall]

theorem pc_of_ne {l : Label κ} (hs : Step code s l s') (ht : t ≠ l.thread) :
    s'.pc t = s.pc t := by
  cases hs <;> exact Function.update_of_ne ht ..

theorem ownSteps_of_step {ls : List (Label κ)} {l : Label κ} (hs : Step code s l s')
    (h : ownSteps t ls + (s.pc t).left ≤ 6 * calls t ls) :
    ownSteps t (ls ++ [l]) + (s'.pc t).left ≤ 6 * calls t (ls ++ [l]) := by
  rw [ownSteps, calls, List.countP_append, List.countP_append, ← ownSteps, ← calls,
    List.countP_singleton, List.countP_singleton]
  by_cases ht : l.thread = t
  · have hleft := left_of_step hs
    rw [ht] at hleft
    simp only [ht, true_and, decide_eq_true_eq]
    split at hleft <;> split at hleft <;> simp_all <;> omega
  · rw [pc_of_ne hs (Ne.symm ht)]
    simpa [ht] using h

end Steps

/-! ## Contexts that are waited for -/

/-- A thread that waits in order to destroy a context has one. -/
def State.KeepsContexts (s : State ω κ β) : Prop :=
  ∀ t, s.pc t = .waiting .destroy → (s.newest t).isSome

section Steps

variable {s s' : State ω κ β} {t : Thread}

theorem newest_of_ne {l : Label κ} (hs : Step code s l s') (ht : t ≠ l.thread)
    (h : (s.newest t).isSome) : (s'.newest t).isSome := by
  cases hs with
  | @assignGenerator t' caller cfg oldCfg hpc =>
    obtain ⟨c, hc, hthread⟩ := List.find?_isSome.1 h
    refine List.find?_isSome.2 ⟨c, ?_, hthread⟩
    cases caller with
    | constructor => exact List.mem_cons_of_mem _ hc
    | destructor =>
      -- the context that is destroyed is another one
      refine (List.mem_eraseP_of_neg ?_).2 hc
      simp only [decide_eq_true_eq] at hthread ⊢
      rw [hthread]
      exact ht
  | _ => exact h

theorem State.KeepsContexts.step (h : s.KeepsContexts) {l : Label κ} (hs : Step code s l s') :
    s'.KeepsContexts := by
  intro t hpc
  by_cases ht : t = l.thread
  · subst ht
    cases hs with
    | @call t op hidle hmay =>
      rw [pc_goto_self] at hpc
      cases hpc
      exact hmay rfl
    | lock hwait hfree hlocked =>
      rw [pc_goto_self] at hpc
      subst hpc
      have hholds := holds_of_locked hlocked
      exact hholds.elim
    | @resume t object call w answer piece progress hwriting hresume =>
      rw [pc_goto_self] at hpc
      cases progress <;> cases hpc
    | _ =>
      rw [pc_goto_self] at hpc
      cases hpc
  · rw [pc_of_ne hs ht] at hpc
    exact newest_of_ne hs ht (h t hpc)

theorem isSome_of_free (hcode : ∀ w, ∃ answer, (code.resume w answer).isSome)
    (h : s.KeepsContexts) (hidle : s.pc t ≠ .idle)
    (hmutex : s.logMutex = none ∨ (s.pc t).Holds) :
    ∃ action : Action κ, ¬ action.IsCall ∧ (step code s ⟨t, action⟩).isSome := by
  cases hpc : s.pc t with
  | idle => exact absurd hpc hidle
  | waiting op =>
    rw [hpc] at hmutex
    have hfree : s.logMutex = none := hmutex.resolve_right id
    refine ⟨.lock, id, ?_⟩
    cases op with
    | destroy => simpa [step, hpc, hfree, State.locked] using h t hpc
    | create cfg => simp [step, hpc, hfree, State.locked]
    | writeMessage severity message => simp [step, hpc, hfree, State.locked]
  | saving caller cfg => exact ⟨.save, id, by simp [step, hpc]⟩
  | assigningWriter caller cfg oldCfg => exact ⟨.assignWriter, id, by simp [step, hpc]⟩
  | assigningGenerator caller cfg oldCfg => exact ⟨.assignGenerator, id, by simp [step, hpc]⟩
  | stamping severity message => exact ⟨.now 0, id, by simp [step, hpc]⟩
  | handingOver item => exact ⟨.write, id, by simp [step, hpc]⟩
  | writing object call w =>
    obtain ⟨answer, hanswer⟩ := hcode w
    exact ⟨.resume answer, id, by simpa [step, hpc] using hanswer⟩
  | unlocking => exact ⟨.unlock, id, by simp [step, hpc]⟩

end Steps

/-- **The log does not get stuck**, when writers do not.  In every state of every run the thread that
holds the mutex is in an operation and can go on, and when the mutex is free every thread that waits
for it can lock it.  Each thread takes at most six steps for an operation, besides those of the
writer. -/
theorem goes_on {initial : Configuration} {ls : List (Label κ)} {s : State ω κ β}
    (hcode : ∀ w, ∃ answer, (code.resume w answer).isSome)
    (h : (threads code initial).Reach (fun _ _ => True) ls s) :
    (∀ t, s.logMutex = some t → s.pc t ≠ .idle) ∧
    (∀ t, s.pc t ≠ .idle → s.logMutex = none ∨ s.logMutex = some t →
      ∃ action : Action κ, ¬ action.IsCall ∧ (step code s ⟨t, action⟩).isSome) ∧
    (∀ t, ownSteps t ls ≤ 6 * calls t ls) := by
  obtain ⟨-, -, -, -, hinv⟩ := reach_effects (fun _ _ => True) (fun _ _ _ _ _ => trivial) h
  obtain ⟨hcontexts, hsteps⟩ : s.KeepsContexts ∧
      ∀ t, ownSteps t ls + (s.pc t).left ≤ 6 * calls t ls := by
    refine h.invariant (I := fun ls s => s.KeepsContexts ∧
      ∀ t, ownSteps t ls + (s.pc t).left ≤ 6 * calls t ls) ?_ ?_
    · rintro s rfl
      refine ⟨?_, fun t => Nat.le_refl 0⟩
      intro t hpc
      cases hpc
    · rintro ls s l s' - ⟨hcontexts, hsteps⟩ - hs
      have hstep := step_cases hs
      exact ⟨hcontexts.step hstep, fun t => ownSteps_of_step hstep (hsteps t)⟩
  refine ⟨?_, ?_, fun t => Nat.le_trans (Nat.le_add_right _ _) (hsteps t)⟩
  · intro t hmutex hidle
    have hholds := (hinv.exclusive t).2 hmutex
    rw [hidle] at hholds
    exact hholds
  · intro t hidle hmutex
    exact isSome_of_free hcode hcontexts hidle (hmutex.imp_right (hinv.exclusive t).2)

/-- The thread that is writing can go on; it has taken four steps. -/
theorem goes_on_twoThreads : ∃ s, (threads lines ⟨⟨none⟩, ⟨none⟩⟩).Reach (fun _ _ => True)
    twoThreads s ∧ ownSteps 1 twoThreads ≤ 6 * calls 1 twoThreads ∧
      ∃ action : Action Unit, ¬ action.IsCall ∧ (step lines s ⟨1, action⟩).isSome := by
  have hrun : ((threads lines ⟨⟨none⟩, ⟨none⟩⟩).run (fun _ _ => True) start twoThreads).map
      (fun s => s.logMutex) = some (some 1) := by decide
  obtain ⟨s, hs, hmutex⟩ := Lts.Reach.exists_of_map_run rfl hrun
  obtain ⟨hbusy, hgoes, hsteps⟩ := goes_on (fun w => ⟨(), by cases w <;> rfl⟩) hs
  exact ⟨s, hs, hsteps 1, hgoes 1 (hbusy 1 hmutex) (.inr hmutex)⟩

end ThePipe.Log.Mutex
