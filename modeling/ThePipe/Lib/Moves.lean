import Mathlib.Data.List.Induction
import Mathlib.Data.List.Nodup
import Mathlib.Logic.Function.Basic

/-!
# Moves one after the other, and all at once

A move copies the value of a source to a target.  Moves that are made one after the other come to
the same as moves made all at once when none of them changes the value of a later source
(`movedAtOnce_iff`).
-/

set_option autoImplicit false

namespace ThePipe.Lib

variable {κ ν : Type*} {f : κ → ν} {moves : List (κ × κ)}

theorem nodup_targets_concat {m : κ × κ} (h : ((moves ++ [m]).map Prod.snd).Nodup) :
    (moves.map Prod.snd).Nodup ∧ ∀ m' ∈ moves, m'.2 ≠ m.2 := by
  rw [List.map_append, List.nodup_append] at h
  refine ⟨h.1, ?_⟩
  intro m' hm'
  exact h.2.2 m'.2 (List.mem_map_of_mem hm') m.2 (by simp)

variable [DecidableEq κ]

/-- The values after the moves, each from a source to a target, have been made in this order. -/
def moveAll (f : κ → ν) (moves : List (κ × κ)) : κ → ν :=
  moves.foldl (fun f m => Function.update f m.2 (f m.1)) f

/-- Every target has the value that its source had before the moves. -/
def MovedAtOnce (f : κ → ν) (moves : List (κ × κ)) : Prop :=
  ∀ m ∈ moves, moveAll f moves m.2 = f m.1

theorem moveAll_concat (f : κ → ν) (moves : List (κ × κ)) (m : κ × κ) :
    moveAll f (moves ++ [m]) =
      Function.update (moveAll f moves) m.2 (moveAll f moves m.1) := by
  simp [moveAll]

theorem moveAll_of_notMem {k : κ} (hk : k ∉ moves.map Prod.snd) : moveAll f moves k = f k := by
  induction moves using List.reverseRecOn with
  | nil => rfl
  | append_singleton moves m ih =>
    simp only [List.map_append, List.mem_append, not_or] at hk
    have hne : k ≠ m.2 := by
      intro heq
      apply hk.2
      simp [heq]
    rw [moveAll_concat, Function.update_of_ne hne]
    exact ih hk.1

theorem movedAtOnce_concat {m : κ × κ} (h : ((moves ++ [m]).map Prod.snd).Nodup) :
    MovedAtOnce f (moves ++ [m]) ↔ MovedAtOnce f moves ∧ moveAll f moves m.1 = f m.1 := by
  obtain ⟨-, hne⟩ := nodup_targets_concat h
  unfold MovedAtOnce
  rw [moveAll_concat]
  constructor
  · intro hall
    refine ⟨?_, ?_⟩
    · intro m' hm'
      have hm := hall m' (by simp [hm'])
      rwa [Function.update_of_ne (hne m' hm')] at hm
    · have hm := hall m (by simp)
      rwa [Function.update_self] at hm
  · rintro ⟨hall, hlast⟩ m' hm'
    rcases List.mem_append.1 hm' with hm' | hm'
    · rw [Function.update_of_ne (hne m' hm')]
      exact hall m' hm'
    · obtain rfl := List.mem_singleton.1 hm'
      rw [Function.update_self]
      exact hlast

/-- **When the order does not matter**: the moves give every target what its source had before,
exactly when a source that is the target of an earlier move had the value already that the move
gives it. -/
theorem movedAtOnce_iff (h : (moves.map Prod.snd).Nodup) :
    MovedAtOnce f moves ↔ moves.Pairwise fun m m' => m'.1 = m.2 → f m.1 = f m.2 := by
  induction moves using List.reverseRecOn with
  | nil => simp [MovedAtOnce]
  | append_singleton moves m ih =>
    obtain ⟨hnodup, -⟩ := nodup_targets_concat h
    rw [movedAtOnce_concat h, ih hnodup, List.pairwise_append]
    simp only [List.pairwise_singleton, List.mem_singleton, forall_eq, true_and]
    refine and_congr_right fun hpairwise => ?_
    have hmoved : MovedAtOnce f moves := (ih hnodup).2 hpairwise
    constructor
    · intro hlast m' hm' heq
      rw [← hmoved m' hm', ← heq, hlast]
    · intro hall
      by_cases hk : m.1 ∈ moves.map Prod.snd
      · obtain ⟨m', hm', heq⟩ := List.mem_map.1 hk
        rw [← heq, hmoved m' hm']
        exact hall m' hm' heq.symm
      · exact moveAll_of_notMem hk

end ThePipe.Lib
