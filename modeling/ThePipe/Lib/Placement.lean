import Mathlib.Data.List.Forall2
import Mathlib.Order.Bounds.Basic

/-!
# Items placed one after the other

Items are placed in a given order along a line.  An item may only stand at certain positions, and
it stands in the way of the next one up to its stop.  Putting every item at the first position it
may stand at is a placement (`placed_greedy`), and no placement puts any item earlier or ends
earlier (`greedy_le`).  For that it must not help to start an item later (`Monotone`).
-/

set_option autoImplicit false

namespace ThePipe.Lib.Placement

variable {ι α : Type*} {admissible : ι → Set α} {next stop : ι → α → α}

/-- From `x` on, the items are at these positions, and the last one stops at `e` or before. -/
inductive Placed [Preorder α] (admissible : ι → Set α) (stop : ι → α → α) :
    α → List ι → List α → α → Prop
  | nil {x e : α} : x ≤ e → Placed admissible stop x [] [] e
  | cons {x p e : α} {i : ι} {items : List ι} {positions : List α} : x ≤ p → p ∈ admissible i →
      Placed admissible stop (stop i p) items positions e →
      Placed admissible stop x (i :: items) (p :: positions) e

/-- Every item at the next position it may stand at, and where the last one stops. -/
def greedy (next stop : ι → α → α) (x : α) : List ι → List α × α
  | [] => ([], x)
  | i :: items =>
    let rest := greedy next stop (stop i (next i x)) items
    (next i x :: rest.1, rest.2)

@[simp]
theorem greedy_cons (x : α) (i : ι) (items : List ι) :
    greedy next stop x (i :: items) =
      (next i x :: (greedy next stop (stop i (next i x)) items).1,
        (greedy next stop (stop i (next i x)) items).2) := rfl

variable [Preorder α]

theorem le_snd_greedy (hstop : ∀ i x, x ≤ stop i x) {items : List ι}
    (hnext : ∀ i ∈ items, ∀ x, x ≤ next i x) (x : α) : x ≤ (greedy next stop x items).2 := by
  induction items generalizing x with
  | nil => exact le_rfl
  | cons i items ih =>
    have hi := hnext i List.mem_cons_self x
    have hrest := ih (fun j hj => hnext j (List.mem_cons_of_mem _ hj)) (stop i (next i x))
    exact (hi.trans (hstop i _)).trans hrest

theorem Placed.forall₂ {x e : α} {items : List ι} {positions : List α}
    (h : Placed admissible stop x items positions e) :
    List.Forall₂ (fun i p => p ∈ admissible i) items positions := by
  induction h with
  | nil => exact .nil
  | cons _ hp _ ih => exact .cons hp ih

theorem Placed.mono {x e e' : α} {items : List ι} {positions : List α}
    (h : Placed admissible stop x items positions e) (he : e ≤ e') :
    Placed admissible stop x items positions e' := by
  induction h with
  | nil hx => exact .nil (hx.trans he)
  | cons hx hp _ ih => exact .cons hx hp (ih he)

variable {items : List ι}
  (hnext : ∀ i ∈ items, ∀ x, IsLeast {p | p ∈ admissible i ∧ x ≤ p} (next i x))
include hnext

theorem placed_greedy (x : α) :
    Placed admissible stop x items (greedy next stop x items).1 (greedy next stop x items).2 := by
  induction items generalizing x with
  | nil => exact .nil le_rfl
  | cons i items ih =>
    obtain ⟨hmem, hle⟩ := (hnext i List.mem_cons_self x).1
    exact .cons hle hmem (ih (fun j hj => hnext j (List.mem_cons_of_mem _ hj)) _)

/-- **The greedy placement is the least one**, also among those that start later. -/
theorem greedy_le (hmono : ∀ i, Monotone (stop i)) {x y e : α} {positions : List α}
    (hxy : x ≤ y) (h : Placed admissible stop y items positions e) :
    List.Forall₂ (· ≤ ·) (greedy next stop x items).1 positions ∧
      (greedy next stop x items).2 ≤ e := by
  induction h generalizing x with
  | nil hye => exact ⟨.nil, hxy.trans hye⟩
  | @cons y p e i items positions hyp hp _ ih =>
    have hfirst : next i x ≤ p := (hnext i List.mem_cons_self x).2 ⟨hp, hxy.trans hyp⟩
    obtain ⟨hpos, hend⟩ := ih (fun j hj => hnext j (List.mem_cons_of_mem _ hj)) (hmono i hfirst)
    exact ⟨.cons hfirst hpos, hend⟩

end ThePipe.Lib.Placement
