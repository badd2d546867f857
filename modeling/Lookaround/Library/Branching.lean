import Mathlib.Algebra.Order.BigOperators.Group.Finset
import Mathlib.Algebra.Ring.GeomSum

/-!
# Trees with a bounded number of children

Nodes of any type, with a level and the set of children of each one. At most one node has level 0, and every other node
is a child of a node one level up. Then the number of nodes is bounded by the number of children and the depth alone.

* `card_level_le` : the nodes of one level;
* `card_tree_le` : all nodes of a tree of bounded depth, in closed form.
-/

namespace Library

open Finset

variable {α : Type*} [DecidableEq α] {S : Finset α} {level : α → Nat} {child : α → Finset α} {b : Nat}

/-- The nodes of a level are children of the nodes of the level above. -/
theorem card_level_le (hroot : #{p ∈ S | level p = 0} ≤ 1)
    (hparent : ∀ p ∈ S, 0 < level p → ∃ q ∈ S, level p = level q + 1 ∧ p ∈ child q) (hchild : ∀ q, #(child q) ≤ b)
    (n : Nat) : #{p ∈ S | level p = n} ≤ b ^ n := by
  induction n with
  | zero =>
      rw [pow_zero]
      exact hroot
  | succ n ih =>
      have hsub : {p ∈ S | level p = n + 1} ⊆ ({p ∈ S | level p = n} : Finset α).biUnion child := by
        intro p hp
        simp only [mem_filter] at hp
        obtain ⟨q, hq, hlev, hmem⟩ := hparent p hp.1 (by omega)
        simp only [mem_biUnion, mem_filter]
        exact ⟨q, ⟨hq, by omega⟩, hmem⟩
      calc #{p ∈ S | level p = n + 1}
          ≤ #(({p ∈ S | level p = n} : Finset α).biUnion child) := card_le_card hsub
        _ ≤ #{p ∈ S | level p = n} * b := card_biUnion_le_card_mul _ _ _ fun q _ => hchild q
        _ ≤ b ^ n * b := Nat.mul_le_mul_right b ih
        _ = b ^ (n + 1) := (pow_succ b n).symm

/-- A tree in which no level is below `L`, with `b + 1` children for each node. -/
theorem card_tree_le {L : Nat} (hroot : #{p ∈ S | level p = 0} ≤ 1)
    (hparent : ∀ p ∈ S, 0 < level p → ∃ q ∈ S, level p = level q + 1 ∧ p ∈ child q)
    (hchild : ∀ q, #(child q) ≤ b + 1) (hL : ∀ p ∈ S, level p ≤ L) : #S * b + 1 ≤ (b + 1) ^ (L + 1) := by
  have hcover : S ⊆ (range (L + 1)).biUnion fun n => {p ∈ S | level p = n} := by
    intro p hp
    simp only [mem_biUnion, mem_range, mem_filter]
    exact ⟨level p, Nat.lt_succ_of_le (hL p hp), hp, rfl⟩
  have hcard : #S ≤ ∑ n ∈ range (L + 1), (b + 1) ^ n :=
    calc #S ≤ #((range (L + 1)).biUnion fun n => {p ∈ S | level p = n}) := card_le_card hcover
      _ ≤ ∑ n ∈ range (L + 1), #{p ∈ S | level p = n} := card_biUnion_le
      _ ≤ ∑ n ∈ range (L + 1), (b + 1) ^ n := sum_le_sum fun n _ => card_level_le hroot hparent hchild n
  calc #S * b + 1 ≤ (∑ n ∈ range (L + 1), (b + 1) ^ n) * b + 1 := Nat.add_le_add_right (Nat.mul_le_mul_right b hcard) 1
    _ = (b + 1) ^ (L + 1) := geom_sum_mul_add b (L + 1)

end Library
