import Mathlib.Data.List.Basic

/-!
# Buffers of a fixed size

An array of `n` cells with accesses that are checked: `none` is an access outside the array.

* `Buffer α n`, `Buffer.replicate` : the array, and the one whose cells are all equal;
* `Buffer.get`, `Buffer.put` : a read and a write of one cell; `Buffer.putAll` : writes one behind the other;
* `put_append`, `putAll_eq_some` : writes that stay inside, `putAll_append` : writes in two parts;
* `isSome_putAll_iff` : writes stay inside exactly when the last one does.
-/

namespace Library

/-- An array of `n` cells. -/
structure Buffer (α : Type) (n : Nat) where
  cells : List α
  size : cells.length = n

namespace Buffer

variable {α : Type} {n i : Nat}

@[ext] theorem ext {b b' : Buffer α n} (h : b.cells = b'.cells) : b = b' := by
  cases b
  cases b'
  cases h
  rfl

/-- All cells equal. -/
def replicate (n : Nat) (a : α) : Buffer α n where
  cells := List.replicate n a
  size := List.length_replicate

/-- A read. -/
def get (b : Buffer α n) (i : Nat) : Option α := b.cells[i]?

/-- A write. -/
def put (b : Buffer α n) (i : Nat) (a : α) : Option (Buffer α n) :=
  if i < n then some { cells := b.cells.set i a, size := by rw [List.length_set, b.size] } else none

/-- Writes from the cell `i` on. -/
def putAll (b : Buffer α n) (i : Nat) : List α → Option (Buffer α n)
  | [] => some b
  | a :: l => (b.put i a).bind fun b => b.putAll (i + 1) l

theorem put_eq_some {b : Buffer α n} (h : i < n) (a : α) :
    ∃ b', b.put i a = some b' ∧ b'.cells = b.cells.set i a :=
  ⟨_, if_pos h, rfl⟩

theorem put_eq_none (b : Buffer α n) (h : n ≤ i) (a : α) : b.put i a = none := if_neg (Nat.not_lt.mpr h)

theorem putAll_singleton (b : Buffer α n) (i : Nat) (a : α) : b.putAll i [a] = b.put i a := by
  rw [putAll]
  cases b.put i a <;> rfl

theorem putAll_append (b : Buffer α n) (i : Nat) (l l' : List α) :
    b.putAll i (l ++ l') = (b.putAll i l).bind fun b => b.putAll (i + l.length) l' := by
  induction l generalizing b i with
  | nil => rfl
  | cons a l ih =>
      rw [List.cons_append, putAll, putAll, List.length_cons]
      cases b.put i a with
      | none => rfl
      | some b' =>
          rw [Option.bind_some, Option.bind_some, ih, Nat.add_right_comm, Nat.add_assoc]

/-- A write behind `front` replaces the cell there. -/
theorem put_append {b : Buffer α n} {front rest : List α} {r : α} (hb : b.cells = front ++ r :: rest) (a : α) :
    ∃ b', b.put front.length a = some b' ∧ b'.cells = front ++ a :: rest := by
  have hlt : front.length < n := by
    rw [← b.size, hb, List.length_append, List.length_cons]
    omega
  obtain ⟨b', hb', hcells⟩ := put_eq_some (b := b) hlt a
  refine ⟨b', hb', ?_⟩
  rw [hcells, hb, List.set_append_right _ _ (Nat.le_refl _), Nat.sub_self, List.set_cons_zero]

/-- Writes behind `front` replace as many cells of the rest. -/
theorem putAll_eq_some {b : Buffer α n} {front rest : List α} (hb : b.cells = front ++ rest) {l : List α}
    (hl : l.length ≤ rest.length) :
    ∃ b', b.putAll front.length l = some b' ∧ b'.cells = front ++ l ++ rest.drop l.length := by
  induction l generalizing b front rest with
  | nil => exact ⟨b, rfl, by simpa using hb⟩
  | cons a l ih =>
      cases rest with
      | nil => exact absurd hl (by simp)
      | cons r rest =>
          obtain ⟨b1, hb1, hcells⟩ := put_append hb a
          have hfront : b1.cells = (front ++ [a]) ++ rest := by rw [hcells, List.append_cons]
          obtain ⟨b2, hb2, hcells2⟩ := ih hfront (by simpa using hl)
          refine ⟨b2, ?_, ?_⟩
          · rw [putAll, hb1, Option.bind_some]
            rwa [List.length_append] at hb2
          · rw [hcells2]
            simp

/-- Writes from the start. -/
theorem putAll_zero {b : Buffer α n} {l : List α} (h : l.length ≤ n) :
    ∃ b', b.putAll 0 l = some b' ∧ b'.cells = l ++ b.cells.drop l.length := by
  have hlen : l.length ≤ b.cells.length := by rw [b.size]; exact h
  have hfront : b.cells = [] ++ b.cells := rfl
  obtain ⟨b', hb', hcells⟩ := putAll_eq_some hfront hlen
  exact ⟨b', hb', by rw [hcells, List.nil_append]⟩

theorem putAll_eq_none (b : Buffer α n) {l : List α} (hl : l ≠ []) (h : n < i + l.length) : b.putAll i l = none := by
  induction l generalizing b i with
  | nil => exact absurd rfl hl
  | cons a l ih =>
      rw [putAll]
      cases hb : b.put i a with
      | none => rfl
      | some b' =>
          have hi : i < n := by
            by_contra hge
            rw [put_eq_none b (Nat.not_lt.mp hge)] at hb
            cases hb
          rw [List.length_cons] at h
          refine ih b' ?_ (by omega)
          rintro rfl
          rw [List.length_nil] at h
          omega

/-- A text with its terminator stays inside exactly when there is room for both. -/
theorem isSome_putAll_iff (b : Buffer α n) {l : List α} (hl : l ≠ []) : (b.putAll 0 l).isSome = true ↔ l.length ≤ n := by
  constructor
  · intro h
    by_contra hlt
    rw [putAll_eq_none b hl (by omega)] at h
    cases h
  · intro h
    obtain ⟨b', hb', -⟩ := putAll_zero (b := b) h
    rw [hb']
    rfl

end Buffer

end Library
