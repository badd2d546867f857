import Mathlib.Init
import Mathlib.Data.List.Nodup
import Mathlib.Data.List.Perm.Basic

/-!
# Pools of blocks

Memory that is handed out in blocks. The address of a block that was given back is not handed out again, so that a use of
a dead block shows.

* `Pool.load`, `Pool.alloc`, `Pool.store`, `Pool.free` : `none` is an access to an address without a block;
* `Owns h0 h l` : the blocks of `h` are those of `h0`, untouched, and the blocks `l`;
* `Owns.alloc`, `Owns.store`, `Owns.free` : how ownership moves, `Owns.nil` : nothing is left.
-/

namespace Library

/-- The blocks handed out so far; `none` is a block that was given back. -/
structure Pool (β : Type) where
  blocks : List (Option β)

/-- The address of a block. -/
abbrev Addr := Nat

namespace Pool

variable {β : Type} {h h' : Pool β} {a a' : Nat} {b : β}

/-- The block at an address. -/
def load (h : Pool β) (a : Addr) : Option β := (h.blocks[a]?).join

/-- A new block. -/
def alloc (h : Pool β) (b : β) : Addr × Pool β := (h.blocks.length, ⟨h.blocks ++ [some b]⟩)

/-- A write of a whole block. -/
def store (h : Pool β) (a : Addr) (b : β) : Option (Pool β) :=
  if (h.load a).isSome then some ⟨h.blocks.set a (some b)⟩ else none

/-- A block is given back. -/
def free (h : Pool β) (a : Addr) : Option (Pool β) :=
  if (h.load a).isSome then some ⟨h.blocks.set a none⟩ else none

theorem lt_of_load (hb : h.load a = some b) : a < h.blocks.length := by
  by_contra hlt
  rw [load, List.getElem?_eq_none (Nat.le_of_not_lt hlt)] at hb
  cases hb

theorem load_new (h : Pool β) : h.load h.blocks.length = none := by
  rw [load, List.getElem?_eq_none (Nat.le_refl _)]
  rfl

theorem load_alloc (h : Pool β) (b : β) (a : Nat) :
    (h.alloc b).2.load a = if a = h.blocks.length then some b else h.load a := by
  unfold load alloc
  by_cases ha : a < h.blocks.length
  · rw [List.getElem?_append_left ha, if_neg (Nat.ne_of_lt ha)]
  · rw [List.getElem?_append_right (Nat.le_of_not_lt ha), List.getElem?_eq_none (Nat.le_of_not_lt ha)]
    split_ifs with heq
    · rw [heq, Nat.sub_self]
      rfl
    · have hgt : 1 ≤ a - h.blocks.length := by omega
      rw [List.getElem?_eq_none hgt]

theorem load_set (hb : h.load a = some b) (c : Option β) (a' : Nat) :
    (Pool.mk (h.blocks.set a c)).load a' = if a' = a then c else h.load a' := by
  have hlt := lt_of_load hb
  unfold load
  rw [List.getElem?_set]
  by_cases ha : a = a'
  · rw [if_pos ha, if_pos hlt, if_pos ha.symm]
    rfl
  · rw [if_neg ha, if_neg (Ne.symm ha)]

/-- A store into a block of the pool. -/
theorem store_ok (hb : h.load a = some b) (c : β) :
    ∃ h', h.store a c = some h' ∧ ∀ a', h'.load a' = if a' = a then some c else h.load a' := by
  refine ⟨⟨h.blocks.set a (some c)⟩, ?_, load_set hb (some c)⟩
  rw [store, hb]
  rfl

/-- A block of the pool can be given back. -/
theorem free_ok (hb : h.load a = some b) :
    ∃ h', h.free a = some h' ∧ ∀ a', h'.load a' = if a' = a then none else h.load a' := by
  refine ⟨⟨h.blocks.set a none⟩, ?_, load_set hb none⟩
  rw [free, hb]
  rfl

/-! ## Ownership -/

/-- The pool `h` has the blocks `l`, and otherwise the blocks of `h0` as they were. -/
structure Owns (h0 h : Pool β) (l : List Addr) : Prop where
  nodup : l.Nodup
  live : ∀ a ∈ l, (h.load a).isSome = true
  fresh : ∀ a ∈ l, h0.load a = none
  frame : ∀ a, a ∉ l → h.load a = h0.load a

variable {h0 : Pool β} {l l' : List Nat}

theorem Owns.refl (h : Pool β) : Owns h h [] :=
  ⟨List.nodup_nil, fun _ ha => absurd ha List.not_mem_nil, fun _ ha => absurd ha List.not_mem_nil, fun _ _ => rfl⟩

theorem Owns.perm (ho : Owns h0 h l) (hp : l.Perm l') : Owns h0 h l' where
  nodup := hp.nodup_iff.mp ho.nodup
  live := fun a ha => ho.live a (hp.mem_iff.mpr ha)
  fresh := fun a ha => ho.fresh a (hp.mem_iff.mpr ha)
  frame := fun a ha => ho.frame a fun hl => ha (hp.mem_iff.mp hl)

/-- Nothing is owned: the pool is what it was. -/
theorem Owns.nil (ho : Owns h0 h []) (a : Nat) : h.load a = h0.load a := ho.frame a List.not_mem_nil

/-- A block of somebody else is as it was. -/
theorem Owns.keeps (ho : Owns h0 h l) (hb : h0.load a = some b) : h.load a = some b := by
  rw [ho.frame a, hb]
  intro hmem
  rw [ho.fresh a hmem] at hb
  cases hb

theorem Owns.new_not_mem (ho : Owns h0 h l) : h.blocks.length ∉ l := by
  intro hmem
  have hlive := ho.live _ hmem
  rw [load_new] at hlive
  cases hlive

theorem Owns.alloc (ho : Owns h0 h l) (b : β) : Owns h0 (h.alloc b).2 (h.blocks.length :: l) where
  nodup := List.nodup_cons.mpr ⟨ho.new_not_mem, ho.nodup⟩
  live := by
    intro a ha
    rw [load_alloc]
    split_ifs with heq
    · rfl
    · exact ho.live a ((List.mem_cons.mp ha).resolve_left heq)
  fresh := by
    intro a ha
    rcases List.mem_cons.mp ha with rfl | ha
    · rw [← ho.frame _ ho.new_not_mem, load_new]
    · exact ho.fresh a ha
  frame := by
    intro a ha
    rw [List.mem_cons, not_or] at ha
    rw [load_alloc, if_neg ha.1, ho.frame a ha.2]

/-- A write into an owned block. -/
theorem Owns.store {c : β} (ho : Owns h0 h l) (ha : a ∈ l)
    (hload : ∀ a', h'.load a' = if a' = a then some c else h.load a') : Owns h0 h' l where
  nodup := ho.nodup
  live := by
    intro a' ha'
    rw [hload]
    split_ifs
    · rfl
    · exact ho.live a' ha'
  fresh := ho.fresh
  frame := by
    intro a' ha'
    have hne : a' ≠ a := ne_of_mem_of_not_mem ha ha' |>.symm
    rw [hload, if_neg hne, ho.frame a' ha']

/-- An owned block is given back. -/
theorem Owns.free (ho : Owns h0 h (a :: l)) (hload : ∀ a', h'.load a' = if a' = a then none else h.load a') :
    Owns h0 h' l where
  nodup := ho.nodup.of_cons
  live := by
    intro a' ha'
    have hne : a' ≠ a := ne_of_mem_of_not_mem ha' (List.nodup_cons.mp ho.nodup).1
    rw [hload, if_neg hne]
    exact ho.live a' (List.mem_cons_of_mem a ha')
  fresh := fun a' ha' => ho.fresh a' (List.mem_cons_of_mem a ha')
  frame := by
    intro a' ha'
    rw [hload]
    split_ifs with heq
    · rw [heq, ho.fresh a List.mem_cons_self]
    · exact ho.frame a' (by rw [List.mem_cons, not_or]; exact ⟨heq, ha'⟩)

end Pool

end Library
