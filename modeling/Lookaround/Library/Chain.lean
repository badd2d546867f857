import Mathlib.Data.List.Nodup
import Mathlib.Logic.Function.Basic

/-!
# Linked chains over a successor function

Cells of a type `α`, each with at most one successor `next a`; `none` is the null pointer.

* `Chain next p l` : following `next` from `p` visits exactly the cells of `l` and ends at `none`;
* `Reaches next p a` : the walk from `p` meets `a`;
* `Chain.push` : a cell that the chain does not meet goes in front of it;
* `Chain.redirect` : making the successor of `a` the head of a chain that does not meet `a` keeps every chain finite;
* `Chain.remove` : a cell is taken out of a chain by leading what led to it to its successor;
* `not_chain_of_reaches` : making it the head of a chain that does meet `a` closes a cycle;
* `Back prev q l` : the predecessors along `l` lead back to `q`; `Back.push` : they do after a push.
-/

namespace Library

variable {α : Type*} {next next' : α → Option α} {p : Option α} {a b : α} {l l' : List α}

/-- Following `next` from `p` visits exactly `l`, then ends. -/
inductive Chain (next : α → Option α) : Option α → List α → Prop
  | nil : Chain next none []
  | cons {a : α} {l : List α} : Chain next (next a) l → Chain next (some a) (a :: l)

/-- The walk from `p` meets `a`. -/
inductive Reaches (next : α → Option α) (a : α) : Option α → Prop
  | here : Reaches next a (some a)
  | step {b : α} : Reaches next a (next b) → Reaches next a (some b)

namespace Chain

theorem none_iff : Chain next none l ↔ l = [] := by
  constructor
  · intro h
    cases h
    rfl
  · rintro rfl
    exact .nil

theorem unique (h : Chain next p l) (h' : Chain next p l') : l = l' := by
  induction h generalizing l' with
  | nil => exact (none_iff.mp h').symm
  | cons _ ih =>
      cases h' with
      | cons h' => rw [ih h']

theorem mem_iff_reaches (h : Chain next p l) : a ∈ l ↔ Reaches next a p := by
  induction h with
  | nil =>
      refine ⟨fun h => absurd h List.not_mem_nil, fun h => ?_⟩
      cases h
  | @cons b l _ ih =>
      rw [List.mem_cons, ih]
      constructor
      · rintro (rfl | h)
        · exact .here
        · exact .step h
      · intro h
        cases h with
        | here => exact Or.inl rfl
        | step h => exact Or.inr h

/-- The part of a chain behind a cell it meets is the chain of that cell. -/
theorem suffix (h : Chain next p l) (ha : a ∈ l) : ∃ pre l', l = pre ++ a :: l' ∧ Chain next (some a) (a :: l') := by
  induction h with
  | nil => exact absurd ha List.not_mem_nil
  | @cons b l h ih =>
      rcases List.mem_cons.mp ha with rfl | ha
      · exact ⟨[], l, rfl, .cons h⟩
      · obtain ⟨pre, l', hl, hc⟩ := ih ha
        exact ⟨b :: pre, l', by rw [hl, List.cons_append], hc⟩

/-- A chain that ends meets no cell twice. -/
theorem nodup (h : Chain next p l) : l.Nodup := by
  induction h with
  | nil => exact List.nodup_nil
  | @cons a l h ih =>
      refine List.nodup_cons.mpr ⟨fun ha => ?_, ih⟩
      obtain ⟨pre, l', hl, hc⟩ := h.suffix ha
      have hlen := congrArg List.length ((Chain.cons h).unique hc)
      rw [hl] at hlen
      simp only [List.length_cons, List.length_append] at hlen
      omega

/-- Successors of cells off the chain do not matter. -/
theorem congr (h : Chain next p l) (he : ∀ b ∈ l, next' b = next b) : Chain next' p l := by
  induction h with
  | nil => exact .nil
  | @cons a l _ ih =>
      refine .cons ?_
      rw [he a List.mem_cons_self]
      exact ih fun b hb => he b (List.mem_cons_of_mem a hb)

theorem push [DecidableEq α] (h : Chain next p l) (ha : a ∉ l) :
    Chain (Function.update next a p) (some a) (a :: l) := by
  refine .cons ?_
  rw [Function.update_self]
  refine h.congr fun b hb => Function.update_of_ne ?_ _ _
  rintro rfl
  exact ha hb

/-- Every chain stays finite when the successor of `a` becomes the head of a chain that does not meet `a`. -/
theorem redirect [DecidableEq α] {q : Option α} {m : List α} (h : Chain next p l) (hq : Chain next q m) (ha : a ∉ m) :
    ∃ l', Chain (Function.update next a q) p l' := by
  induction h with
  | nil => exact ⟨[], .nil⟩
  | @cons b l _ ih =>
      by_cases hba : b = a
      · subst hba
        exact ⟨b :: m, hq.push ha⟩
      · obtain ⟨l', hl'⟩ := ih
        refine ⟨b :: l', .cons ?_⟩
        rw [Function.update_of_ne hba]
        exact hl'

/-- Taking `a` out of a chain: what led to `a` leads to its successor. -/
theorem remove [DecidableEq α] (h : Chain next p l) (hnext : ∀ b, next' b =
    if b = a then none else if next b = some a then next a else next b) :
    Chain next' (if p = some a then next a else p) (l.filter (· ≠ a)) := by
  induction h with
  | nil => exact .nil
  | @cons b l h ih =>
      by_cases hba : b = a
      · subst hba
        have hself : next b ≠ some b := by
          intro hb
          have hnd := (Chain.cons h).nodup
          rw [hb] at h
          exact (List.nodup_cons.mp hnd).1 (h.mem_iff_reaches.mpr .here)
        rw [if_neg hself] at ih
        rw [if_pos rfl, List.filter_cons_of_neg (by simp)]
        exact ih
      · rw [if_neg (fun hb => hba (Option.some.inj hb)), List.filter_cons_of_pos (by simpa using hba)]
        refine .cons ?_
        rw [hnext, if_neg hba]
        exact ih

end Chain

/-- The walk goes on behind a cell it meets. -/
theorem Reaches.follow (h : Reaches next a p) (hb : next a = some b) : Reaches next b p := by
  induction h with
  | here =>
      apply Reaches.step
      rw [hb]
      exact .here
  | step _ ih => exact .step ih

/-- The walk up to `a` does not use the successor of `a`. -/
theorem Reaches.update [DecidableEq α] {q : Option α} (h : Reaches next a p) :
    Reaches (Function.update next a q) a p := by
  induction h with
  | here => exact .here
  | @step b _ ih =>
      by_cases hba : b = a
      · subst hba
        exact .here
      · refine .step ?_
        rw [Function.update_of_ne hba]
        exact ih

/-- After a push the walk from the new head meets the new cell and what it met before. -/
theorem Chain.reaches_push [DecidableEq α] (h : Chain next p l) (ha : a ∉ l) :
    Reaches (Function.update next a p) b (some a) ↔ b = a ∨ Reaches next b p := by
  rw [← (h.push ha).mem_iff_reaches, List.mem_cons, h.mem_iff_reaches]

/-- A walk that does not meet `a` does not use the successor of `a`. -/
theorem Chain.update [DecidableEq α] {q : Option α} (h : Chain next p l) (ha : a ∉ l) :
    Chain (Function.update next a q) p l := by
  refine h.congr fun b hb => Function.update_of_ne ?_ _ _
  rintro rfl
  exact ha hb

/-- A cell put in front of a walk that meets it is on a cycle. -/
theorem not_chain_of_reaches [DecidableEq α] (h : Reaches next a p) :
    ¬ Chain (Function.update next a p) (some a) l := by
  intro hc
  have hnd := hc.nodup
  cases hc with
  | @cons _ m hm =>
      rw [Function.update_self] at hm
      exact (List.nodup_cons.mp hnd).1 (hm.mem_iff_reaches.mpr h.update)

/-! ## Predecessors -/

variable {prev prev' : α → Option α} {q : Option α}

/-- The predecessors along `l` are the cells in front of them, and the first one's is `q`. -/
def Back (prev : α → Option α) : Option α → List α → Prop
  | _, [] => True
  | q, a :: l => prev a = q ∧ Back prev (some a) l

/-- The predecessors after `a` was put in front of a chain from `p`. -/
def pushPrev [DecidableEq α] (prev : α → Option α) (p : Option α) (a : α) : α → Option α :=
  match p with
  | none => Function.update prev a none
  | some b => Function.update (Function.update prev a none) b (some a)

theorem pushPrev_of_ne [DecidableEq α] (hb : b ≠ a) (hp : p ≠ some b) : pushPrev prev p a b = prev b := by
  cases p with
  | none => exact Function.update_of_ne hb _ _
  | some c =>
      have hbc : b ≠ c := fun he => hp (by rw [he])
      rw [pushPrev, Function.update_of_ne hbc, Function.update_of_ne hb]

namespace Back

theorem congr (h : Back prev q l) (he : ∀ b ∈ l, prev' b = prev b) : Back prev' q l := by
  induction l generalizing q with
  | nil => trivial
  | cons a l ih =>
      refine ⟨(he a List.mem_cons_self).trans h.1, ih h.2 fun b hb => he b (List.mem_cons_of_mem a hb)⟩

/-- The predecessors of a chain that meets neither `a` nor the old head stay. -/
theorem push_other [DecidableEq α] (h : Back prev q l) (ha : a ∉ l) (hp : ∀ b, p = some b → b ∉ l) :
    Back (pushPrev prev p a) q l := by
  refine h.congr fun b hb => pushPrev_of_ne ?_ fun he => hp b he hb
  rintro rfl
  exact ha hb

theorem push [DecidableEq α] (hc : Chain next p l) (h : Back prev none l) (ha : a ∉ l) :
    Back (pushPrev prev p a) none (a :: l) := by
  cases hc with
  | nil => exact ⟨Function.update_self _ _ _, trivial⟩
  | @cons b l hc =>
      rw [List.mem_cons, not_or] at ha
      obtain ⟨hab, hal⟩ := ha
      have hb := (List.nodup_cons.mp (Chain.cons hc).nodup).1
      refine ⟨?_, ?_, ?_⟩
      · rw [pushPrev, Function.update_of_ne hab, Function.update_self]
      · rw [pushPrev, Function.update_self]
      · refine h.2.push_other hal fun c hc' => ?_
        cases hc'
        exact hb

end Back

end Library
