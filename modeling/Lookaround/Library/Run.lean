import Mathlib.Init
import Mathlib.Data.List.Infix

/-!
# Runs of a fallible step function

A state type `σ`, operations `α`, and `step s a`, which answers the next state or an error that ends the run.

* `run step s as` : the operations of `as` one after another from `s`;
* `EveryStep step P s as` : `P` holds of the state before each operation and of that operation, along the run;
* `run_induction` : an invariant that holds at the start and that every step with `P` keeps holds at the end, and no
  such step fails;
* `everyStep_of_prefixes` : what holds of the last step of every prefix holds of every step.
-/

namespace Library

/-- A computation answers when its first part does and the rest answers behind it. -/
theorem bind_eq_ok {α β ε : Type*} {x : Except ε α} {f : α → Except ε β} {b : β} :
    Except.bind x f = .ok b ↔ ∃ a, x = .ok a ∧ f a = .ok b := by
  cases x with
  | error e =>
      constructor
      · exact fun h => by cases h
      · rintro ⟨a, ha, -⟩
        cases ha
  | ok a =>
      constructor
      · exact fun h => ⟨a, rfl, h⟩
      · rintro ⟨_, ⟨⟩, h⟩
        exact h

variable {σ α ε : Type*} (step : σ → α → Except ε σ)

/-- The operations of a list, one after another. -/
def run (s : σ) : List α → Except ε σ
  | [] => .ok s
  | a :: as =>
    match step s a with
    | .ok s' => run s' as
    | .error e => .error e

/-- `P` holds of each operation and of the state it is applied to. -/
def EveryStep (P : σ → α → Prop) (s : σ) : List α → Prop
  | [] => True
  | a :: as => P s a ∧ ∀ s', step s a = .ok s' → EveryStep P s' as

variable {step} {P Q : σ → α → Prop} {s t : σ} {a : α} {as bs : List α}

theorem run_cons (h : step s a = .ok t) : run step s (a :: as) = run step t as := by
  rw [run, h]

/-- A run that answers: its first step does, and the rest behind it. -/
theorem run_cons_eq_ok : run step s (a :: as) = .ok t ↔ ∃ s', step s a = .ok s' ∧ run step s' as = .ok t := by
  rw [run]
  cases step s a with
  | error e => simp
  | ok s' => simp

theorem run_append_ok (h : run step s as = .ok t) : run step s (as ++ bs) = run step t bs := by
  induction as generalizing s with
  | nil =>
      cases h
      rfl
  | cons a as ih =>
      obtain ⟨s', hs, h⟩ := run_cons_eq_ok.mp h
      rw [List.cons_append, run_cons hs]
      exact ih h

theorem EveryStep.and (h : EveryStep step P s as) (h' : EveryStep step Q s as) :
    EveryStep step (fun s a => P s a ∧ Q s a) s as := by
  induction as generalizing s with
  | nil => trivial
  | cons a as ih => exact ⟨⟨h.1, h'.1⟩, fun s' hs => ih (h.2 s' hs) (h'.2 s' hs)⟩

/-- A condition on the operations alone holds at every step of every run of them. -/
theorem everyStep_of_forall {R : α → Prop} (h : ∀ a ∈ as, R a) : EveryStep step (fun _ => R) s as := by
  induction as generalizing s with
  | nil => trivial
  | cons a as ih =>
      exact ⟨h a List.mem_cons_self, fun s' _ => ih fun b hb => h b (List.mem_cons_of_mem a hb)⟩

theorem EveryStep.left (h : EveryStep step P s (as ++ bs)) : EveryStep step P s as := by
  induction as generalizing s with
  | nil => trivial
  | cons a as ih => exact ⟨h.1, fun s' hs => ih (h.2 s' hs)⟩

theorem everyStep_of_prefixes (h : ∀ pre a t, pre ++ [a] <+: as → run step s pre = .ok t → P t a) :
    EveryStep step P s as := by
  induction as generalizing s with
  | nil => trivial
  | cons a as ih =>
      refine ⟨h [] a s ⟨as, rfl⟩ rfl, fun s' hs => ih fun pre b t hp hr => ?_⟩
      refine h (a :: pre) b t ?_ (by rw [run_cons hs, hr])
      obtain ⟨c, hc⟩ := hp
      exact ⟨c, by rw [← hc]; rfl⟩

/-- **The invariant rule.** `I pre s` may mention the operations already done. -/
theorem run_induction {I : List α → σ → Prop} (h0 : I [] s) (hP : EveryStep step P s as)
    (hstep : ∀ pre s a, I pre s → P s a → ∃ s', step s a = .ok s' ∧ I (pre ++ [a]) s') :
    ∃ t, run step s as = .ok t ∧ I as t := by
  suffices h : ∀ (as pre : List α) (s : σ), I pre s → EveryStep step P s as →
      ∃ t, run step s as = .ok t ∧ I (pre ++ as) t from h as [] s h0 hP
  intro as
  induction as with
  | nil =>
      intro pre s hI _
      exact ⟨s, rfl, by rw [List.append_nil]; exact hI⟩
  | cons a as ih =>
      intro pre s hI hP
      obtain ⟨s', hs, hI'⟩ := hstep pre s a hI hP.1
      obtain ⟨t, ht, hIt⟩ := ih (pre ++ [a]) s' hI' (hP.2 s' hs)
      refine ⟨t, by rw [run_cons hs, ht], ?_⟩
      rw [List.append_assoc] at hIt
      exact hIt

/-- The invariant rule for runs that may fail: what every step that answers keeps holds at the end of a run that
answers, and an error is the error of a step taken in the invariant. -/
theorem run_cases {I : σ → Prop} {E : ε → Prop} (h0 : I s) (hok : ∀ s a s', I s → step s a = .ok s' → I s')
    (herr : ∀ s a e, I s → step s a = .error e → E e) :
    (∃ t, run step s as = .ok t ∧ I t) ∨ ∃ e, run step s as = .error e ∧ E e := by
  induction as generalizing s with
  | nil => exact Or.inl ⟨s, rfl, h0⟩
  | cons a as ih =>
      rw [run]
      cases hs : step s a with
      | error e => exact Or.inr ⟨e, rfl, herr s a e h0 hs⟩
      | ok s' => exact ih (hok s a s' h0 hs)

/-- What every step with `P` that answers keeps holds at the end of a run that answers. -/
theorem run_ok_induction {I : σ → Prop} (h0 : I s) (hP : EveryStep step P s as)
    (hok : ∀ s a s', I s → P s a → step s a = .ok s' → I s') (h : run step s as = .ok t) : I t := by
  induction as generalizing s with
  | nil =>
      cases h
      exact h0
  | cons a as ih =>
      obtain ⟨s', hs, h⟩ := run_cons_eq_ok.mp h
      exact ih (hok s a s' h0 hP.1 hs) (hP.2 s' hs) h

/-- The same, where the invariant mentions the operations already done. -/
theorem run_ok_history {I : List α → σ → Prop} (h0 : I [] s) (hP : EveryStep step P s as)
    (hok : ∀ pre s a s', I pre s → P s a → step s a = .ok s' → I (pre ++ [a]) s') (h : run step s as = .ok t) :
    I as t := by
  induction as generalizing s I with
  | nil =>
      cases h
      exact h0
  | cons a as ih =>
      obtain ⟨s', hs, h⟩ := run_cons_eq_ok.mp h
      apply @ih s' (fun pre => I (a :: pre)) (hok [] s a s' h0 hP.1 hs) (hP.2 s' hs) _ h
      intro pre
      exact hok (a :: pre)

/-- The same for runs that may fail: an error is the error of a step, for which `E` says why. -/
theorem run_cases_history {I : List α → σ → Prop} {E : α → ε → Prop} (as : List α) (h0 : I [] s)
    (hstep : ∀ pre s a, I pre s → (∃ s', step s a = .ok s' ∧ I (pre ++ [a]) s') ∨ ∃ e, step s a = .error e ∧ E a e) :
    (∃ t, run step s as = .ok t ∧ I as t) ∨ ∃ a ∈ as, ∃ e, run step s as = .error e ∧ E a e := by
  induction as generalizing s I with
  | nil => exact Or.inl ⟨s, rfl, h0⟩
  | cons a as ih =>
      rcases hstep [] s a h0 with ⟨s', hs, hI⟩ | ⟨e, hs, hE⟩
      · rw [run_cons hs]
        rcases @ih s' (fun pre => I (a :: pre)) hI fun pre => hstep (a :: pre) with hok | ⟨b, hb, herr⟩
        · exact Or.inl hok
        · exact Or.inr ⟨b, List.mem_cons_of_mem a hb, herr⟩
      · refine Or.inr ⟨a, List.mem_cons_self, e, ?_, hE⟩
        rw [run, hs]

end Library
