import Mathlib.Init
import Mathlib.Data.List.Infix

/-!
# Machines that answer

A machine takes a request and gives an answer: `step s a b s'` says that in the state `s` it may answer `b` to `a` and be
in `s'` afterwards.

* `Runs step s as bs t` : the requests `as` one after another from `s`, with the answers `bs`, end in `t`;
* `Runs.simulates` : a simulation carries over from steps to runs, with the same answers;
* `Runs.invariant` : so does an invariant.

The relation of a simulation may mention the requests already answered.
-/

namespace Library

variable {σ τ α β : Type*}

/-- The runs of a machine. -/
inductive Runs (step : σ → α → β → σ → Prop) : σ → List α → List β → σ → Prop
  | nil (s : σ) : Runs step s [] [] s
  | cons {s s' t : σ} {a : α} {b : β} {as : List α} {bs : List β} (h : step s a b s') (hs : Runs step s' as bs t) :
      Runs step s (a :: as) (b :: bs) t

namespace Runs

variable {step : σ → α → β → σ → Prop} {S : τ → α → β → τ → Prop} {s t : σ} {u : τ} {as : List α} {bs : List β}

/-- **The simulation rule.** What holds of the requests so far and the two states is kept by a step of the first machine
and some step of the second with the same answer. -/
theorem simulates {R : List α → σ → τ → Prop} (h : Runs step s as bs t) (h0 : R [] s u)
    (hstep : ∀ pre s u a b s', pre ++ [a] <+: as → R pre s u → step s a b s' →
      ∃ u', S u a b u' ∧ R (pre ++ [a]) s' u') :
    ∃ v, Runs S u as bs v ∧ R as t v := by
  suffices hpre : ∀ pre all, pre ++ as = all → (∀ pre s u a b s', pre ++ [a] <+: all → R pre s u → step s a b s' →
      ∃ u', S u a b u' ∧ R (pre ++ [a]) s' u') → R pre s u → ∃ v, Runs S u as bs v ∧ R all t v from
    hpre [] as rfl hstep h0
  clear h0 hstep
  induction h generalizing u with
  | nil s =>
      rintro pre all rfl - hR
      exact ⟨u, .nil u, by rwa [List.append_nil]⟩
  | @cons s s' t a b as bs h _ ih =>
      rintro pre all rfl hstep hR
      have hsplit : pre ++ [a] ++ as = pre ++ a :: as := by rw [List.append_assoc, List.singleton_append]
      obtain ⟨u', hu, hR'⟩ := hstep pre s u a b s' ⟨as, hsplit⟩ hR h
      obtain ⟨v, hv, hRv⟩ := ih _ _ hsplit hstep hR'
      exact ⟨v, .cons hu hv, hRv⟩

/-- The invariant rule. -/
theorem invariant {I : σ → Prop} (h : Runs step s as bs t) (h0 : I s)
    (hstep : ∀ s a b s', I s → step s a b s' → I s') : I t := by
  induction h with
  | nil s => exact h0
  | cons h _ ih => exact ih (hstep _ _ _ _ h0 h)

end Runs

end Library
