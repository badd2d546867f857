import Mathlib.Init
import Mathlib.Data.List.Infix

/-!
# Interleaved processes

Processes with tasks before them work on shared data: `moves a s p s' o` says that a process in the phase `p` of the task
`a` may change the shared data from `s` to `s'` and go on in the phase `o`, or end the task when `o` is `none`.

* `Net.Step`, `Net.Reach` : the steps of one process, and what the runs reach whose every step meets a condition;
* `Net.Solo` : steps of one process alone;
* `Net.Reach.invariant`, `Net.Reach.simulates` : the invariant rule, and the simulation rule with steps that stand still.

A phase may be a section that a process runs in small steps: `micro c s` is the shared data after the step at `c`, and
where the section goes on, or `none` at its end.

* `Rest micro o s t` : the steps that are left at `o`, one behind the other, take `s` to `t`;
* `Rest.step`, `Rest.unique` : the end stays the same along the steps, and there is only one;
* `Rest.map` : what commutes with each step commutes with the rest of the section;
* `Rest.relates` : what each step keeps the rest keeps.
-/

namespace Library

variable {σ τ φ ψ ι κ ε : Type*}

/-! ## Processes -/

/-- A process: its phase in the first task of `todo`, and the tasks it still has to do. -/
structure Proc (φ ι : Type*) where
  phase : φ
  todo : List ι

/-- The process after a step of its first task. -/
def Proc.after (idle : φ) (w : Proc φ ι) : Option φ → Proc φ ι
  | some phase => { w with phase := phase }
  | none => { phase := idle, todo := w.todo.tail }

theorem Proc.mem_todo_after {idle : φ} {w : Proc φ ι} {o : Option φ} {a : ι} (h : a ∈ (w.after idle o).todo) :
    a ∈ w.todo := by
  cases o with
  | none => exact List.mem_of_mem_tail h
  | some phase => exact h

/-- The same tasks in another phase. -/
def Proc.mapPhase (f : φ → ψ) (w : Proc φ ι) : Proc ψ ι where
  phase := f w.phase
  todo := w.todo

theorem Proc.mapPhase_after (f : φ → ψ) (idle : φ) (w : Proc φ ι) (o : Option φ) :
    (w.after idle o).mapPhase f = (w.mapPhase f).after (f idle) (o.map f) := by
  cases o <;> rfl

structure Net (σ φ ι : Type*) where
  shared : σ
  procs : List (Proc φ ι)

/-- All processes before their first task. -/
def Net.start (idle : φ) (s : σ) (todos : List (List ι)) : Net σ φ ι where
  shared := s
  procs := todos.map fun todo => { phase := idle, todo := todo }

/-- A step of the process `i`. -/
inductive Net.Step (idle : φ) (moves : ι → σ → φ → σ → Option φ → Prop) (i : Nat) (c : Net σ φ ι) : Net σ φ ι → Prop
  | mk {w : Proc φ ι} {a : ι} {rest : List ι} {s' : σ} {o : Option φ} (hw : c.procs[i]? = some w)
      (htodo : w.todo = a :: rest) (h : moves a c.shared w.phase s' o) :
      Net.Step idle moves i c { shared := s', procs := c.procs.set i (w.after idle o) }

/-- The configurations of the runs from `c0` whose every step meets `P`. -/
inductive Net.Reach (idle : φ) (moves : ι → σ → φ → σ → Option φ → Prop) (P : Net σ φ ι → Nat → Prop) (c0 : Net σ φ ι) :
    Net σ φ ι → Prop
  | init : Net.Reach idle moves P c0 c0
  | step {c c' : Net σ φ ι} {i : Nat} (h : Net.Reach idle moves P c0 c) (hP : P c i) (hs : Net.Step idle moves i c c') :
      Net.Reach idle moves P c0 c'

/-- `k` steps of the process `i`, with none of the others between them. -/
inductive Net.Solo (idle : φ) (moves : ι → σ → φ → σ → Option φ → Prop) (i : Nat) : Nat → Net σ φ ι → Net σ φ ι → Prop
  | zero (c : Net σ φ ι) : Net.Solo idle moves i 0 c c
  | succ {k : Nat} {c c1 c' : Net σ φ ι} (hs : Net.Step idle moves i c c1) (h : Net.Solo idle moves i k c1 c') :
      Net.Solo idle moves i (k + 1) c c'

namespace Net

variable {idle : φ} {moves : ι → σ → φ → σ → Option φ → Prop} {P : Net σ φ ι → Nat → Prop} {c c0 c' : Net σ φ ι}

/-- The invariant rule. -/
theorem Reach.invariant {I : Net σ φ ι → Prop} (h : Reach idle moves P c0 c) (h0 : I c0)
    (hstep : ∀ c c' i, I c → P c i → Step idle moves i c c' → I c') : I c := by
  induction h with
  | init => exact h0
  | @step c c' i _ hP hs ih => exact hstep c c' i ih hP hs

/-- **The simulation rule.** A step is matched by a step of the same process in the other net, or by none. -/
theorem Reach.simulates {idle' : ψ} {moves' : ι → τ → ψ → τ → Option ψ → Prop} {a0 : Net τ ψ ι}
    {R : Net σ φ ι → Net τ ψ ι → Prop} (h : Reach idle moves P c0 c) (h0 : R c0 a0)
    (hstep : ∀ c c' i a, R c a → P c i → Step idle moves i c c' → ∃ a', (a' = a ∨ Step idle' moves' i a a') ∧ R c' a') :
    ∃ a, Reach idle' moves' (fun _ _ => True) a0 a ∧ R c a := by
  induction h with
  | init => exact ⟨a0, .init, h0⟩
  | @step c c' i _ hP hs ih =>
      obtain ⟨a, ha, hR⟩ := ih
      obtain ⟨a', hmatch, hR'⟩ := hstep c c' i a hR hP hs
      rcases hmatch with rfl | hs'
      · exact ⟨a', ha, hR'⟩
      · exact ⟨a', .step ha trivial hs', hR'⟩

theorem phase_start {s : σ} {todos : List (List ι)} {i : Nat} {w : Proc φ ι}
    (h : (start idle s todos).procs[i]? = some w) : w.phase = idle := by
  have hw := List.mem_of_getElem? h
  rw [start, List.mem_map] at hw
  obtain ⟨todo, -, rfl⟩ := hw
  rfl

/-- The processes after a step of the process `i`. -/
theorem procs_cases {l : List (Proc φ ι)} {i j : Nat} {w v : Proc φ ι} (h : (l.set i w)[j]? = some v) :
    (j = i ∧ v = w) ∨ (j ≠ i ∧ l[j]? = some v) := by
  by_cases hij : j = i
  · subst hij
    have hlt := (List.getElem?_eq_some_iff.mp h).1
    rw [List.length_set] at hlt
    rw [List.getElem?_set_self hlt] at h
    exact Or.inl ⟨rfl, (Option.some.inj h).symm⟩
  · rw [List.getElem?_set_ne (Ne.symm hij)] at h
    exact Or.inr ⟨hij, h⟩

/-- A step that an abstraction of the processes does not see. -/
theorem map_set_eq {β : Type*} {l : List (Proc φ ι)} {f : Proc φ ι → β} {i : Nat} {w w' : Proc φ ι} (hw : l[i]? = some w)
    (h : f w' = f w) : (l.set i w').map f = l.map f := by
  apply List.ext_getElem?
  intro j
  rw [List.getElem?_map, List.getElem?_map]
  by_cases hij : i = j
  · subst hij
    rw [List.getElem?_set_self (List.getElem?_eq_some_iff.mp hw).1, hw, Option.map_some, Option.map_some, h]
  · rw [List.getElem?_set_ne hij]

end Net

/-! ## Sections -/

/-- The steps that are left. -/
inductive Rest (micro : κ → σ → Except ε (σ × Option κ)) : Option κ → σ → σ → Prop
  | done (s : σ) : Rest micro none s s
  | more {c : κ} {o : Option κ} {s s1 t : σ} (h : micro c s = .ok (s1, o)) (rest : Rest micro o s1 t) :
      Rest micro (some c) s t

namespace Rest

variable {micro : κ → σ → Except ε (σ × Option κ)} {c : κ} {o : Option κ} {s s1 t t' : σ}

theorem eq_of_none (h : Rest micro none s t) : s = t := by
  cases h
  rfl

/-- A section that is not at its end has a step. -/
theorem exists_step (h : Rest micro (some c) s t) : ∃ s1 o, micro c s = .ok (s1, o) := by
  cases h with
  | more h _ => exact ⟨_, _, h⟩

/-- Along a step the end stays the same. -/
theorem step (h : Rest micro (some c) s t) (hm : micro c s = .ok (s1, o)) : Rest micro o s1 t := by
  cases h with
  | more h rest =>
      rw [hm] at h
      cases h
      exact rest

theorem unique (h : Rest micro o s t) (h' : Rest micro o s t') : t = t' := by
  induction h with
  | done s => exact h'.eq_of_none
  | more h _ ih => exact ih (h'.step h)

/-- A change of the shared data that commutes with every step. -/
theorem map {u : σ → σ} (hu : ∀ c s s1 o, micro c s = .ok (s1, o) → micro c (u s) = .ok (u s1, o))
    (h : Rest micro o s t) : Rest micro o (u s) (u t) := by
  induction h with
  | done s => exact .done (u s)
  | @more c o s s1 t h _ ih => exact .more (hu c s s1 o h) ih

/-- A relation that the steps at the places `Q` keep, which the section does not leave. -/
theorem relates {Q : κ → Prop} {R : σ → σ → Prop} (hrefl : ∀ s, R s s) (htrans : ∀ a b c, R a b → R b c → R a c)
    (hstep : ∀ c s s1 o, Q c → micro c s = .ok (s1, o) → R s s1 ∧ ∀ c', o = some c' → Q c') (h : Rest micro o s t)
    (ho : ∀ c, o = some c → Q c) : R s t := by
  induction h with
  | done s => exact hrefl s
  | @more c o s s1 t h _ ih =>
      obtain ⟨hR, hQ⟩ := hstep c s s1 o (ho c rfl) h
      exact htrans s s1 t hR (ih hQ)

end Rest

end Library
