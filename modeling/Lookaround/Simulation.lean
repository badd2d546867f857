import Lookaround.Atomic

/-!
# Sections are atomic

The workers of `SpinMoves` take the steps of a section one at a time. Every run of theirs is a run in which a section is one
step, as long as no worker writes the location of an item in place while another moves it. The section of a new item takes
effect when the id map gets the node, the section of a moved one with its last step.

* `Ahead` : the data in the middle of a section and the data it stands for;
* `SameView` : what a worker reads outside the lock is the same in both;
* `Sim`, `Sim.step` : the simulation; `spin_refines` : every run is a run with atomic sections;
* `spin_stuck` : a worker is stopped by nothing but the NULL `p_map_node` of an item that is not linked yet.
-/

namespace Lookaround

open NlaCoreData Library

variable {conf : Conf} {ncpu i : Nat} {op : SetItem} {s s' t : NlaCoreData} {c c' : SpinCfg} {a a' : AtomicCfg} {d : Nat}

/-! ## In the middle of a section -/

variable {F A : NlaCoreData} {job : Job} {o : Option Stage}

/-- The data `F` in the middle of a section and the data `A` it stands for: `A` is behind the section of a new item once
the id map has its node, and in front of the section of a moved one until its last step. -/
inductive Ahead (conf : Conf) (op : SetItem) (F A : NlaCoreData) : Job → Option Stage → Prop
  | ready {d : DataPtr} (h : F = A) (hcell : F.cell d = none) : Ahead conf op F A (.insert d) (some .put)
  | inserted {d : DataPtr} {o : Option Stage} (ho : o ≠ some .put) (h : Rest (micro conf op d) o F A)
      (hcell : o ≠ none → F.cell d = none) : Ahead conf op F A (.insert d) o
  | moving {d : DataPtr} {c : Stage} {t : NlaCoreData} (hc : c ≠ .put) (h : Rest (micro conf op d) (some c) F t)
      (hA : Rest (micro conf op d) (some .remove) A t) (hcell : F.cell = A.cell) :
      Ahead conf op F A (.move d) (some c)
  | moved {d : DataPtr} (h : F = A) : Ahead conf op F A (.move d) none

/-- At the end of a section there is no difference. -/
theorem Ahead.eq (h : Ahead conf op F A job none) : F = A := by
  cases h with
  | inserted _ h _ => exact h.eq_of_none
  | moved h => exact h

/-- An item is not in a cell before its section ends. -/
theorem Ahead.cell_insert {c : Stage} (h : Ahead conf op F A (.insert d) (some c)) : F.cell d = none := by
  cases h with
  | ready _ hcell => exact hcell
  | inserted _ _ hcell => exact hcell (Option.some_ne_none c)

/-- A section has a step until it ends. -/
theorem Ahead.exists_micro {c : Stage} (h : Ahead conf op F A job (some c)) :
    ∃ s1 next, micro conf op job.node c F = .ok (s1, next) := by
  cases h with
  | ready _ _ => exact ⟨_, _, micro_eq_ok.mpr .put⟩
  | inserted _ h _ => exact h.exists_step
  | moving _ h _ _ => exact h.exists_step

/-- What a worker reads outside the lock is the same in both. -/
structure SameView (F A : NlaCoreData) : Prop where
  map : F.pId2dataMap = A.pId2dataMap
  length : F.dataNodes.length = A.dataNodes.length
  test : ∀ (e : Nat) (loc : Nla2dloc) (b : Bool), F.inCell e loc = .ok b → A.inCell e loc = .ok b

theorem SameView.refl (F : NlaCoreData) : SameView F F := ⟨rfl, rfl, fun _ _ _ h => h⟩

/-- A test that answers read a cell and the rectangle of a map node. -/
theorem NlaCoreData.inCell_eq_ok {e : Nat} {loc : Nla2dloc} {b : Bool} (h : F.inCell e loc = .ok b) :
    ∃ (q : Nat) (k : NlaMapNode), F.cell e = some q ∧ F.mapNodes[q]? = some k ∧ b = isLocInRC k.rc loc := by
  obtain ⟨n, hn, h⟩ := bind_eq_ok.mp h
  obtain ⟨q, hq, h⟩ := bind_eq_ok.mp h
  obtain ⟨k, hk, h⟩ := bind_eq_ok.mp h
  cases h
  have hcell : n.pMapNode = some q := by
    cases hp : n.pMapNode with
    | none =>
        rw [hp] at hq
        cases hq
    | some p =>
        rw [hp] at hq
        cases hq
        rfl
  exact ⟨q, k, by rw [NlaCoreData.cell, getElem?_of_dataAt hn, Option.bind_some, hcell], getElem?_of_mapAt hk, rfl⟩

theorem Ahead.sameView (h : Ahead conf op F A job o) (hA : A.CellsOk) : SameView F A := by
  cases h with
  | ready h _ => exact h ▸ SameView.refl F
  | moved h => exact h ▸ SameView.refl F
  | @inserted d _ ho h hcell =>
      have hk := rest_kept h ho
      refine ⟨hk.map.symm, hk.length.symm, fun e loc b hb => ?_⟩
      obtain ⟨q, k, hq, hk0, rfl⟩ := inCell_eq_ok hb
      by_cases hed : e = d
      · cases o with
        | none => exact h.eq_of_none ▸ hb
        | some c =>
            rw [hed, hcell (Option.some_ne_none c)] at hq
            cases hq
      · obtain ⟨k', hk', hrc⟩ := hk.rc q k hk0
        rw [inCell_eq (by rw [hk.cell e hed, hq]) hk', hrc]
  | moving hc h hrest hcell =>
      have hkF := rest_kept h fun hcc => hc (Option.some.inj hcc)
      have hkA := rest_kept hrest fun hcc => by cases hcc
      refine ⟨hkF.map.symm.trans hkA.map, hkF.length.symm.trans hkA.length, fun e loc b hb => ?_⟩
      obtain ⟨q, k, hq, hk0, rfl⟩ := inCell_eq_ok hb
      rw [hcell] at hq
      obtain ⟨kA, hkA0⟩ := hA e q hq
      obtain ⟨k', hk', hrc⟩ := hkF.rc q k hk0
      obtain ⟨k'', hk'', hrc'⟩ := hkA.rc q kA hkA0
      obtain rfl := Option.some.inj (hk'.symm.trans hk'')
      rw [inCell_eq hq hkA0, ← hrc', hrc]

/-- A write of another worker, on both sides. -/
theorem Ahead.touch {u : Touch} (h : Ahead conf op F A job o) (hu : o ≠ none → u.Beside job.node) :
    Ahead conf op (u.apply F) (u.apply A) job o := by
  cases h with
  | ready h hcell => exact .ready (congrArg u.apply h) (by rw [u.cell_apply, hcell])
  | moved h => exact .moved (congrArg u.apply h)
  | inserted ho h hcell =>
      refine .inserted ho ?_ fun hne => by rw [u.cell_apply, hcell hne]
      cases o with
      | none =>
          rw [h.eq_of_none]
          exact .done _
      | some c => exact h.map fun _ _ _ _ hm => micro_touch (hu (Option.some_ne_none c)) hm
  | @moving d c t hc h hA hcell =>
      have hb : u.Beside d := hu (Option.some_ne_none c)
      refine .moving hc (h.map fun _ _ _ _ hm => micro_touch hb hm) (hA.map fun _ _ _ _ hm => micro_touch hb hm) ?_
      rw [u.cell_apply, u.cell_apply, hcell]

/-- A step outside the lock that reads and writes the same on both sides. -/
theorem OutStep.sameView {phase : OutPhase} {next : OutNext} (h : OutStep op F phase s' next) (hs : SameView F A) :
    OutStep op A phase ((phase.touch op).apply A) next := by
  cases h with
  | lookupNone h => exact .lookupNone (by rw [getdatanode, ← hs.map]; exact h)
  | lookupSome h => exact .lookupSome (by rw [getdatanode, ← hs.map]; exact h)
  | alloc =>
      rw [hs.length]
      exact .alloc
  | testIn h => exact .testIn (hs.test _ _ _ h)
  | testOut h => exact .testOut (hs.test _ _ _ h)
  | write => exact .write
  | stamp => exact .stamp

/-- An item that is about to be written in place is in a cell. -/
theorem OutStep.cell_inPlace {w : Proc SpinPhase SetItem} {phase : OutPhase} {next : OutNext}
    (hs : OutStep op F phase s' next) (d : Nat)
    (h : (w.after (.out .idle) next.toSpin).phase = .out (.inPlace d)) : F.cell d ≠ none := by
  cases hs with
  | testIn htest =>
      cases h
      obtain ⟨q, k, hq, -⟩ := inCell_eq_ok htest
      rw [hq]
      exact Option.some_ne_none q
  | lookupNone _ => cases h
  | lookupSome _ => cases h
  | alloc => cases h
  | testOut _ => cases h
  | write => cases h
  | stamp => cases h

/-! ## The simulation -/

/-- The worker with its section in one step. -/
abbrev absProc (w : Proc SpinPhase SetItem) : Proc AtomicPhase SetItem := w.mapPhase SpinPhase.abs

/-- The worker `i` does not write the location of an item in place while another moves that item. -/
def Undisturbed (c : SpinCfg) (i : Nat) : Prop :=
  ∀ (w : Proc SpinPhase SetItem) (d : Nat), c.procs[i]? = some w → w.phase = .out (.inPlace d) →
    ∀ (j : Nat) (v : Proc SpinPhase SetItem) (stage : Stage), c.procs[j]? = some v →
      v.phase ≠ .inside (.move d) (some stage)

/-- The simulation. -/
structure Sim (conf : Conf) (c : SpinCfg) (a : AtomicCfg) : Prop where
  procs : a.procs = c.procs.map absProc
  locked : Locked c
  atomic : AtomicOk a
  cells : c.shared.data.CellsOk
  free : c.shared.lock = 0 → c.shared.data = a.shared
  held : ∀ (i : Nat) (w : Proc SpinPhase SetItem) (job : Job) (o : Option Stage), c.procs[i]? = some w →
    w.phase = .inside job o → ∃ op rest, w.todo = op :: rest ∧ Ahead conf op c.shared.data a.shared job o
  quiet : ∀ (i j : Nat) (w v : Proc SpinPhase SetItem) (d : Nat) (stage : Stage), c.procs[i]? = some w →
    w.phase = .inside (.insert d) (some stage) → c.procs[j]? = some v → v.phase ≠ .out (.inPlace d)

namespace Sim

variable {w w' : Proc SpinPhase SetItem} {stage : Stage}

theorem get (h : Sim conf c a) (hw : c.procs[i]? = some w) : a.procs[i]? = some (absProc w) := by
  rw [h.procs, List.getElem?_map, hw, Option.map_some]

theorem sameView (h : Sim conf c a) : SameView c.shared.data a.shared := by
  by_cases h0 : c.shared.lock = 0
  · exact h.free h0 ▸ SameView.refl _
  · obtain ⟨-, i, w, hw, job, o, hphase⟩ := h.locked.held h0
    obtain ⟨op, rest, -, hahead⟩ := h.held i w job o hw hphase
    exact hahead.sameView h.atomic.heap.cells

/-- A step of a worker that is outside the sections before and after it. -/
theorem outside {u : Touch} (h : Sim conf c a) (hout : ¬ w'.phase.Inside)
    (hlocked : Locked { shared := { c.shared with data := u.apply c.shared.data }, procs := c.procs.set i w' })
    (hatomic : AtomicOk { shared := u.apply a.shared, procs := (c.procs.set i w').map absProc })
    (hu : ∀ (j : Nat) (v : Proc SpinPhase SetItem) (job : Job) (stage : Stage), c.procs[j]? = some v →
      v.phase = .inside job (some stage) → u.Beside job.node)
    (hplace : ∀ d, w'.phase = .out (.inPlace d) → c.shared.data.cell d ≠ none) :
    Sim conf { shared := { c.shared with data := u.apply c.shared.data }, procs := c.procs.set i w' }
      { shared := u.apply a.shared, procs := (c.procs.set i w').map absProc } where
  procs := rfl
  locked := hlocked
  atomic := hatomic
  cells := by
    intro e q hq
    rw [show (u.apply c.shared.data).cell e = _ from congrFun (u.cell_apply _) e] at hq
    rw [u.mapNodes_apply]
    exact h.cells e q hq
  free := fun h0 => congrArg u.apply (h.free h0)
  held := by
    intro j v job o hv hphase
    rcases Net.procs_cases hv with ⟨-, rfl⟩ | ⟨-, hv⟩
    · exact absurd ⟨job, o, hphase⟩ hout
    · obtain ⟨op, rest, htodo, hahead⟩ := h.held j v job o hv hphase
      refine ⟨op, rest, htodo, hahead.touch fun hne => ?_⟩
      obtain ⟨stage, rfl⟩ := Option.ne_none_iff_exists'.mp hne
      exact hu j v job stage hv hphase
  quiet := by
    intro j k v x e stage hv hphase hx hplace'
    rcases Net.procs_cases hv with ⟨-, rfl⟩ | ⟨-, hvc⟩
    · exact hout ⟨_, _, hphase⟩
    · rcases Net.procs_cases hx with ⟨-, rfl⟩ | ⟨-, hx⟩
      · obtain ⟨op, rest, -, hahead⟩ := h.held j v _ _ hvc hphase
        exact hplace e hplace' hahead.cell_insert
      · exact h.quiet j k v x e stage hvc hphase hx hplace'

/-- A step of the worker `i` that is inside afterwards, the only one. -/
theorem inside {F A : NlaCoreData} {lock : Nat} {rest : List SetItem} (hlock : lock ≠ 0)
    (hlocked : Locked { shared := { lock := lock, data := F }, procs := c.procs.set i w' })
    (hatomic : AtomicOk { shared := A, procs := (c.procs.set i w').map absProc }) (hcells : F.CellsOk)
    (hw : c.procs[i]? = some w) (hphase : w'.phase = .inside job o) (htodo : w'.todo = op :: rest)
    (hahead : Ahead conf op F A job o)
    (hquiet : ∀ (j : Nat) (v : Proc SpinPhase SetItem) (d : Nat) (stage : Stage), job = .insert d → o = some stage →
      c.procs[j]? = some v → v.phase ≠ .out (.inPlace d)) :
    Sim conf { shared := { lock := lock, data := F }, procs := c.procs.set i w' }
      { shared := A, procs := (c.procs.set i w').map absProc } := by
  have hself : (c.procs.set i w')[i]? = some w' := List.getElem?_set_self (List.getElem?_eq_some_iff.mp hw).1
  have honly : ∀ {j : Nat} {v : Proc SpinPhase SetItem} {job' : Job} {o' : Option Stage},
      (c.procs.set i w')[j]? = some v → v.phase = .inside job' o' → v = w' ∧ job' = job ∧ o' = o := by
    intro j v job' o' hv hp
    obtain rfl : j = i := hlocked.unique j i v w' hv hself ⟨job', o', hp⟩ ⟨job, o, hphase⟩
    obtain rfl := Option.some.inj (hv.symm.trans hself)
    rw [hphase] at hp
    cases hp
    exact ⟨rfl, rfl, rfl⟩
  refine ⟨rfl, hlocked, hatomic, hcells, fun h0 => absurd h0 hlock, ?_, ?_⟩
  · intro j v job' o' hv hp
    obtain ⟨rfl, rfl, rfl⟩ := honly hv hp
    exact ⟨op, rest, htodo, hahead⟩
  · intro j k v x e stage hv hp hx
    obtain ⟨-, hjob, ho⟩ := honly hv hp
    rcases Net.procs_cases hx with ⟨-, rfl⟩ | ⟨-, hx⟩
    · intro hc
      rw [hphase] at hc
      cases hc
    · exact hquiet k x e stage hjob.symm ho.symm hx

/-- A step outside the lock. -/
theorem step_out {phase : OutPhase} {next : OutNext} {rest : List SetItem} (h : Sim conf c a) (hund : Undisturbed c i)
    (hw : c.procs[i]? = some w) (hphase : w.phase = .out phase) (htodo : w.todo = op :: rest)
    (hs : OutStep op c.shared.data phase s' next) (hlocked : Locked
      { shared := { c.shared with data := s' }, procs := c.procs.set i (w.after (.out .idle) next.toSpin) }) :
    ∃ a', Net.Step (.out .idle) (AtomicMoves conf) i a a' ∧ Sim conf
      { shared := { c.shared with data := s' }, procs := c.procs.set i (w.after (.out .idle) next.toSpin) } a' := by
  have habs : absProc (w.after (.out .idle) next.toSpin) = (absProc w).after (.out .idle) next.toAtomic := by
    rw [absProc, Proc.mapPhase_after]
    cases next <;> rfl
  have hmove : AtomicMoves conf op a.shared (absProc w).phase ((phase.touch op).apply a.shared) next.toAtomic := by
    rw [show (absProc w).phase = .out phase by change w.phase.abs = _; rw [hphase]; rfl]
    exact .out (hs.sameView h.sameView)
  have hstep : Net.Step (.out .idle) (AtomicMoves conf) i a
      { shared := (phase.touch op).apply a.shared
        procs := a.procs.set i ((absProc w).after (.out .idle) next.toAtomic) } :=
    .mk (h.get hw) htodo hmove
  have hset : a.procs.set i ((absProc w).after (.out .idle) next.toAtomic) =
      (c.procs.set i (w.after (.out .idle) next.toSpin)).map absProc := by
    rw [List.map_set, habs, h.procs]
  have hatomic := h.atomic.step hstep
  rw [hset] at hstep hatomic
  refine ⟨_, hstep, ?_⟩
  have hplace := hs.cell_inPlace (w := w)
  obtain rfl := hs.eq_apply
  refine h.outside ?_ hlocked hatomic ?_ hplace
  · rintro ⟨job, o, hin⟩
    cases next <;> cases hin
  · intro j v job stage hv hin
    cases phase with
    | inPlace e =>
        change e ≠ job.node
        rintro rfl
        cases job with
        | insert d => exact h.quiet j i v w d stage hv hin hw hphase
        | move d => exact hund w d hw hphase j v stage hv hin
    | idle => trivial
    | absent => trivial
    | found e => trivial
    | stamp e => trivial

/-- A step that the other net does not see. -/
theorem same_abs (h : Sim conf c a) (hw : c.procs[i]? = some w) (habs : absProc w' = absProc w) :
    { shared := a.shared, procs := (c.procs.set i w').map absProc } = a := by
  rw [Net.map_set_eq hw habs, ← h.procs]

/-- The step of the other net that is the whole section. -/
theorem whole_abs (h : Sim conf c a) (hw : c.procs[i]? = some w) {rest : List SetItem} (htodo : w.todo = op :: rest)
    (hpend : w.phase.abs = .pending job) (hs : sectionOf conf op job a.shared = .ok t) {phase : SpinPhase}
    (hdone : phase.abs = .out (.stamp job.node)) :
    Net.Step (.out .idle) (AtomicMoves conf) i a
      { shared := t, procs := (c.procs.set i { w with phase := phase }).map absProc } := by
  have hmove : AtomicMoves conf op a.shared (absProc w).phase t (some (.out (.stamp job.node))) := by
    change AtomicMoves conf op a.shared w.phase.abs t _
    rw [hpend]
    exact .whole hs
  have hset : (c.procs.set i { w with phase := phase }).map absProc =
      a.procs.set i ((absProc w).after (.out .idle) (some (.out (.stamp job.node)))) := by
    rw [List.map_set, h.procs, ← hdone]
    rfl
  rw [hset]
  exact .mk (h.get hw) htodo hmove

/-- A step that waits. -/
theorem step_spin {pc pc' : SpinPc} (h : Sim conf c a) (hw : c.procs[i]? = some w) (hphase : w.phase = .spin job pc)
    (hlocked : Locked { shared := c.shared, procs := c.procs.set i { w with phase := .spin job pc' } }) :
    Sim conf { shared := c.shared, procs := c.procs.set i { w with phase := .spin job pc' } } a := by
  have hsame : absProc { w with phase := .spin job pc' } = absProc w := by
    unfold absProc Proc.mapPhase
    rw [hphase]
    rfl
  have hcfg := h.same_abs hw hsame
  rw [← hcfg]
  refine h.outside (u := .nothing) ?_ hlocked (by rw [Touch.apply, hcfg]; exact h.atomic) (fun _ _ _ _ _ _ => trivial) ?_
  · rintro ⟨job', stage, hin⟩
    cases hin
  · intro d hd
    cases hd

/-- The lock is taken. -/
theorem step_acquire {n : Nat} {rest : List SetItem} (h : Sim conf c a) (hw : c.procs[i]? = some w)
    (hphase : w.phase = .spin job (.cas n)) (htodo : w.todo = op :: rest) (h0 : c.shared.lock = 0)
    (hlocked : Locked { shared := { c.shared with lock := 1 },
                        procs := c.procs.set i { w with phase := .inside job (some job.start) } }) :
    Sim conf { shared := { c.shared with lock := 1 },
               procs := c.procs.set i { w with phase := .inside job (some job.start) } } a := by
  have hpend : (absProc w).phase = .pending job := by
    change w.phase.abs = _
    rw [hphase]
    rfl
  have hsame : absProc { w with phase := .inside job (some job.start) } = absProc w := by
    unfold absProc Proc.mapPhase
    rw [hphase]
    cases job <;> rfl
  have heq := h.free h0
  have hcfg := h.same_abs hw hsame
  rw [← hcfg]
  refine inside Nat.one_ne_zero hlocked (by rw [hcfg]; exact h.atomic) h.cells hw rfl htodo ?_ ?_
  · cases job with
    | insert d =>
        obtain ⟨hcell, -⟩ := h.atomic.fresh i (absProc w) d (h.get hw) hpend
        exact .ready heq (by rw [heq]; exact hcell)
    | move d =>
        have hlt := h.atomic.nodes i (absProc w) d (h.get hw) (by rw [hpend]; rfl)
        obtain ⟨t, -, -, hrest⟩ := sectionOf_ok h.atomic.heap conf op (.move d) hlt
        exact .moving (fun hc => by cases hc) (by rw [heq]; exact hrest) hrest (by rw [heq])
  · rintro j v d stage rfl - hv hplace
    obtain ⟨-, -, honly⟩ := h.atomic.fresh i (absProc w) d (h.get hw) hpend
    have hnode : (absProc v).phase.node = some d := by
      change v.phase.abs.node = _
      rw [hplace]
      rfl
    obtain rfl := honly j (absProc v) (h.get hv) hnode
    obtain rfl := Option.some.inj (hv.symm.trans hw)
    rw [hphase] at hplace
    cases hplace

/-- A step of a section: the other net takes the whole section when the id map gets the node, or with the last step of a
move, and stands still otherwise. -/
theorem ahead_micro {next : Option Stage} (hA : Heap A) (hd : job.node < A.dataNodes.length)
    (h : Ahead conf op F A job (some stage)) (hm : MicroStep conf op job.node F stage s' next) :
    ((SpinPhase.inside job next).abs = (SpinPhase.inside job (some stage)).abs ∧ Ahead conf op s' A job next) ∨
      ((SpinPhase.inside job (some stage)).abs = .pending job ∧
        (SpinPhase.inside job next).abs = .out (.stamp job.node) ∧
        ∃ t, sectionOf conf op job A = .ok t ∧ Ahead conf op s' t job next) := by
  cases h with
  | @ready d heq hcell =>
      subst heq
      obtain ⟨t, ht, -, hrest⟩ := sectionOf_ok hA conf op (.insert d) hd
      refine Or.inr ⟨rfl, ?_, t, ht, ?_⟩
      · cases hm
        rfl
      · have hrest' := hrest.step (micro_eq_ok.mpr hm)
        cases hm
        exact .inserted (fun hc => by cases hc) hrest' fun _ => hcell
  | @inserted d _ ho hrest hcell =>
      have hstage : stage ≠ .put := fun hc => ho (by rw [hc])
      have hnext : next ≠ some .put := fun hc => (hm.kept hstage).2 .put hc rfl
      refine Or.inl ⟨by rw [SpinPhase.abs_inserted hnext, SpinPhase.abs_inserted ho], ?_⟩
      refine .inserted hnext (hrest.step (micro_eq_ok.mpr hm)) fun hne => ?_
      obtain ⟨c', rfl⟩ := Option.ne_none_iff_exists'.mp hne
      rw [hm.cell]
      exact hcell (Option.some_ne_none stage)
  | @moving d _ t hc hrest hrestA hcell =>
      have hrest' := hrest.step (micro_eq_ok.mpr hm)
      cases next with
      | some c' =>
          refine Or.inl ⟨rfl, .moving ((hm.kept hc).2 c' rfl) hrest' hrestA ?_⟩
          rw [hm.cell, hcell]
      | none =>
          obtain ⟨t', ht', -, hrest''⟩ := sectionOf_ok hA conf op (.move d) hd
          refine Or.inr ⟨rfl, rfl, t', ht', .moved ?_⟩
          rw [hrest'.eq_of_none]
          exact hrestA.unique hrest''

theorem step_micro {next : Option Stage} {rest : List SetItem} (h : Sim conf c a) (hw : c.procs[i]? = some w)
    (hphase : w.phase = .inside job (some stage)) (htodo : w.todo = op :: rest)
    (hm : micro conf op job.node stage c.shared.data = .ok (s', next))
    (hlocked : Locked { shared := { c.shared with data := s' },
                        procs := c.procs.set i { w with phase := .inside job next } }) :
    ∃ a', (a' = a ∨ Net.Step (.out .idle) (AtomicMoves conf) i a a') ∧
      Sim conf { shared := { c.shared with data := s' }, procs := c.procs.set i { w with phase := .inside job next } } a' := by
  have hm := micro_eq_ok.mp hm
  have hahead : Ahead conf op c.shared.data a.shared job (some stage) := by
    obtain ⟨op', rest', htodo', hahead⟩ := h.held i w job _ hw hphase
    obtain ⟨rfl, -⟩ := List.cons.inj (htodo.symm.trans htodo')
    exact hahead
  have hlock : c.shared.lock ≠ 0 := fun h0 => h.locked.free h0 i w hw ⟨job, _, hphase⟩
  have hquiet : ∀ (j : Nat) (v : Proc SpinPhase SetItem) (d : Nat) (stage' : Stage), job = .insert d →
      next = some stage' → c.procs[j]? = some v → v.phase ≠ .out (.inPlace d) := by
    rintro j v d stage' rfl - hv
    exact h.quiet i j w v d stage hw hphase hv
  have hd : job.node < a.shared.dataNodes.length := by
    apply h.atomic.nodes i (absProc w) job.node (h.get hw)
    change w.phase.abs.node = _
    rw [hphase, SpinPhase.node_abs_inside]
  rcases ahead_micro h.atomic.heap hd hahead hm with ⟨habs, hahead'⟩ | ⟨hpend, hdone, t, ht, hahead'⟩
  · have hsame : absProc { w with phase := .inside job next } = absProc w := by
      unfold absProc Proc.mapPhase
      rw [hphase, habs]
    have hcfg := h.same_abs hw hsame
    refine ⟨a, Or.inl rfl, ?_⟩
    rw [← hcfg]
    exact inside hlock hlocked (by rw [hcfg]; exact h.atomic) (hm.cellsOk h.cells) hw rfl htodo hahead' hquiet
  · rw [← hphase] at hpend
    have hstep := h.whole_abs hw htodo hpend ht hdone
    exact ⟨_, Or.inr hstep, inside hlock hlocked (h.atomic.step hstep) (hm.cellsOk h.cells) hw rfl htodo hahead' hquiet⟩

/-- The lock is given back. -/
theorem step_release (h : Sim conf c a) (hw : c.procs[i]? = some w) (hphase : w.phase = .inside job none)
    (hlocked : Locked { shared := { c.shared with lock := 0 },
                        procs := c.procs.set i { w with phase := .out (.stamp job.node) } }) :
    Sim conf { shared := { c.shared with lock := 0 },
               procs := c.procs.set i { w with phase := .out (.stamp job.node) } } a := by
  have hsame : absProc { w with phase := .out (.stamp job.node) } = absProc w := by
    unfold absProc Proc.mapPhase
    rw [hphase]
    cases job <;> rfl
  have heq : c.shared.data = a.shared := by
    obtain ⟨op, rest, -, hahead⟩ := h.held i w job none hw hphase
    exact hahead.eq
  have hcfg := h.same_abs hw hsame
  rw [← hcfg]
  refine ⟨rfl, hlocked, by rw [hcfg]; exact h.atomic, h.cells, fun _ => heq, ?_, ?_⟩
  · intro j v job' o hv hin
    exact absurd ⟨job', o, hin⟩ (hlocked.free rfl j v hv)
  · intro j k v x d stage hv hin
    exact absurd ⟨_, _, hin⟩ (hlocked.free rfl j v hv)

/-- **Every step of a worker is a step of the same worker with atomic sections, or none.** -/
theorem step (h : Sim conf c a) (hund : Undisturbed c i) (hs : SpinStep conf ncpu i c c') :
    ∃ a', (a' = a ∨ Net.Step (.out .idle) (AtomicMoves conf) i a a') ∧ Sim conf c' a' := by
  have hlocked := h.locked.step hs
  cases hs with
  | @mk w op rest shared o hw htodo hop =>
      generalize hphase : w.phase = phase at hop
      cases hop with
      | out hout =>
          obtain ⟨a', hstep, hsim⟩ := h.step_out hund hw hphase htodo hout hlocked
          exact ⟨a', Or.inr hstep, hsim⟩
      | spin hspin => exact ⟨a, Or.inl rfl, h.step_spin hw hphase hlocked⟩
      | acquire h0 => exact ⟨a, Or.inl rfl, h.step_acquire hw hphase htodo h0 hlocked⟩
      | micro hm => exact h.step_micro hw hphase htodo hm hlocked
      | release => exact ⟨a, Or.inl rfl, h.step_release hw hphase hlocked⟩

end Sim

variable {iHashSize : Nat} {todos : List (List SetItem)}

theorem sim_start (conf : Conf) (h0 : 0 < iHashSize) (todos : List (List SetItem)) :
    Sim conf (startSpinCfg (initCoreData iHashSize h0) todos)
      (Net.start (.out .idle) (initCoreData iHashSize h0) todos) where
  procs := by
    rw [startSpinCfg, Net.start, Net.start, List.map_map]
    rfl
  locked := locked_start _ todos
  atomic := atomicOk_start h0 todos
  cells := (inv_init ⟨0⟩ iHashSize h0).sound.cells
  free := fun _ => rfl
  held := by
    intro i w job o hw hphase
    rw [Net.phase_start hw] at hphase
    cases hphase
  quiet := by
    intro i j w v d stage hw hphase
    rw [Net.phase_start hw] at hphase
    cases hphase

/-- The simulation along a run. -/
theorem SpinReach.sim (h0 : 0 < iHashSize)
    (hr : SpinReach conf ncpu Undisturbed (startSpinCfg (initCoreData iHashSize h0) todos) c) :
    ∃ a, AtomicReach conf (Net.start (.out .idle) (initCoreData iHashSize h0) todos) a ∧ Sim conf c a :=
  hr.simulates (sim_start conf h0 todos) fun _ _ _ _ h hund hs => h.step hund hs

/-- **Sections are atomic.** Every run of the workers with the lock, step by step inside the sections, in which no item
is written in place while it is moved, is a run in which each section is one step of its code: the workers are in the phases
of that run, and whenever the lock is free the shared data is the data of that run. -/
theorem spin_refines (h0 : 0 < iHashSize)
    (hr : SpinReach conf ncpu Undisturbed (startSpinCfg (initCoreData iHashSize h0) todos) c) :
    ∃ a, AtomicReach conf (Net.start (.out .idle) (initCoreData iHashSize h0) todos) a ∧
      a.procs = c.procs.map absProc ∧ (c.shared.lock = 0 → c.shared.data = a.shared) := by
  obtain ⟨a, ha, h⟩ := SpinReach.sim h0 hr
  exact ⟨a, ha, h.procs, h.free⟩

/-- A worker in another phase than that of the write in place disturbs nobody. -/
theorem SpinReach.next {c0 : SpinCfg} {w : Proc SpinPhase SetItem} {rest : List SetItem} {shared : Shared}
    {o : Option SpinPhase} (hr : SpinReach conf ncpu Undisturbed c0 c) (i : Nat) (hw : c.procs[i]? = some w)
    (hphase : ∀ d, w.phase ≠ .out (.inPlace d)) (htodo : w.todo = op :: rest)
    (hop : SpinMoves conf ncpu op c.shared w.phase shared o) :
    SpinReach conf ncpu Undisturbed c0 { shared := shared, procs := c.procs.set i (w.after (.out .idle) o) } := by
  refine .step hr (fun v d hv hplace => ?_) (.mk hw htodo hop)
  obtain rfl := Option.some.inj (hw.symm.trans hv)
  exact absurd hplace (hphase d)

/-- A worker inserts an item, and another one allocates its own between two steps of the section. -/
theorem spin_refines_two : ∃ (c : SpinCfg) (a : AtomicCfg),
    SpinReach ⟨0⟩ 1 Undisturbed (startSpinCfg (initCoreData 1 Nat.one_pos) [[setA 5 5], [setB 5 5]]) c ∧
      AtomicReach ⟨0⟩ (Net.start (.out .idle) (initCoreData 1 Nat.one_pos) [[setA 5 5], [setB 5 5]]) a ∧
      c.shared.data = a.shared ∧ c.shared.data.dataNodes.length = 2 ∧ c.shared.data.head 0 = some 0 := by
  have hrun : ∃ c : SpinCfg,
      SpinReach ⟨0⟩ 1 Undisturbed (startSpinCfg (initCoreData 1 Nat.one_pos) [[setA 5 5], [setB 5 5]]) c ∧
        c.shared.lock = 0 ∧ c.shared.data.dataNodes.length = 2 ∧ c.shared.data.head 0 = some 0 := by
    have h0 : SpinReach ⟨0⟩ 1 Undisturbed (startSpinCfg (initCoreData 1 Nat.one_pos) [[setA 5 5], [setB 5 5]])
        (startSpinCfg (initCoreData 1 Nat.one_pos) [[setA 5 5], [setB 5 5]]) := .init
    have h1 := h0.next 0 rfl (fun _ h => by cases h) rfl (.out (.lookupNone rfl))
    have h2 := h1.next 0 rfl (fun _ h => by cases h) rfl (.out .alloc)
    have h3 := h2.next 0 rfl (fun _ h => by cases h) rfl (.spin rfl)
    have h4 := h3.next 0 rfl (fun _ h => by cases h) rfl (.acquire rfl)
    have h5 := h4.next 0 rfl (fun _ h => by cases h) rfl (.micro rfl)
    have h6 := h5.next 1 rfl (fun _ h => by cases h) rfl (.out (.lookupNone rfl))
    have h7 := h6.next 1 rfl (fun _ h => by cases h) rfl (.out .alloc)
    have h8 := h7.next 0 rfl (fun _ h => by cases h) rfl (.micro rfl)
    have h9 := h8.next 0 rfl (fun _ h => by cases h) rfl (.micro rfl)
    have h10 := h9.next 0 rfl (fun _ h => by cases h) rfl .release
    exact ⟨_, h10, rfl, rfl, rfl⟩
  obtain ⟨c, hr, hlock, hlen, hhead⟩ := hrun
  obtain ⟨a, ha, -, hfree⟩ := spin_refines Nat.one_pos hr
  exact ⟨c, a, hr, ha, hfree hlock, hlen, hhead⟩

/-! ## What stops a worker -/

theorem NlaCoreData.inCell_of_none (loc : Nla2dloc) (h : s.cell d = none) : s.inCell d loc = .error .nullDeref := by
  unfold NlaCoreData.inCell
  cases hn : s.dataNodes[d]? with
  | none =>
      rw [NlaCoreData.dataAt, hn]
      rfl
  | some n =>
      rw [NlaCoreData.cell, hn, Option.bind_some] at h
      rw [dataAt_ok hn]
      simp only [bind, Except.bind, h, nonNull]

/-- A worker with a call before it has a step, or it tests the cell of an item that is in none. -/
theorem Sim.exists_step {w : Proc SpinPhase SetItem} {rest : List SetItem} (h : Sim conf c a) (hw : c.procs[i]? = some w)
    (htodo : w.todo = op :: rest) : (∃ c', SpinStep conf ncpu i c c') ∨
      ∃ d : Nat, w.phase = .out (.found d) ∧ c.shared.data.cell d = none := by
  suffices hmove : (∃ shared o, SpinMoves conf ncpu op c.shared w.phase shared o) ∨
      ∃ d : Nat, w.phase = .out (.found d) ∧ c.shared.data.cell d = none by
    refine hmove.imp_left ?_
    rintro ⟨shared, o, hop⟩
    exact ⟨_, .mk hw htodo hop⟩
  generalize hphase : w.phase = phase
  cases phase with
  | out phase =>
      cases phase with
      | idle =>
          left
          cases hg : c.shared.data.getdatanode op.id with
          | none => exact ⟨_, _, .out (.lookupNone hg)⟩
          | some d => exact ⟨_, _, .out (.lookupSome hg)⟩
      | absent => exact Or.inl ⟨_, _, .out .alloc⟩
      | inPlace d => exact Or.inl ⟨_, _, .out .write⟩
      | stamp d => exact Or.inl ⟨_, _, .out .stamp⟩
      | found d =>
          cases hq : c.shared.data.cell d with
          | none => exact Or.inr ⟨d, rfl, hq⟩
          | some q =>
              left
              obtain ⟨k, hk⟩ := h.cells d q hq
              have htest : c.shared.data.inCell d op.loc = .ok (isLocInRC k.rc op.loc) := inCell_eq hq hk
              cases hin : isLocInRC k.rc op.loc with
              | true => exact ⟨_, _, .out (.testIn (by rw [htest, hin]))⟩
              | false => exact ⟨_, _, .out (.testOut (by rw [htest, hin]))⟩
  | spin job pc =>
      left
      cases hpc : spinStep ncpu c.shared.lock pc with
      | some pc' => exact ⟨_, _, .spin hpc⟩
      | none =>
          cases pc with
          | cas n =>
              by_cases hl : c.shared.lock = 0
              · exact ⟨_, _, .acquire hl⟩
              · rw [spinStep, if_neg hl] at hpc
                cases hpc
          | load n => cases hpc
          | pause n k => cases hpc
          | yield => cases hpc
  | inside job o =>
      left
      cases o with
      | none => exact ⟨_, _, .release⟩
      | some stage =>
          obtain ⟨op', rest', htodo', hahead⟩ := h.held i w job _ hw hphase
          obtain ⟨rfl, -⟩ := List.cons.inj (htodo.symm.trans htodo')
          obtain ⟨s1, next, hm⟩ := hahead.exists_micro
          exact ⟨_, _, .micro hm⟩

/-- The cell that is missing in the middle of a section is that of the new item. -/
theorem Sim.inserting (h : Sim conf c a) (hF : c.shared.data.cell d = none) (hA : a.shared.cell d ≠ none) :
    ∃ (j : Nat) (v : Proc SpinPhase SetItem) (stage : Stage), c.procs[j]? = some v ∧
      v.phase = .inside (.insert d) (some stage) := by
  by_cases h0 : c.shared.lock = 0
  · rw [h.free h0] at hF
    exact absurd hF hA
  · obtain ⟨-, j, v, hv, job, o, hphase⟩ := h.locked.held h0
    obtain ⟨op, rest, -, hahead⟩ := h.held j v job o hv hphase
    cases hahead with
    | ready heq _ =>
        rw [heq] at hF
        exact absurd hF hA
    | moved heq =>
        rw [heq] at hF
        exact absurd hF hA
    | moving _ _ _ hcell =>
        rw [hcell] at hF
        exact absurd hF hA
    | @inserted e _ ho hrest _ =>
        by_cases hde : d = e
        · subst hde
          cases o with
          | none =>
              rw [hrest.eq_of_none] at hF
              exact absurd hF hA
          | some stage => exact ⟨j, v, stage, hv, hphase⟩
        · rw [← (rest_kept hrest ho).cell d hde] at hF
          exact absurd hF hA

end Lookaround
