import Lookaround.Sections

/-!
# Sections in one step

A call of `setdataloc` whose critical section is one step, between the steps of the other workers.

* `AtomicMoves` : the steps of a call, with the code of its section as one of them;
* `SpinPhase.abs` : the phase that a phase with the lock stands for;
* `StepFrame` : what a step can do to what the other workers rely on;
* `AtomicOk` : what holds in all runs: the pointers are in order, and the node a worker is about to insert is its own;
* `Located` : what holds when the locations are in the root rectangle: every item an id has is in a cell.
-/

namespace Lookaround

open NlaCoreData Library

/-! ## Sections in one step -/

/-- Where a worker is in its call, when sections are single steps. -/
inductive AtomicPhase where
  | out (phase : OutPhase)
  | pending (job : Job)

def OutNext.toAtomic : OutNext → Option AtomicPhase
  | .go phase => some (.out phase)
  | .enter job => some (.pending job)
  | .done => none

/-- The steps of a call; `none` is its end. -/
inductive AtomicMoves (conf : Conf) (op : SetItem) (s : NlaCoreData) :
    AtomicPhase → NlaCoreData → Option AtomicPhase → Prop
  | out {phase : OutPhase} {s' : NlaCoreData} {next : OutNext} (h : OutStep op s phase s' next) :
      AtomicMoves conf op s (.out phase) s' next.toAtomic
  | whole {job : Job} {s' : NlaCoreData} (h : sectionOf conf op job s = .ok s') :
      AtomicMoves conf op s (.pending job) s' (some (.out (.stamp job.node)))

abbrev AtomicCfg := Net NlaCoreData AtomicPhase SetItem

/-- The configurations of the runs with atomic sections. -/
abbrev AtomicReach (conf : Conf) (c0 : AtomicCfg) : AtomicCfg → Prop :=
  Net.Reach (.out .idle) (AtomicMoves conf) (fun _ _ => True) c0

/-- The phase with atomic sections that a phase stands for. -/
def SpinPhase.abs : SpinPhase → AtomicPhase
  | .out phase => .out phase
  | .spin job _ => .pending job
  | .inside (.insert d) (some .put) => .pending (.insert d)
  | .inside (.insert d) _ => .out (.stamp d)
  | .inside (.move d) (some _) => .pending (.move d)
  | .inside (.move d) none => .out (.stamp d)

theorem SpinPhase.abs_inserted {d : DataPtr} {o : Option Stage} (ho : o ≠ some .put) :
    (SpinPhase.inside (.insert d) o).abs = .out (.stamp d) := by
  cases o with
  | none => rfl
  | some c =>
      cases c with
      | put => exact absurd rfl ho
      | remove => rfl
      | setLoc => rfl
      | visit p => rfl
      | grow p childs => rfl
      | choose p => rfl
      | link p => rfl

/-- The data node a worker has in hand. -/
def AtomicPhase.node : AtomicPhase → Option DataPtr
  | .out .idle => none
  | .out .absent => none
  | .out (.found d) => some d
  | .out (.inPlace d) => some d
  | .out (.stamp d) => some d
  | .pending job => some job.node

/-- The node of a section is in hand all along. -/
theorem SpinPhase.node_abs_inside (job : Job) (o : Option Stage) : (SpinPhase.inside job o).abs.node = some job.node := by
  cases job with
  | insert d =>
      by_cases ho : o = some .put
      · rw [ho]
        rfl
      · rw [SpinPhase.abs_inserted ho]
        rfl
  | move d => cases o <;> rfl

variable {conf : Conf} {i : Nat} {op : SetItem} {s s' t : NlaCoreData} {a a' : AtomicCfg} {job : Job} {d : Nat}

/-! ## The runs with atomic sections -/

/-- What holds in the runs with atomic sections. -/
structure AtomicOk (a : AtomicCfg) : Prop where
  heap : Heap a.shared
  good : a.shared.pId2dataMap.Good
  ids : ∀ (id : CStr) (d : Nat), a.shared.getdatanode id = some d → d < a.shared.dataNodes.length
  nodes : ∀ (i : Nat) (w : Proc AtomicPhase SetItem) (d : Nat), a.procs[i]? = some w → w.phase.node = some d →
    d < a.shared.dataNodes.length
  fresh : ∀ (i : Nat) (w : Proc AtomicPhase SetItem) (d : Nat), a.procs[i]? = some w → w.phase = .pending (.insert d) →
    a.shared.cell d = none ∧ (∀ id, a.shared.getdatanode id ≠ some d) ∧
      ∀ (j : Nat) (v : Proc AtomicPhase SetItem), a.procs[j]? = some v → v.phase.node = some d → j = i

/-- What a step of a worker can do to what the others rely on. -/
structure StepFrame (s : NlaCoreData) (phase : AtomicPhase) (s' : NlaCoreData) (phase' : AtomicPhase) : Prop where
  heap : Heap s'
  good : s'.pId2dataMap.Good
  length : s.dataNodes.length ≤ s'.dataNodes.length
  ids : ∀ (id : CStr) (e : Nat), s'.getdatanode id = some e → s.getdatanode id = some e ∨ phase.node = some e
  node : ∀ e : Nat, phase'.node = some e → phase.node = some e ∨ (∃ id, s.getdatanode id = some e) ∨
    (e = s.dataNodes.length ∧ e < s'.dataNodes.length)
  cell : ∀ e : Nat, phase.node ≠ some e → e < s.dataNodes.length → s'.cell e = s.cell e
  fresh : ∀ e : Nat, phase' = .pending (.insert e) → e = s.dataNodes.length ∧ s'.cell e = none

theorem AtomicOk.frame {w w' : Proc AtomicPhase SetItem} (h : AtomicOk a) (hw : a.procs[i]? = some w)
    (ha : StepFrame a.shared w.phase s' w'.phase) : AtomicOk { shared := s', procs := a.procs.set i w' } where
  heap := ha.heap
  good := ha.good
  ids := by
    intro id e he
    rcases ha.ids id e he with he | he
    · exact (h.ids id e he).trans_le ha.length
    · exact (h.nodes i w e hw he).trans_le ha.length
  nodes := by
    intro j v e hv he
    rcases Net.procs_cases hv with ⟨rfl, rfl⟩ | ⟨-, hv⟩
    · rcases ha.node e he with he | ⟨id, he⟩ | ⟨-, he⟩
      · exact (h.nodes j w e hw he).trans_le ha.length
      · exact (h.ids id e he).trans_le ha.length
      · exact he
    · exact (h.nodes j v e hv he).trans_le ha.length
  fresh := by
    intro j v e hv hphase
    rcases Net.procs_cases hv with ⟨rfl, rfl⟩ | ⟨hji, hv⟩
    · -- a node that was allocated just now: no id and no other worker has it
      obtain ⟨rfl, hcell⟩ := ha.fresh e hphase
      refine ⟨hcell, fun id he => ?_, fun k u hu hnode => ?_⟩
      · rcases ha.ids id _ he with he | he
        · exact absurd (h.ids id _ he) (lt_irrefl _)
        · exact absurd (h.nodes j w _ hw he) (lt_irrefl _)
      · rcases Net.procs_cases hu with ⟨rfl, -⟩ | ⟨-, hu⟩
        · rfl
        · exact absurd (h.nodes k u _ hu hnode) (lt_irrefl _)
    · obtain ⟨hcell, hids, honly⟩ := h.fresh j v e hv hphase
      have hne : w.phase.node ≠ some e := fun hnode => hji (honly i w hw hnode).symm
      have hlt : e < a.shared.dataNodes.length := h.nodes j v e hv (by rw [hphase]; rfl)
      refine ⟨by rw [ha.cell e hne hlt, hcell], fun id he => ?_, fun k u hu hnode => ?_⟩
      · rcases ha.ids id e he with he | he
        · exact hids id he
        · exact hne he
      · rcases Net.procs_cases hu with ⟨rfl, rfl⟩ | ⟨-, hu⟩
        · rcases ha.node e hnode with he | ⟨id, he⟩ | ⟨he, -⟩
          · exact absurd he hne
          · exact absurd he (hids id)
          · exact absurd hlt (by omega)
        · exact honly k u hu hnode

theorem Heap.apply (h : Heap s) (u : Touch) : Heap (u.apply s) where
  grid := by
    rw [u.mapNodes_apply, u.pMapRoot_apply]
    exact h.grid
  heads := by
    intro q e he
    rw [NlaCoreData.head, u.mapNodes_apply] at he
    exact (h.heads q e he).trans_le (u.length_le_apply s)
  cells := by
    intro e q hq
    rw [u.cell_apply] at hq
    rw [u.mapNodes_apply]
    exact h.cells e q hq

/-- A step outside the lock. -/
theorem OutStep.stepFrame {phase : OutPhase} {next : OutNext} (hs : OutStep op s phase s' next) (h : Heap s)
    (hg : s.pId2dataMap.Good) : StepFrame s (.out phase) s' (next.toAtomic.getD (.out .idle)) where
  heap := by
    rw [hs.eq_apply]
    exact h.apply _
  good := by
    rw [hs.eq_apply, Touch.pId2dataMap_apply]
    exact hg
  length := by
    rw [hs.eq_apply]
    exact Touch.length_le_apply _ s
  ids := by
    intro id e he
    rw [hs.eq_apply, getdatanode, Touch.pId2dataMap_apply] at he
    exact Or.inl he
  node := by
    intro e he
    cases hs with
    | lookupNone hnone => cases he
    | lookupSome hsome =>
        cases he
        exact Or.inr (Or.inl ⟨_, hsome⟩)
    | alloc =>
        cases he
        refine Or.inr (Or.inr ⟨rfl, ?_⟩)
        change _ < (s.dataNodes ++ [_]).length
        rw [List.length_append]
        exact Nat.lt_succ_self _
    | testIn _ => exact Or.inl he
    | testOut _ => exact Or.inl he
    | write => exact Or.inl he
    | stamp => cases he
  cell := by
    intro e _ _
    rw [hs.eq_apply, Touch.cell_apply]
  fresh := by
    intro e he
    cases hs with
    | alloc =>
        cases he
        refine ⟨rfl, ?_⟩
        rw [show s.withNewNode op = (Touch.alloc op).apply s from rfl, Touch.cell_apply, NlaCoreData.cell,
          List.getElem?_eq_none_iff.mpr (le_refl _), Option.bind_none]
    | lookupNone _ => cases he
    | lookupSome _ => cases he
    | testIn _ => cases he
    | testOut _ => cases he
    | write => cases he
    | stamp => cases he

/-- The first step of a section is the only one that writes what `Kept` names. -/
theorem rest_section {job : Job} (h : Rest (micro conf op job.node) (some job.start) s t) :
    (job = .insert job.node ∧ Kept job.node (s.putNode op job.node) t) ∨
      (job = .move job.node ∧ Kept job.node s t) := by
  cases job with
  | insert d => exact Or.inl ⟨rfl, rest_kept (h.step (micro_eq_ok.mpr .put)) fun hc => by cases hc⟩
  | move d => exact Or.inr ⟨rfl, rest_kept h fun hc => by cases hc⟩

theorem NlaCoreData.getdatanode_putNode {id : CStr} {e : Nat} (hg : s.pId2dataMap.Good)
    (h : (s.putNode op d).getdatanode id = some e) : s.getdatanode id = some e ∨ d = e := by
  by_cases hid : id = op.id
  · subst hid
    have hself := smGetPtrvalue_put_self hg (smPutPtrvalue_ok s.pId2dataMap op.id (some d))
    exact Or.inr (Option.some.inj (hself.symm.trans h))
  · exact Or.inl ((smGetPtrvalue_put_of_ne true true s.pId2dataMap hid (some d)).symm.trans h)

/-- A section. -/
theorem stepFrame_whole {job : Job} (h : Heap s) (hg : s.pId2dataMap.Good) (hd : job.node < s.dataNodes.length)
    (hs : sectionOf conf op job s = .ok s') : StepFrame s (.pending job) s' (.out (.stamp job.node)) := by
  obtain ⟨t, ht, hheap, hrest⟩ := sectionOf_ok h conf op job hd
  obtain rfl := Except.ok.inj (hs.symm.trans ht)
  have hnode : ∀ e : Nat, (AtomicPhase.pending job).node ≠ some e → e ≠ job.node := by
    rintro e he rfl
    exact he rfl
  rcases rest_section hrest with ⟨-, hk⟩ | ⟨-, hk⟩
  · refine ⟨hheap, ?_, hk.length.ge, ?_, fun e he => Or.inl he, fun e he _ => hk.cell e (hnode e he), fun e he => by cases he⟩
    · rw [hk.map]
      exact Good.put hg true true op.id _
    · intro key e he
      rw [getdatanode, hk.map] at he
      exact (getdatanode_putNode hg he).imp id (congrArg some)
  · refine ⟨hheap, ?_, hk.length.ge, ?_, fun e he => Or.inl he, fun e he _ => hk.cell e (hnode e he), fun e he => by cases he⟩
    · rw [hk.map]
      exact hg
    · intro id e he
      rw [getdatanode, hk.map] at he
      exact Or.inl he

theorem AtomicOk.step (h : AtomicOk a) (hs : Net.Step (.out .idle) (AtomicMoves conf) i a a') : AtomicOk a' := by
  cases hs with
  | @mk w op rest s' next hw htodo hop =>
      apply h.frame hw
      generalize hphase : w.phase = phase at hop
      cases hop with
      | @out phase _ next hout =>
          have hframe := hout.stepFrame h.heap h.good
          cases next <;> exact hframe
      | @whole job _ hsect => exact stepFrame_whole h.heap h.good (h.nodes i w job.node hw (by rw [hphase]; rfl)) hsect

variable {iHashSize : Nat} {todos : List (List SetItem)}

theorem atomicOk_start (h0 : 0 < iHashSize) (todos : List (List SetItem)) :
    AtomicOk (Net.start (.out .idle) (initCoreData iHashSize h0) todos) where
  heap := by
    have hs := (inv_init ⟨0⟩ iHashSize h0).sound
    exact ⟨hs.grid, hs.heads, hs.cells⟩
  good := good_smNew iHashSize h0
  ids := by
    intro id d hd
    rw [getdatanode, Net.start, initCoreData, smGetPtrvalue_smNew] at hd
    cases hd
  nodes := by
    intro i w d hw hd
    rw [Net.phase_start hw] at hd
    cases hd
  fresh := by
    intro i w d hw hphase
    rw [Net.phase_start hw] at hphase
    cases hphase

/-! ## Locations -/

/-- The records have locations in the root rectangle. -/
def NlaCoreData.LocsOk (s : NlaCoreData) : Prop :=
  ∀ (e : Nat) (data : NlaDataItem), s.item e = some data → isLocInRC initRootRect data.loc = true

theorem NlaCoreData.LocsOk.modifyData {f : NlaDataNode → NlaDataNode} (h : s.LocsOk)
    (hf : ∀ n, isLocInRC initRootRect n.data.loc = true → isLocInRC initRootRect (f n).data.loc = true) :
    (s.modifyData d f).LocsOk := by
  intro e data he
  rw [NlaCoreData.item, dataNodes_modifyData] at he
  split_ifs at he
  · rw [Option.map_map, Option.map_eq_some_iff] at he
    obtain ⟨n, hn, rfl⟩ := he
    exact hf n (h e n.data (item_of_getElem? hn))
  · exact h e data he

/-- The writes of the calls keep the locations inside. -/
theorem NlaCoreData.LocsOk.touch (h : s.LocsOk) (hin : isLocInRC initRootRect op.loc = true) (phase : OutPhase) :
    ((phase.touch op).apply s).LocsOk := by
  cases phase with
  | idle => exact h
  | found e => exact h
  | absent =>
      intro e data he
      rw [show ((OutPhase.absent.touch op).apply s).item = _ from (views_withItem s op).2.2, Function.update_apply] at he
      split_ifs at he
      · cases he
        exact hin
      · exact h e data he
  | inPlace e => exact h.modifyData fun _ _ => hin
  | stamp e => exact h.modifyData fun _ hn => hn

/-- A location in the root rectangle has a leaf. -/
theorem Heap.adddatanode_linked {n : NlaDataNode} (h : Heap s) (hlocs : s.LocsOk) (hn : s.dataNodes[d]? = some n)
    (hs : s.adddatanode conf .succeed (conf.nMapMaxLevel.toNat + 1) s.pMapRoot d = .ok t) :
    t.cell d ≠ none ∧ t.LocsOk := by
  obtain ⟨m, hm, hrc, hlev, -⟩ := h.grid.top
  have hfuel : (conf.nMapMaxLevel - m.iLevel).toNat < conf.nMapMaxLevel.toNat + 1 := by omega
  obtain ⟨t', ht, hadd⟩ := adddatanode_added h.grid h.heads hm hn hfuel
  obtain rfl := Except.ok.inj (hs.symm.trans ht)
  have hin : isLocInRC m.rc n.data.loc = true := by
    rw [hrc]
    exact hlocs d n.data (item_of_getElem? hn)
  obtain ⟨q, hq⟩ := hadd.spliced h.grid h.heads (List.getElem?_eq_some_iff.mp hn).1 hm (fun _ => hin) fun _ => hin
  refine ⟨?_, ?_⟩
  · rw [hq.cell, Function.update_self]
    exact Option.some_ne_none q
  · unfold NlaCoreData.LocsOk
    rw [hq.item]
    exact hlocs

theorem sectionOf_linked (h : Heap s) (hlocs : s.LocsOk) (hin : isLocInRC initRootRect op.loc = true)
    (hd : job.node < s.dataNodes.length) (hs : sectionOf conf op job s = .ok t) : t.cell job.node ≠ none ∧ t.LocsOk := by
  have hn : s.dataNodes[job.node]? = some s.dataNodes[job.node] := List.getElem?_eq_getElem hd
  cases job with
  | insert d =>
      have hput : Heap (s.putNode op d) := ⟨h.grid, h.heads, h.cells⟩
      exact hput.adddatanode_linked hlocs hn hs
  | move d =>
      rw [sectionOf, removeDatanodeFromMap_some] at hs
      obtain ⟨n', hn'⟩ : ∃ n', (s.setLoc d op.loc).dataNodes[d]? = some n' := by
        rw [setLoc, dataNodes_modifyData, if_pos rfl]
        exact ⟨_, congrArg (Option.map _) hn⟩
      exact (h.apply (.loc d op.loc)).adddatanode_linked (hlocs.touch hin (.inPlace d)) hn' hs

/-- When the calls have their locations in the root rectangle, the ids and the workers behind a lookup have items that are
in a cell. -/
structure Located (a : AtomicCfg) : Prop where
  calls : ∀ (i : Nat) (w : Proc AtomicPhase SetItem), a.procs[i]? = some w → ∀ op ∈ w.todo,
    isLocInRC initRootRect op.loc = true
  locs : a.shared.LocsOk
  ids : ∀ (id : CStr) (d : Nat), a.shared.getdatanode id = some d → a.shared.cell d ≠ none
  found : ∀ (i : Nat) (w : Proc AtomicPhase SetItem) (d : Nat), a.procs[i]? = some w → w.phase = .out (.found d) →
    a.shared.cell d ≠ none

theorem NlaCoreData.lt_of_cell {e : Nat} (h : s.cell e ≠ none) : e < s.dataNodes.length := by
  by_contra hlt
  apply h
  rw [NlaCoreData.cell, List.getElem?_eq_none_iff.mpr (not_lt.mp hlt), Option.bind_none]

/-- A lookup that finds a node finds one that an id has. -/
theorem OutStep.cell_found {w : Proc AtomicPhase SetItem} {phase : OutPhase} {next : OutNext}
    (hs : OutStep op s phase s' next) (hids : ∀ (id : CStr) (d : Nat), s.getdatanode id = some d → s.cell d ≠ none)
    (h : (w.after (.out .idle) next.toAtomic).phase = .out (.found d)) : s.cell d ≠ none := by
  cases hs with
  | lookupSome hsome =>
      cases h
      exact hids _ _ hsome
  | lookupNone _ => cases h
  | alloc => cases h
  | testIn _ => cases h
  | testOut _ => cases h
  | write => cases h
  | stamp => cases h

theorem Located.step (h : Located a) (hok : AtomicOk a) (hs : Net.Step (.out .idle) (AtomicMoves conf) i a a') :
    Located a' := by
  cases hs with
  | @mk w op rest s' next hw htodo hop =>
      have hin : isLocInRC initRootRect op.loc = true := h.calls i w hw op (by rw [htodo]; exact List.mem_cons_self)
      have hcalls : ∀ (j : Nat) (v : Proc AtomicPhase SetItem), (a.procs.set i (w.after (.out .idle) next))[j]? = some v →
          ∀ op ∈ v.todo, isLocInRC initRootRect op.loc = true := by
        intro j v hv op' hop'
        rcases Net.procs_cases hv with ⟨-, rfl⟩ | ⟨-, hv⟩
        · exact h.calls i w hw op' (Proc.mem_todo_after hop')
        · exact h.calls j v hv op' hop'
      generalize hphase : w.phase = phase at hop
      cases hop with
      | @out phase _ next hout =>
          have hcell : s'.cell = a.shared.cell := by rw [hout.eq_apply, Touch.cell_apply]
          have hget : s'.getdatanode = a.shared.getdatanode := by
            funext id
            rw [getdatanode, hout.eq_apply, Touch.pId2dataMap_apply, getdatanode]
          refine ⟨hcalls, ?_, fun id d hd => ?_, fun j v d hv hfound => ?_⟩
          · change s'.LocsOk
            rw [hout.eq_apply]
            exact h.locs.touch hin phase
          · change s'.getdatanode id = some d at hd
            rw [hget] at hd
            change s'.cell d ≠ none
            rw [hcell]
            exact h.ids id d hd
          · change s'.cell d ≠ none
            rw [hcell]
            rcases Net.procs_cases hv with ⟨-, rfl⟩ | ⟨-, hv⟩
            · exact hout.cell_found h.ids hfound
            · exact h.found j v d hv hfound
      | @whole job _ hsect =>
          have hd : job.node < a.shared.dataNodes.length := hok.nodes i w job.node hw (by rw [hphase]; rfl)
          have hframe := stepFrame_whole hok.heap hok.good hd hsect
          obtain ⟨hlinked, hlocs⟩ := sectionOf_linked hok.heap h.locs hin hd hsect
          have hcell : ∀ e : Nat, a.shared.cell e ≠ none → s'.cell e ≠ none := by
            intro e he
            by_cases hed : job.node = e
            · rw [← hed]
              exact hlinked
            · rw [hframe.cell e (fun hc => hed (Option.some.inj hc)) (lt_of_cell he)]
              exact he
          refine ⟨hcalls, hlocs, fun id e he => ?_, fun j v e hv hfound => ?_⟩
          · rcases hframe.ids id e he with he | he
            · exact hcell e (h.ids id e he)
            · rw [← Option.some.inj he]
              exact hlinked
          · rcases Net.procs_cases hv with ⟨-, rfl⟩ | ⟨-, hv⟩
            · cases hfound
            · exact hcell e (h.found j v e hv hfound)

theorem AtomicReach.located (h0 : 0 < iHashSize)
    (hok : ∀ ops ∈ todos, ∀ op ∈ ops, isLocInRC initRootRect op.loc = true)
    (hr : AtomicReach conf (Net.start (.out .idle) (initCoreData iHashSize h0) todos) a) : Located a := by
  have hboth : AtomicOk a ∧ Located a := by
    refine hr.invariant (I := fun a => AtomicOk a ∧ Located a) ⟨atomicOk_start h0 todos, ?_⟩
      fun _ _ _ h _ hs => ⟨h.1.step hs, h.2.step h.1 hs⟩
    refine ⟨fun i w hw op hop => ?_, fun e data he => ?_, fun id d hd => ?_, fun i w d hw hphase => ?_⟩
    · have hmem := List.mem_of_getElem? hw
      rw [Net.start, List.mem_map] at hmem
      obtain ⟨ops, hops, rfl⟩ := hmem
      exact hok ops hops op hop
    · simp [Net.start, initCoreData, NlaCoreData.item] at he
    · rw [getdatanode, Net.start, initCoreData, smGetPtrvalue_smNew] at hd
      cases hd
    · rw [Net.phase_start hw] at hphase
      cases hphase
  exact hboth.2

end Lookaround
