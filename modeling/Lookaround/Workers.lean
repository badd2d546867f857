import Lookaround.Settled

/-!
# Workers

Several workers run `setdataloc` on the shared core data. The lookup, the test of the cell and the write in place are
not under the lock; the insertion of a new node, and the removal and insertion of a moved one, are critical sections.

* `OpStep` : the atomic steps of one call; `Step` : a step of one worker;
* `Reachable P` : the configurations of the runs whose every step meets `P`;
* `InTime` : the decision a worker took outside the lock still holds when it acts on it;
* `Consistent` : one data node per id, the one the id map holds, in the list of the leaf that has its location;
* `workers_consistent` : runs with steps in time are consistent; `reachable_exists_step` : no worker is stuck.
-/

namespace Lookaround

open NlaCoreData

/-! ## The steps -/

/-- Where a worker is in the call it runs. -/
inductive Phase where
  | idle
  | absent
  | found (d : DataPtr)
  | inPlace (d : DataPtr)
  | move (d : DataPtr)

/-- The data node a worker has in hand. -/
def Phase.node : Phase → Option DataPtr
  | idle => none
  | absent => none
  | found d => some d
  | inPlace d => some d
  | move d => some d

/-- A worker: its phase in the first call of `todo`, and the calls it still has to do. -/
structure Worker where
  phase : Phase
  todo : List SetItem

structure Cfg where
  shared : NlaCoreData
  workers : List Worker

/-- A correct removal: what led to `d` in a list leads to its successor. The counts and the `prev` pointers, which the
lists do not depend on, are left open. -/
structure Unlinked (conf : Conf) (s : NlaCoreData) (d : DataPtr) (s1 : NlaCoreData) : Prop where
  tree : SameTree conf.nMapMaxLevel s.mapNodes s1.mapNodes
  root : s1.pMapRoot = s.pMapRoot
  map : s1.pId2dataMap = s.pId2dataMap
  length : s1.dataNodes.length = s.dataNodes.length
  item : s1.item = s.item
  cell : s1.cell = s.cell
  head : ∀ q, s1.head q = if s.head q = some d then s.next d else s.head q
  next : ∀ e, s1.next e = if e = d then none else if s.next e = some d then s.next d else s.next e

/-- The atomic steps of a call; `none` is its end. -/
inductive OpStep (conf : Conf) (op : SetItem) (s : NlaCoreData) : Phase → NlaCoreData → Option Phase → Prop
  | lookupNone (h : s.getdatanode op.id = none) : OpStep conf op s .idle s (some .absent)
  | lookupSome {d : DataPtr} (h : s.getdatanode op.id = some d) : OpStep conf op s .idle s (some (.found d))
  | insert {s' : NlaCoreData} (h : s.createItem conf .succeed op.id op.loc op.iStatus op.iType op.now = .ok s') :
      OpStep conf op s .absent s' none
  | testIn {d : DataPtr} (h : s.inCell d op.loc = .ok true) : OpStep conf op s (.found d) s (some (.inPlace d))
  | testOut {d : DataPtr} (h : s.inCell d op.loc = .ok false) : OpStep conf op s (.found d) s (some (.move d))
  | write {d : DataPtr} : OpStep conf op s (.inPlace d) ((s.setLoc d op.loc).setTime d op.now) none
  | relocate {d : DataPtr} {s1 s2 : NlaCoreData} (hu : Unlinked conf s d s1)
      (ha : (s1.setLoc d op.loc).adddatanode conf .succeed (conf.nMapMaxLevel.toNat + 1) s1.pMapRoot d = .ok s2) :
      OpStep conf op s (.move d) (s2.setTime d op.now) none

/-- The worker after a step of its first call. -/
def Worker.after (w : Worker) : Option Phase → Worker
  | some phase => { w with phase := phase }
  | none => { phase := .idle, todo := w.todo.tail }

/-- A step of the worker `i`. -/
inductive Step (conf : Conf) (i : Nat) (c : Cfg) : Cfg → Prop
  | mk {w : Worker} {op : SetItem} {rest : List SetItem} {s' : NlaCoreData} {next : Option Phase}
      (hw : c.workers[i]? = some w) (htodo : w.todo = op :: rest) (hop : OpStep conf op c.shared w.phase s' next) :
      Step conf i c { shared := s', workers := c.workers.set i (w.after next) }

/-- The configurations of the runs from `c0` whose every step meets `P`. -/
inductive Reachable (conf : Conf) (P : Cfg → Nat → Prop) (c0 : Cfg) : Cfg → Prop
  | init : Reachable conf P c0 c0
  | step {c c' : Cfg} {i : Nat} (h : Reachable conf P c0 c) (hP : P c i) (hs : Step conf i c c') :
      Reachable conf P c0 c'

/-- An empty index, and workers with their calls before them. -/
def startCfg (iHashSize : Nat) (h : 0 < iHashSize) (todos : List (List SetItem)) : Cfg where
  shared := initCoreData iHashSize h
  workers := todos.map fun ops => { phase := .idle, todo := ops }

/-- What the worker `i` decided outside the lock still holds: the id it is about to insert is absent, and the cell of
the item it is about to write in place has the new location. -/
def InTime (c : Cfg) (i : Nat) : Prop :=
  ∀ (w : Worker) (op : SetItem) (rest : List SetItem), c.workers[i]? = some w → w.todo = op :: rest →
    (w.phase = .absent → c.shared.getdatanode op.id = none) ∧
      ∀ d, w.phase = .inPlace d → ∃ (q : Nat) (k : NlaMapNode), c.shared.cell d = some q ∧
        c.shared.mapNodes[q]? = some k ∧ isLocInRC k.rc op.loc = true

/-! ## What holds of the shared data -/

/-- One data node per id: the one the id map holds, in the list of the leaf that has its location and in no other. -/
structure Consistent (conf : Conf) (s : NlaCoreData) : Prop where
  ends : ListsEnd s
  held : ∀ d q : Nat, Library.Reaches s.next d (s.head q) → ∃ id, s.getdatanode id = some d
  unique : ∀ (id : CStr) (d e q : Nat) (data : NlaDataItem), s.getdatanode id = some d →
    Library.Reaches s.next e (s.head q) → s.item e = some data → data.achId = strcpyId id → e = d
  listed : ∀ (id : CStr) (d : Nat), s.getdatanode id = some d → ∃ (q : Nat) (k : NlaMapNode) (data : NlaDataItem),
    s.mapNodes[q]? = some k ∧ conf.nMapMaxLevel ≤ k.iLevel ∧ s.item d = some data ∧ data.achId = strcpyId id ∧
      isLocInRC k.rc data.loc = true ∧ ∀ r, Library.Reaches s.next d (s.head r) ↔ r = q

/-- The invariant of the shared data. -/
structure SharedOk (conf : Conf) (s : NlaCoreData) : Prop where
  inv : Inv conf s
  back : BackPtr conf s
  housed : Housed s
  ids : ∀ (id : CStr) (d : Nat), s.getdatanode id = some d → id.bytes.length ≤ dataIdMaxLen

variable {conf : Conf} {s s' s1 s2 : NlaCoreData} {op : SetItem} {d iHashSize : Nat}

theorem sharedOk_init (conf : Conf) (iHashSize : Nat) (h0 : 0 < iHashSize) :
    SharedOk conf (initCoreData iHashSize h0) where
  inv := inv_init conf iHashSize h0
  back := backPtr_init conf iHashSize h0
  housed := housed_init iHashSize h0
  ids := by
    intro id d hd
    rw [getdatanode, initCoreData, smGetPtrvalue_smNew] at hd
    cases hd

/-- `strcpy` keeps ids of up to 32 bytes apart. -/
theorem strcpyId_inj {a b : CStr} (ha : a.bytes.length ≤ dataIdMaxLen) (hb : b.bytes.length ≤ dataIdMaxLen)
    (h : strcpyId a = strcpyId b) : a = b := by
  have hread : ∀ c : CStr, c.bytes.length ≤ dataIdMaxLen → (CStr.ofBuffer (strcpyId c ++ [0])).bytes = c.bytes := by
    intro c hc
    have hsplit : strcpyId c ++ [0] = c.bytes ++ 0 :: List.replicate (dataIdMaxLen - c.bytes.length) 0 := by
      rw [strcpyId_eq hc, List.append_assoc, ← List.replicate_succ', List.replicate_succ]
    rw [hsplit]
    exact CStr.ofBuffer_append_nul c.noNul _
  rw [CStr.ext_iff, ← hread a ha, ← hread b hb, h]

theorem SharedOk.consistent (h : SharedOk conf s) : Consistent conf s where
  ends := by
    intro q
    obtain ⟨l, hl, -⟩ := h.housed.lists q
    exact ⟨l, hl⟩
  held := fun d q hr => h.housed.held d (h.inv.reaches_lt hr)
  unique := by
    intro id d e q data hd hr he hname
    obtain ⟨id', hid'⟩ := h.housed.held e (h.inv.reaches_lt hr)
    obtain ⟨data', hdata', hname'⟩ := h.inv.names id' e hid'
    obtain rfl := Option.some.inj (he.symm.trans hdata')
    have hids := strcpyId_inj (h.ids id d hd) (h.ids id' e hid') (hname.symm.trans hname')
    rw [hids, hid'] at hd
    exact Option.some.inj hd
  listed := by
    intro id d hd
    obtain ⟨q, k, data, hq, hk, hL, hdata, hin⟩ := h.back id d hd
    obtain ⟨data', hdata', hname⟩ := h.inv.names id d hd
    obtain rfl := Option.some.inj (hdata.symm.trans hdata')
    refine ⟨q, k, data, hk, hL, hdata, hname, hin, fun r => ?_⟩
    obtain ⟨l, hl, hmem⟩ := h.housed.lists r
    rw [← hl.mem_iff_reaches, hmem, hq]
    exact ⟨fun hqr => (Option.some.inj hqr).symm, fun hqr => by rw [hqr]⟩

/-! ## The steps keep it -/

theorem Unlinked.inv (h : Inv conf s) (hu : Unlinked conf s d s1) : Inv conf s1 := by
  have hget : s1.getdatanode = s.getdatanode := funext fun id => by rw [getdatanode, hu.map, getdatanode]
  have hshape := h.shape.sameTree hu.tree
  rw [← hu.root] at hshape
  refine ⟨hshape, fun q e he => ?_, fun f e he => ?_, fun e q hq => ?_, fun id e he => ?_, ?_,
    fun id id' e he he' => ?_⟩
  · rw [hu.head] at he
    rw [hu.length]
    split_ifs at he
    · exact h.nexts d e he
    · exact h.heads q e he
  · rw [hu.next] at he
    rw [hu.length]
    split_ifs at he
    · exact h.nexts d e he
    · exact h.nexts f e he
  · rw [hu.cell] at hq
    obtain ⟨k, hk, hL⟩ := h.cells e q hq
    obtain ⟨k', hk', -, -, -, hlev, -⟩ := hu.tree.fwd q k hk
    exact ⟨k', hk', by rw [hlev]; exact hL⟩
  · rw [hget] at he
    rw [hu.item]
    exact h.names id e he
  · rw [hu.map]
    exact h.good
  · rw [hget] at he he'
    exact h.inj id id' e he he'

theorem Unlinked.backPtr (hb : BackPtr conf s) (hu : Unlinked conf s d s1) : BackPtr conf s1 := by
  intro id e he
  rw [getdatanode, hu.map] at he
  obtain ⟨q, k, data, hq, hk, hL, hdata, hin⟩ := hb id e he
  obtain ⟨k', hk', hrc, -, -, hlev, -⟩ := hu.tree.fwd q k hk
  exact ⟨q, k', data, by rw [hu.cell, hq], hk', by rw [hlev]; exact hL, by rw [hu.item, hdata], by rw [hrc]; exact hin⟩

/-- The lists without the removed node. -/
theorem Unlinked.lists (hS : Housed s) (hu : Unlinked conf s d s1) (q : Nat) :
    ∃ l, Library.Chain s1.next (s1.head q) l ∧ ∀ e : Nat, e ∈ l ↔ s1.cell e = some q ∧ e ≠ d := by
  obtain ⟨l, hl, hmem⟩ := hS.lists q
  have hrem := hl.remove hu.next
  rw [← hu.head] at hrem
  refine ⟨_, hrem, fun e => ?_⟩
  rw [List.mem_filter, hmem, hu.cell]
  simp

/-- The shared data after a step of a call is in order, no id is lost, and the worker has the node of its id in hand or
has stored it. -/
structure StepOk (conf : Conf) (op : SetItem) (s s' : NlaCoreData) (next : Option Phase) : Prop where
  ok : SharedOk conf s'
  kept : ∀ id e, s.getdatanode id = some e → s'.getdatanode id = some e
  node : ∀ phase d, next = some phase → phase.node = some d → s'.getdatanode op.id = some d
  stored : next = none → ∃ d, s'.getdatanode op.id = some d

/-- A step that ends a call, from the shared data `s0`, which has the same ids as `s`. -/
theorem stepOk_end {s0 : NlaCoreData} {data : NlaDataItem} (h : SharedOk conf s)
    (hin : isLocInRC initRootRect op.loc = true) (hlen : op.id.bytes.length ≤ dataIdMaxLen)
    (hget : s0.getdatanode = s.getdatanode) (heff : Effect conf s0 op s' d data) (hinv : Inv conf s0)
    (hback : BackPtr conf s0) (hhoused : Housed s') (hsame : ∀ e, s.getdatanode op.id = some e → e = d) :
    StepOk conf op s s' none where
  ok := by
    refine ⟨heff.inv hinv, (heff.backPtr_iff hinv hback).mpr hin, hhoused, fun id e he => ?_⟩
    rw [heff.get] at he
    by_cases hid : id = op.id
    · rw [hid]
      exact hlen
    · rw [Function.update_of_ne hid, hget] at he
      exact h.ids id e he
  kept := by
    intro id e he
    rw [heff.get, hget]
    by_cases hid : id = op.id
    · subst hid
      rw [Function.update_self, hsame e he]
    · rw [Function.update_of_ne hid, he]
  node := fun _ _ hc => by cases hc
  stored := fun _ => ⟨d, heff.toWrote.get_self⟩

/-- A step outside the lock changes nothing. -/
theorem stepOk_read {phase : Phase} (h : SharedOk conf s)
    (hnode : ∀ d, phase.node = some d → s.getdatanode op.id = some d) :
    StepOk conf op s s (some phase) where
  ok := h
  kept := fun _ _ he => he
  node := by
    intro phase' d hp hd
    cases hp
    exact hnode d hd
  stored := fun hc => by cases hc

/-- The insertion of an id that is absent is the creating branch of one call. -/
theorem stepOk_insert (h : SharedOk conf s) (hin : isLocInRC initRootRect op.loc = true)
    (hlen : op.id.bytes.length ≤ dataIdMaxLen) (hnone : s.getdatanode op.id = none)
    (hc : s.createItem conf .succeed op.id op.loc op.iStatus op.iType op.now = .ok s') : StepOk conf op s s' none := by
  obtain ⟨s1, hadd, rfl⟩ : ∃ s1, Added conf s.dataNodes.length op.loc s.pMapRoot (s.withItem op) s1 ∧
      s' = s1.setTime s.dataNodes.length op.now := by
    obtain ⟨s1, hs1, hadd⟩ := h.inv.sound.createItem_ok conf op
    exact ⟨s1, hadd, Except.ok.inj (hc.symm.trans hs1)⟩
  have heff := effect_create h.inv hnone hadd
  refine stepOk_end h hin hlen rfl heff h.inv h.back ⟨held_wrote h.housed.held heff.toWrote, ?_⟩ fun e he => ?_
  · exact h.housed.lists_create (placed_create h.inv hadd).lists hin
  · rw [hnone] at he
    cases he

theorem stepOk_write {q : Nat} {k : NlaMapNode} (h : SharedOk conf s) (hin : isLocInRC initRootRect op.loc = true)
    (hlen : op.id.bytes.length ≤ dataIdMaxLen) (hd : s.getdatanode op.id = some d) (hq : s.cell d = some q)
    (hk : s.mapNodes[q]? = some k) (hkin : isLocInRC k.rc op.loc = true) :
    StepOk conf op s ((s.setLoc d op.loc).setTime d op.now) none := by
  obtain ⟨data, heff⟩ := effect_inPlace h.inv hd hq hk hkin
  obtain ⟨old, hold⟩ := h.inv.item hd
  obtain ⟨hnext, hcell, -⟩ := views_inPlace hold op.loc op.now
  refine stepOk_end h hin hlen rfl heff h.inv h.back ⟨held_wrote h.housed.held heff.toWrote, fun r => ?_⟩ fun e he => ?_
  · rw [hnext, hcell]
    exact h.housed.lists r
  · rw [hd] at he
    exact (Option.some.inj he).symm

/-- A correct removal and the insertion behind it, in one critical section. -/
theorem stepOk_relocate (h : SharedOk conf s) (hin : isLocInRC initRootRect op.loc = true)
    (hlen : op.id.bytes.length ≤ dataIdMaxLen) (hd : s.getdatanode op.id = some d) (hu : Unlinked conf s d s1)
    (ha : (s1.setLoc d op.loc).adddatanode conf .succeed (conf.nMapMaxLevel.toNat + 1) s1.pMapRoot d = .ok s2) :
    StepOk conf op s (s2.setTime d op.now) none := by
  have hinv := hu.inv h.inv
  have hget : s1.getdatanode = s.getdatanode := funext fun id => by rw [getdatanode, hu.map, getdatanode]
  have hd1 : s1.getdatanode op.id = some d := by rw [hget, hd]
  obtain ⟨old, hold⟩ := hinv.item hd1
  obtain ⟨s2', hs2', hadd⟩ := hinv.sound.adddatanode_setLoc hold conf op.loc
  obtain rfl := Except.ok.inj (ha.symm.trans hs2')
  obtain ⟨data, heff⟩ := effect_move hinv hd1 hadd
  refine stepOk_end h hin hlen hget heff hinv (hu.backPtr h.back) ⟨?_, ?_⟩ fun e he => ?_
  · have hheld : ∀ e : Nat, e < s1.dataNodes.length → ∃ id, s1.getdatanode id = some e := by
      rw [hget, hu.length]
      exact h.housed.held
    exact held_wrote hheld heff.toWrote
  · exact (placed_move hinv hold hadd).lists.lists hin (hu.lists h.housed)
  · rw [hd] at he
    exact (Option.some.inj he).symm

theorem OpStep.stepOk {phase : Phase} {next : Option Phase} (h : SharedOk conf s)
    (hin : isLocInRC initRootRect op.loc = true) (hlen : op.id.bytes.length ≤ dataIdMaxLen)
    (hnode : ∀ d, phase.node = some d → s.getdatanode op.id = some d)
    (habsent : phase = .absent → s.getdatanode op.id = none)
    (hplace : ∀ d, phase = .inPlace d → ∃ (q : Nat) (k : NlaMapNode), s.cell d = some q ∧ s.mapNodes[q]? = some k ∧
      isLocInRC k.rc op.loc = true) (hs : OpStep conf op s phase s' next) : StepOk conf op s s' next := by
  cases hs with
  | lookupNone hg => exact stepOk_read h fun d hd => by cases hd
  | lookupSome hg =>
      refine stepOk_read h fun d hd => ?_
      cases hd
      exact hg
  | testIn _ => exact stepOk_read h hnode
  | testOut _ => exact stepOk_read h hnode
  | insert hc => exact stepOk_insert h hin hlen (habsent rfl) hc
  | write =>
      obtain ⟨q, k, hq, hk, hkin⟩ := hplace _ rfl
      exact stepOk_write h hin hlen (hnode _ rfl) hq hk hkin
  | relocate hu ha => exact stepOk_relocate h hin hlen (hnode _ rfl) hu ha

/-! ## Runs -/

/-- A call the handler makes: its location is in the root rectangle, and its id has at most 32 bytes. -/
def SetItem.Ok (op : SetItem) : Prop := isLocInRC initRootRect op.loc = true ∧ op.id.bytes.length ≤ dataIdMaxLen

/-- The invariant of the configurations of a run in time, from workers with the calls `todos`. -/
structure WorkersOk (conf : Conf) (todos : List (List SetItem)) (c : Cfg) : Prop where
  shared : SharedOk conf c.shared
  calls : ∀ w ∈ c.workers, ∀ op ∈ w.todo, op.Ok
  nodes : ∀ w ∈ c.workers, ∀ op rest d, w.todo = op :: rest → w.phase.node = some d →
    c.shared.getdatanode op.id = some d
  stored : ∀ (i : Nat) (ops : List SetItem), todos[i]? = some ops → ∃ w, c.workers[i]? = some w ∧
    ∀ op ∈ ops, op ∈ w.todo ∨ ∃ d, c.shared.getdatanode op.id = some d

variable {todos : List (List SetItem)} {c c' : Cfg} {i : Nat}

theorem workersOk_start (h0 : 0 < iHashSize) (hok : ∀ ops ∈ todos, ∀ op ∈ ops, op.Ok) :
    WorkersOk conf todos (startCfg iHashSize h0 todos) where
  shared := sharedOk_init conf iHashSize h0
  calls := by
    intro w hw
    rw [startCfg, List.mem_map] at hw
    obtain ⟨ops, hops, rfl⟩ := hw
    exact hok ops hops
  nodes := by
    intro w hw op rest d _ hd
    rw [startCfg, List.mem_map] at hw
    obtain ⟨ops, hops, rfl⟩ := hw
    cases hd
  stored := by
    intro i ops hops
    refine ⟨{ phase := .idle, todo := ops }, ?_, fun op hop => Or.inl hop⟩
    rw [startCfg, List.getElem?_map, hops]
    rfl

theorem Worker.mem_todo_after {w : Worker} {next : Option Phase} {op : SetItem} (h : op ∈ (w.after next).todo) :
    op ∈ w.todo := by
  cases next with
  | none => exact List.mem_of_mem_tail h
  | some phase => exact h

/-- **A step in time keeps the invariant.** -/
theorem Step.workersOk (h : WorkersOk conf todos c) (ht : InTime c i) (hs : Step conf i c c') :
    WorkersOk conf todos c' := by
  cases hs with
  | @mk w op rest s' next hw htodo hop =>
      have hmem := List.mem_of_getElem? hw
      obtain ⟨hin, hlen⟩ := h.calls w hmem op (by rw [htodo]; exact List.mem_cons_self)
      obtain ⟨habsent, hplace⟩ := ht w op rest hw htodo
      have hok := hop.stepOk h.shared hin hlen (fun d hd => h.nodes w hmem op rest d htodo hd) habsent hplace
      refine ⟨hok.ok, fun v hv => ?_, fun v hv op' rest' d htodo' hd => ?_, fun j ops hops => ?_⟩
      · rcases List.mem_or_eq_of_mem_set hv with hv | rfl
        · exact h.calls v hv
        · exact fun op' hop' => h.calls w hmem op' (Worker.mem_todo_after hop')
      · rcases List.mem_or_eq_of_mem_set hv with hv | rfl
        · exact hok.kept op'.id d (h.nodes v hv op' rest' d htodo' hd)
        · cases next with
          | none => cases hd
          | some phase =>
              have hhead : op = op' := by
                have : w.todo = op' :: rest' := htodo'
                rw [htodo] at this
                exact (List.cons.inj this).1
              rw [← hhead]
              exact hok.node phase d rfl hd
      · obtain ⟨v, hv, hall⟩ := h.stored j ops hops
        have hkept : ∀ op' : SetItem, (∃ d, c.shared.getdatanode op'.id = some d) →
            ∃ d, s'.getdatanode op'.id = some d := by
          rintro op' ⟨d, hd⟩
          exact ⟨d, hok.kept op'.id d hd⟩
        by_cases hji : j = i
        · subst hji
          obtain rfl := Option.some.inj (hw.symm.trans hv)
          have hlt := (List.getElem?_eq_some_iff.mp hw).1
          refine ⟨w.after next, by rw [List.getElem?_set_self hlt], fun op' hop' => ?_⟩
          rcases hall op' hop' with htd | hst
          · cases next with
            | some phase => exact Or.inl htd
            | none =>
                rw [htodo] at htd
                rcases List.mem_cons.mp htd with rfl | htd
                · exact Or.inr (hok.stored rfl)
                · left
                  change op' ∈ w.todo.tail
                  rw [htodo]
                  exact htd
          · exact Or.inr (hkept op' hst)
        · exact ⟨v, by rw [List.getElem?_set_ne (Ne.symm hji), hv], fun op' hop' => (hall op' hop').imp id (hkept op')⟩

theorem Reachable.workersOk (h0 : 0 < iHashSize) (hok : ∀ ops ∈ todos, ∀ op ∈ ops, op.Ok)
    (hr : Reachable conf InTime (startCfg iHashSize h0 todos) c) : WorkersOk conf todos c := by
  induction hr with
  | init => exact workersOk_start h0 hok
  | step _ ht hs ih => exact hs.workersOk ih ht

/-- **Workers whose steps are in time do not duplicate or misplace items**: in every configuration they reach the shared
data is consistent, and when all calls are done every id has its node. -/
theorem workers_consistent (h0 : 0 < iHashSize) (hok : ∀ ops ∈ todos, ∀ op ∈ ops, op.Ok)
    (hr : Reachable conf InTime (startCfg iHashSize h0 todos) c) : Consistent conf c.shared ∧
      ((∀ w ∈ c.workers, w.todo = []) → ∀ ops ∈ todos, ∀ op ∈ ops, ∃ d, c.shared.getdatanode op.id = some d) := by
  have h := hr.workersOk h0 hok
  refine ⟨h.shared.consistent, fun hdone ops hops op hop => ?_⟩
  obtain ⟨i, hi⟩ := List.mem_iff_getElem?.mp hops
  obtain ⟨w, hw, hall⟩ := h.stored i ops hi
  rcases hall op hop with htodo | hst
  · rw [hdone w (List.mem_of_getElem? hw)] at htodo
    exact absurd htodo List.not_mem_nil
  · exact hst

/-- Two workers insert two items, after both did their lookups. -/
theorem workers_consistent_two : ∃ c,
    Reachable ⟨1⟩ InTime (startCfg 1 Nat.one_pos [[setA 5 5], [setB 5 5]]) c ∧ Consistent ⟨1⟩ c.shared ∧
      ∃ d e, c.shared.getdatanode (setA 5 5).id = some d ∧ c.shared.getdatanode (setB 5 5).id = some e := by
  have hok : ∀ ops ∈ [[setA 5 5], [setB 5 5]], ∀ op ∈ ops, op.Ok := by
    simp only [List.forall_mem_cons, SetItem.Ok]
    decide
  have hin : ∀ {c : Cfg} {i : Nat} {w : Worker} {op : SetItem} {rest : List SetItem}, c.workers[i]? = some w →
      w.todo = op :: rest → w.phase.node = none → c.shared.getdatanode op.id = none → InTime c i := by
    intro c i w op rest hw htodo hphase habsent w' op' rest' hw' htodo'
    obtain rfl := Option.some.inj (hw.symm.trans hw')
    obtain ⟨rfl, -⟩ := List.cons.inj (htodo.symm.trans htodo')
    refine ⟨fun _ => habsent, fun d hd => ?_⟩
    rw [hd] at hphase
    cases hphase
  have hrun : ∃ c, Reachable ⟨1⟩ InTime (startCfg 1 Nat.one_pos [[setA 5 5], [setB 5 5]]) c ∧
      ∀ w ∈ c.workers, w.todo = [] := by
    refine ⟨_, .step (.step (.step (.step .init (hin rfl rfl rfl rfl) (.mk (i := 0) rfl rfl (.lookupNone rfl)))
      (hin rfl rfl rfl rfl) (.mk (i := 1) rfl rfl (.lookupNone rfl))) (hin rfl rfl rfl rfl)
      (.mk (i := 0) rfl rfl (.insert rfl))) (hin rfl rfl rfl rfl) (.mk (i := 1) rfl rfl (.insert rfl)), fun w hw => ?_⟩
    simp only [Worker.after, startCfg, List.map_cons, List.map_nil, List.set_cons_zero, List.set_cons_succ,
      List.mem_cons, List.not_mem_nil, or_false] at hw
    rcases hw with rfl | rfl
    · rfl
    · rfl
  obtain ⟨c, hr, hdone⟩ := hrun
  obtain ⟨hcons, hstored⟩ := workers_consistent Nat.one_pos hok hr
  obtain ⟨d, hd⟩ := hstored hdone [setA 5 5] (by simp) (setA 5 5) (by simp)
  obtain ⟨e, he⟩ := hstored hdone [setB 5 5] (by simp) (setB 5 5) (by simp)
  exact ⟨c, hr, hcons, d, e, hd, he⟩

/-- Two workers set one id: both look it up before either inserts it, and the first node stays in its list without being
held by the id map. -/
theorem workers_duplicate : ∃ c,
    Reachable ⟨1⟩ (fun _ _ => True) (startCfg 1 Nat.one_pos [[setA 5 5], [setA 5 5]]) c ∧
      (∀ w ∈ c.workers, w.todo = []) ∧ ¬ Consistent ⟨1⟩ c.shared := by
  refine ⟨_, .step (.step (.step (.step .init trivial (.mk (i := 0) rfl rfl (.lookupNone rfl))) trivial
    (.mk (i := 1) rfl rfl (.lookupNone rfl))) trivial (.mk (i := 0) rfl rfl (.insert rfl))) trivial
    (.mk (i := 1) rfl rfl (.insert rfl)), fun w hw => ?_, fun h => ?_⟩
  · simp only [Worker.after, startCfg, List.map_cons, List.map_nil, List.set_cons_zero, List.set_cons_succ,
      List.mem_cons, List.not_mem_nil, or_false] at hw
    rcases hw with rfl | rfl
    · rfl
    · rfl
  · exact absurd (h.unique (setA 5 5).id 1 0 4 _ rfl (.step .here) rfl rfl) (by decide)

/-! ## No worker is stuck -/

/-- A removal that is correct: every pointer to `d` is led to its successor. -/
def NlaCoreData.unlinkFrom (s : NlaCoreData) (d : DataPtr) : NlaCoreData :=
  { s with
    mapNodes := s.mapNodes.map fun m => if m.pDataNode = some d then { m with pDataNode := s.next d } else m
    dataNodes := s.dataNodes.mapIdx fun e n =>
      { n with next := if e = d then none else if n.next = some d then s.next d else n.next } }

theorem unlinked_unlinkFrom (h : Inv conf s) (d : Nat) : Unlinked conf s d (s.unlinkFrom d) where
  tree := by
    refine ⟨fun p m hm => ?_, List.length_map _⟩
    refine ⟨_, by rw [unlinkFrom, List.getElem?_map, hm, Option.map_some], ?_⟩
    split_ifs with hd
    · refine ⟨rfl, rfl, rfl, rfl, fun hL => ?_⟩
      rw [(h.shape.node p m hm).inner hL] at hd
      cases hd
    · exact ⟨rfl, rfl, rfl, rfl, fun _ => rfl⟩
  root := rfl
  map := rfl
  length := List.length_mapIdx
  item := by
    funext e
    rw [item, unlinkFrom, List.getElem?_mapIdx, Option.map_map, item]
    rfl
  cell := by
    funext e
    rw [cell, unlinkFrom, List.getElem?_mapIdx, cell]
    cases s.dataNodes[e]? <;> rfl
  head := by
    intro q
    have hget : (s.unlinkFrom d).mapNodes[q]? = (s.mapNodes[q]?).map fun m =>
        if m.pDataNode = some d then { m with pDataNode := s.next d } else m := List.getElem?_map
    cases hq : s.mapNodes[q]? with
    | none => simp [NlaCoreData.head, hget, hq]
    | some m =>
        rw [head_eq hq, NlaCoreData.head, hget, hq, Option.map_some, Option.bind_some]
        split_ifs <;> rfl
  next := by
    intro e
    have hget : (s.unlinkFrom d).dataNodes[e]? = (s.dataNodes[e]?).map fun n =>
        { n with next := if e = d then none else if n.next = some d then s.next d else n.next } := List.getElem?_mapIdx
    have hnext : (s.unlinkFrom d).next e = ((s.unlinkFrom d).dataNodes[e]?).bind NlaDataNode.next := rfl
    have hold : s.next e = (s.dataNodes[e]?).bind NlaDataNode.next := rfl
    rw [hnext, hold, hget]
    cases s.dataNodes[e]? with
    | none => simp
    | some n => rfl

theorem OpStep.exists (h : SharedOk conf s) (op : SetItem) {phase : Phase}
    (hnode : ∀ d, phase.node = some d → s.getdatanode op.id = some d) : ∃ s' next, OpStep conf op s phase s' next := by
  cases phase with
  | idle =>
      cases hg : s.getdatanode op.id with
      | none => exact ⟨_, _, .lookupNone hg⟩
      | some d => exact ⟨_, _, .lookupSome hg⟩
  | absent =>
      obtain ⟨s1, hs1, -⟩ := h.inv.sound.createItem_ok conf op
      exact ⟨_, _, .insert hs1⟩
  | found d =>
      obtain ⟨q, k, data, hq, hk, -, hdata, -⟩ := h.back op.id d (hnode d rfl)
      have hlt := lt_of_item hdata
      have hn : s.dataNodes[d]? = some s.dataNodes[d] := List.getElem?_eq_getElem hlt
      have hcell : s.inCell d op.loc = .ok (isLocInRC k.rc op.loc) := by
        rw [NlaCoreData.cell, hn, Option.bind_some] at hq
        simp only [inCell, dataAt_ok hn, hq, nonNull, bind, Except.bind, mapAt_ok hk, pure, Except.pure]
      cases hin : isLocInRC k.rc op.loc with
      | true => exact ⟨_, _, .testIn (by rw [hcell, hin])⟩
      | false => exact ⟨_, _, .testOut (by rw [hcell, hin])⟩
  | inPlace d => exact ⟨_, _, .write⟩
  | move d =>
      have hu := unlinked_unlinkFrom h.inv d
      obtain ⟨data, hdata⟩ := h.inv.item (hnode d rfl)
      obtain ⟨s1, hs1, -⟩ := (hu.inv h.inv).sound.adddatanode_setLoc (by rw [hu.item, hdata]) conf op.loc
      exact ⟨_, _, .relocate hu hs1⟩

/-- A worker with a call before it has a step. -/
theorem reachable_exists_step (h0 : 0 < iHashSize) (hok : ∀ ops ∈ todos, ∀ op ∈ ops, op.Ok)
    (hr : Reachable conf InTime (startCfg iHashSize h0 todos) c) {w : Worker} (hw : c.workers[i]? = some w)
    (htodo : w.todo ≠ []) : ∃ c', Step conf i c c' := by
  have h := hr.workersOk h0 hok
  obtain ⟨op, rest, hcons⟩ := List.exists_cons_of_ne_nil htodo
  obtain ⟨s', next, hop⟩ := OpStep.exists h.shared op fun d hd => h.nodes w (List.mem_of_getElem? hw) op rest d hcons hd
  exact ⟨_, .mk hw hcons hop⟩

end Lookaround
