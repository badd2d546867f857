import Lookaround.Server
import Lookaround.Simulation

/-!
# No update is lost

Workers that set different ids, step by step with the lock: in every order of their steps no call is stopped, and in the end
the table has each call of each worker.

* `OwnIds` : no two workers set one id;
* `Elsewhere` : what a step of a call leaves alone, besides its id and the node it has in hand;
* `Current` : what a call has done to the record of its id, phase by phase;
* `Updated`, `Updated.step` : the records of the workers' ids along a run with atomic sections;
* `spin_no_lost_update` : the runs with the lock.
-/

namespace Lookaround

open NlaCoreData Library

variable {conf : Conf} {ncpu i : Nat} {op op' : SetItem} {s s' : NlaCoreData} {a a' : AtomicCfg} {c c' : SpinCfg}
  {job : Job} {d : Nat} {id : CStr}

/-! ## What a step leaves alone -/

/-- The ids other than that of the call, and the nodes other than `d`, keep what they have. -/
structure Elsewhere (op : SetItem) (d : DataPtr) (s s' : NlaCoreData) : Prop where
  get : ∀ id, id ≠ op.id → s'.getdatanode id = s.getdatanode id
  self : s'.getdatanode op.id = s.getdatanode op.id ∨ s'.getdatanode op.id = some d
  item : ∀ e : Nat, e ≠ d → s'.item e = s.item e

theorem NlaCoreData.item_modifyData {f : NlaDataNode → NlaDataNode} {e : Nat} (he : e ≠ d) :
    (s.modifyData d f).item e = s.item e := by
  rw [NlaCoreData.item, dataNodes_modifyData, if_neg (Ne.symm he), NlaCoreData.item]

/-- The node a step may write: the one in hand, or a new one. -/
def AtomicPhase.target (s : NlaCoreData) (phase : AtomicPhase) : DataPtr := phase.node.getD s.dataNodes.length

theorem OutStep.elsewhere {phase : OutPhase} {next : OutNext} (h : OutStep op s phase s' next) :
    Elsewhere op (AtomicPhase.target s (.out phase)) s s' := by
  have hget : ∀ id, s'.getdatanode id = s.getdatanode id := by
    intro id
    rw [h.eq_apply, getdatanode, Touch.pId2dataMap_apply, getdatanode]
  refine ⟨fun id _ => hget id, Or.inl (hget op.id), fun e he => ?_⟩
  · cases h with
    | lookupNone _ => rfl
    | lookupSome _ => rfl
    | alloc =>
        rw [show (s.withNewNode op).item = _ from (views_withItem s op).2.2]
        exact Function.update_of_ne he _ _
    | testIn _ => rfl
    | testOut _ => rfl
    | write => exact item_modifyData he
    | stamp => exact item_modifyData he

/-- `adddatanode` writes no record. -/
theorem Added.item_eq {loc : Nla2dloc} {p : Nat} (ha : Added conf d loc p s s') (hd : d < s.dataNodes.length) :
    s'.item = s.item := by
  induction ha with
  | @leaf p s m hm hL => exact (views_link (s := s.bump p) (p := p) m.pDataNode hd).2.2
  | out hm hL hout => exact (views_opened hm).2.2.2
  | @down p c s s' m m' k i hm _ _ _ _ _ _ _ _ _ ih =>
      rw [ih (by rw [dataNodes_opened]; exact hd)]
      exact (views_opened hm).2.2.2

theorem Heap.adddatanode_item (h : Heap s) (hd : d < s.dataNodes.length)
    (hs : s.adddatanode conf .succeed (conf.nMapMaxLevel.toNat + 1) s.pMapRoot d = .ok s') : s'.item = s.item := by
  obtain ⟨m, hm, -, hlev, -⟩ := h.grid.top
  have hn : s.dataNodes[d]? = some s.dataNodes[d] := List.getElem?_eq_getElem hd
  have hfuel : (conf.nMapMaxLevel - m.iLevel).toNat < conf.nMapMaxLevel.toNat + 1 := by omega
  obtain ⟨t, ht, hadd⟩ := adddatanode_added h.grid h.heads hm hn hfuel
  obtain rfl := Except.ok.inj (hs.symm.trans ht)
  exact hadd.item_eq hd

/-- The ids and the records after the section of a new item. -/
theorem sectionOf_insert (h : Heap s) (hg : s.pId2dataMap.Good) (hd : d < s.dataNodes.length)
    (hs : sectionOf conf op (.insert d) s = .ok s') :
    s'.getdatanode = Function.update s.getdatanode op.id (some d) ∧ s'.item = s.item := by
  have hput : Heap (s.putNode op d) := ⟨h.grid, h.heads, h.cells⟩
  refine ⟨?_, hput.adddatanode_item hd hs⟩
  obtain ⟨t, ht, -, hrest⟩ := sectionOf_ok h conf op (.insert d) hd
  obtain rfl := Except.ok.inj (hs.symm.trans ht)
  rcases rest_section hrest with ⟨-, hk⟩ | ⟨hc, -⟩
  · funext id
    rw [getdatanode, hk.map]
    by_cases hid : id = op.id
    · rw [hid, Function.update_self]
      exact smGetPtrvalue_put_self hg (smPutPtrvalue_ok s.pId2dataMap op.id (some d))
    · rw [Function.update_of_ne hid]
      exact smGetPtrvalue_put_of_ne true true s.pId2dataMap hid (some d)
  · cases hc

/-- The ids and the records after the section of a moved one. -/
theorem sectionOf_move (h : Heap s) (hd : d < s.dataNodes.length) (hs : sectionOf conf op (.move d) s = .ok s') :
    s'.getdatanode = s.getdatanode ∧ s'.item = (s.setLoc d op.loc).item := by
  obtain ⟨t, ht, -, hrest⟩ := sectionOf_ok h conf op (.move d) hd
  obtain rfl := Except.ok.inj (hs.symm.trans ht)
  refine ⟨?_, ?_⟩
  · funext id
    rcases rest_section hrest with ⟨hc, -⟩ | ⟨-, hk⟩
    · cases hc
    · rw [getdatanode, hk.map, getdatanode]
  · rw [sectionOf, removeDatanodeFromMap_some] at hs
    exact (h.apply (.loc d op.loc)).adddatanode_item (by rw [Touch.apply, setLoc, length_modifyData]; exact hd) hs

theorem elsewhere_whole (h : Heap s) (hg : s.pId2dataMap.Good) (hd : job.node < s.dataNodes.length)
    (hs : sectionOf conf op job s = .ok s') : Elsewhere op job.node s s' := by
  cases job with
  | insert d =>
      obtain ⟨hget, hitem⟩ := sectionOf_insert h hg hd hs
      refine ⟨fun id hid => ?_, Or.inr ?_, fun e _ => by rw [hitem]⟩
      · rw [hget, Function.update_of_ne hid]
      · rw [hget, Function.update_self]
  | move d =>
      obtain ⟨hget, hitem⟩ := sectionOf_move h hd hs
      refine ⟨fun id _ => by rw [hget], Or.inl (by rw [hget]), fun e he => ?_⟩
      rw [hitem]
      exact item_modifyData he

/-! ## The record of a call -/

variable {t : Table}

/-- What the call `op` has done to the record of its id, which the table `t` had before it. -/
def Current (s : NlaCoreData) (t : Table) (op : SetItem) : AtomicPhase → Prop
  | .out .idle => s.table op.id = t op.id
  | .out .absent => s.getdatanode op.id = none ∧ t op.id = none
  | .out (.found d) => s.getdatanode op.id = some d ∧ s.item d = t op.id
  | .out (.inPlace d) => s.getdatanode op.id = some d ∧ s.item d = t op.id
  | .out (.stamp d) => s.getdatanode op.id = some d ∧ ∃ data, s.item d = some data ∧
      t.set op op.id = some { data with lastUpdateTime := op.now }
  | .pending (.insert d) => s.getdatanode op.id = none ∧ t op.id = none ∧
      s.item d = some (newDataNode op.id op.loc op.iStatus op.iType).data
  | .pending (.move d) => s.getdatanode op.id = some d ∧ s.item d = t op.id

/-- A node that an id has is in hand for that id only, or it is about to be inserted. -/
theorem Current.node {phase : AtomicPhase} (h : Current s t op phase) (hd : phase.node = some d) :
    s.getdatanode op.id = some d ∨ phase = .pending (.insert d) := by
  cases phase with
  | out phase =>
      cases phase with
      | idle => cases hd
      | absent => cases hd
      | found e =>
          cases hd
          exact Or.inl h.1
      | inPlace e =>
          cases hd
          exact Or.inl h.1
      | stamp e =>
          cases hd
          exact Or.inl h.1
  | pending job =>
      cases job with
      | insert e =>
          cases hd
          exact Or.inr rfl
      | move e =>
          cases hd
          exact Or.inl h.1

/-- The record of an id that a step does not touch. -/
theorem Elsewhere.table (h : Elsewhere op d s s') (hid : id ≠ op.id) (hne : s.getdatanode id ≠ some d) :
    s'.table id = s.table id := by
  unfold NlaCoreData.table
  rw [h.get id hid]
  cases he : s.getdatanode id with
  | none => rfl
  | some e =>
      rw [Option.bind_some, Option.bind_some]
      apply h.item
      rintro rfl
      exact hne he

/-- A step of another worker, with another id and another node in hand. -/
theorem Current.elsewhere {phase : AtomicPhase} (h : Current s t op phase) (he : Elsewhere op' d s s')
    (hid : op.id ≠ op'.id) (hne : s.getdatanode op.id ≠ some d) (hhand : phase.node ≠ some d) :
    Current s' t op phase := by
  have hget := he.get op.id hid
  have hitem : ∀ e : Nat, phase.node = some e → s'.item e = s.item e := by
    intro e hnode
    apply he.item
    rintro rfl
    exact hhand hnode
  cases phase with
  | out phase =>
      cases phase with
      | idle => exact (he.table hid hne).trans h
      | absent => exact ⟨hget.trans h.1, h.2⟩
      | found e => exact ⟨hget.trans h.1, (hitem e rfl).trans h.2⟩
      | inPlace e => exact ⟨hget.trans h.1, (hitem e rfl).trans h.2⟩
      | stamp e =>
          obtain ⟨h1, data, h2, h3⟩ := h
          exact ⟨hget.trans h1, data, (hitem e rfl).trans h2, h3⟩
  | pending job =>
      cases job with
      | insert e => exact ⟨hget.trans h.1, h.2.1, (hitem e rfl).trans h.2.2⟩
      | move e => exact ⟨hget.trans h.1, (hitem e rfl).trans h.2⟩

theorem NlaCoreData.exists_item (h : d < s.dataNodes.length) : ∃ data, s.item d = some data :=
  ⟨_, item_of_getElem? (List.getElem?_eq_getElem h)⟩

/-- The location is written, in place or by a move, and the time is still to come. -/
theorem current_setLoc (hd : d < s.dataNodes.length) (hold : s.item d = t op.id) (hget : s'.getdatanode op.id = some d)
    (hitem : s'.item = (s.setLoc d op.loc).item) : Current s' t op (.out (.stamp d)) := by
  obtain ⟨old, ho⟩ := exists_item hd
  obtain ⟨-, -, hset⟩ := views_setLoc ho op.loc
  refine ⟨hget, { old with loc := op.loc }, ?_, ?_⟩
  · rw [hitem, hset, Function.update_self]
  · rw [Table.set, Function.update_self, ← hold, ho, Option.elim_some]

/-- A step of the call outside the lock. -/
theorem Current.out {phase : OutPhase} {next : OutNext} {phase' : AtomicPhase} (h : Current s t op (.out phase))
    (hlt : ∀ e : Nat, (AtomicPhase.out phase).node = some e → e < s.dataNodes.length) (hs : OutStep op s phase s' next)
    (hnext : next.toAtomic = some phase') : Current s' t op phase' := by
  cases hs with
  | lookupNone hn =>
      cases hnext
      exact ⟨hn, h.symm.trans (table_eq_none hn)⟩
  | @lookupSome d hd =>
      cases hnext
      exact ⟨hd, (table_eq_item hd).symm.trans h⟩
  | alloc =>
      cases hnext
      refine ⟨h.1, h.2, ?_⟩
      rw [show (s.withNewNode op).item = _ from (views_withItem s op).2.2]
      exact Function.update_self _ _ _
  | testIn _ =>
      cases hnext
      exact h
  | testOut _ =>
      cases hnext
      exact h
  | @write d =>
      cases hnext
      exact current_setLoc (hlt d rfl) h.2 h.1 rfl
  | stamp => cases hnext

/-- The last step of a call. -/
theorem Current.stamp (h : Current s t op (.out (.stamp d))) : (s.setTime d op.now).table op.id = t.set op op.id := by
  obtain ⟨hget, data, hdata, hset⟩ := h
  obtain ⟨-, -, hitem⟩ := views_setTime hdata op.now
  rw [table_eq_item (show (s.setTime d op.now).getdatanode op.id = some d from hget), hitem, Function.update_self, hset]

/-- The section of a call. -/
theorem Current.whole (h : Current s t op (.pending job)) (hheap : Heap s) (hg : s.pId2dataMap.Good)
    (hd : job.node < s.dataNodes.length) (hs : sectionOf conf op job s = .ok s') :
    Current s' t op (.out (.stamp job.node)) := by
  cases job with
  | insert d =>
      obtain ⟨hget, hitem⟩ := sectionOf_insert hheap hg hd hs
      refine ⟨by rw [hget, Function.update_self], _, by rw [hitem]; exact h.2.2, ?_⟩
      rw [Table.set, Function.update_self, h.2.1, Option.elim_none]
      rfl
  | move d =>
      obtain ⟨hget, hitem⟩ := sectionOf_move hheap hd hs
      exact current_setLoc hd h.2 (by rw [hget]; exact h.1) hitem

/-! ## Runs with atomic sections -/

/-- No two workers set one id. -/
def OwnIds (todos : List (List SetItem)) : Prop :=
  todos.Pairwise fun ops ops' => ∀ op ∈ ops, ∀ op' ∈ ops', op.id ≠ op'.id

/-- The table after a sequence of calls. -/
def Table.after (ops : List SetItem) : Table := ops.foldl Table.set Table.empty

theorem OwnIds.ne {todos : List (List SetItem)} {j : Nat} {ops ops' : List SetItem} (h : OwnIds todos) (hij : i ≠ j)
    (hi : todos[i]? = some ops) (hj : todos[j]? = some ops') (hop : op ∈ ops) (hop' : op' ∈ ops') : op.id ≠ op'.id := by
  obtain ⟨hli, rfl⟩ := List.getElem?_eq_some_iff.mp hi
  obtain ⟨hlj, rfl⟩ := List.getElem?_eq_some_iff.mp hj
  have hpair := List.pairwise_iff_getElem.mp h
  rcases Nat.lt_or_gt_of_ne hij with hlt | hlt
  · exact hpair i j hli hlj hlt op hop op' hop'
  · exact (hpair j i hlj hli hlt op' hop' op hop).symm

/-- The worker has done the calls `done`: the ids of its calls have the records of the table after them, but for the id of
the call it is in. -/
structure Mine (todos : List (List SetItem)) (s : NlaCoreData) (i : Nat) (w : Proc AtomicPhase SetItem)
    (done : List SetItem) : Prop where
  split : todos[i]? = some (done ++ w.todo)
  others : ∀ op ∈ done ++ w.todo, (∀ op' rest, w.todo = op' :: rest → op.id ≠ op'.id) →
    s.table op.id = Table.after done op.id
  current : ∀ op rest, w.todo = op :: rest → Current s (Table.after done) op w.phase
  idle : w.todo = [] → w.phase = .out .idle

/-- The records along a run with atomic sections. -/
structure Updated (todos : List (List SetItem)) (a : AtomicCfg) : Prop where
  length : a.procs.length = todos.length
  mine : ∀ (i : Nat) (w : Proc AtomicPhase SetItem), a.procs[i]? = some w → ∃ done, Mine todos a.shared i w done
  inj : ∀ (id id' : CStr) (d : Nat), a.shared.getdatanode id = some d → a.shared.getdatanode id' = some d → id = id'
  absent : ∀ id, (∀ ops ∈ todos, ∀ op ∈ ops, op.id ≠ id) → a.shared.getdatanode id = none

variable {todos : List (List SetItem)} {w : Proc AtomicPhase SetItem} {rest done : List SetItem}

theorem Table.after_append (done : List SetItem) (op : SetItem) : Table.after (done ++ [op]) = (Table.after done).set op := by
  rw [Table.after, List.foldl_append]
  rfl

theorem Table.set_of_ne (hid : id ≠ op.id) : t.set op id = t id := by
  rw [Table.set, Function.update_of_ne hid]

/-- The node a step may write belongs to no other id. -/
theorem Updated.target_id (h : Updated todos a) (hok : AtomicOk a) (hw : a.procs[i]? = some w) (htodo : w.todo = op :: rest)
    (hid : id ≠ op.id) : a.shared.getdatanode id ≠ some (w.phase.target a.shared) := by
  intro hd
  obtain ⟨done, hm⟩ := h.mine i w hw
  cases hnode : w.phase.node with
  | none =>
      rw [AtomicPhase.target, hnode] at hd
      exact absurd (hok.ids id _ hd) (lt_irrefl _)
  | some d =>
      rw [AtomicPhase.target, hnode] at hd
      rcases (hm.current op rest htodo).node hnode with hget | hpend
      · exact hid (h.inj id op.id d hd hget)
      · exact (hok.fresh i w d hw hpend).2.1 id hd

/-- Nor is it in the hand of another worker. -/
theorem Updated.target_hand {j : Nat} {v : Proc AtomicPhase SetItem} (hown : OwnIds todos) (h : Updated todos a)
    (hok : AtomicOk a) (hw : a.procs[i]? = some w) (htodo : w.todo = op :: rest) (hij : j ≠ i) (hv : a.procs[j]? = some v) :
    v.phase.node ≠ some (w.phase.target a.shared) := by
  intro hhand
  obtain ⟨done, hm⟩ := h.mine i w hw
  obtain ⟨done', hm'⟩ := h.mine j v hv
  cases hnode : w.phase.node with
  | none =>
      rw [AtomicPhase.target, hnode] at hhand
      exact absurd (hok.nodes j v _ hv hhand) (lt_irrefl _)
  | some d =>
      rw [AtomicPhase.target, hnode] at hhand
      cases htodo' : v.todo with
      | nil =>
          rw [hm'.idle htodo'] at hhand
          cases hhand
      | cons op' rest' =>
          have hne : op.id ≠ op'.id := by
            apply hown.ne (Ne.symm hij) hm.split hm'.split
            · simp [htodo]
            · simp [htodo']
          rcases (hm.current op rest htodo).node hnode with hget | hpend
          · rcases (hm'.current op' rest' htodo').node hhand with hget' | hpend'
            · exact hne (h.inj op.id op'.id d hget hget')
            · exact (hok.fresh j v d hv hpend').2.1 op.id hget
          · exact hij ((hok.fresh i w d hw hpend).2.2 j v hv hhand)

/-- Another worker's step. -/
theorem Mine.elsewhere (h : Mine todos s i w done) (he : Elsewhere op' d s s')
    (hid : ∀ op ∈ done ++ w.todo, op.id ≠ op'.id ∧ s.getdatanode op.id ≠ some d) (hhand : w.phase.node ≠ some d) :
    Mine todos s' i w done where
  split := h.split
  others := by
    intro op hop hne
    rw [he.table (hid op hop).1 (hid op hop).2]
    exact h.others op hop hne
  current := by
    intro op rest htodo
    have hop : op ∈ done ++ w.todo := by simp [htodo]
    exact (h.current op rest htodo).elsewhere he (hid op hop).1 (hid op hop).2 hhand
  idle := h.idle

/-- The worker's own step, inside a call. -/
theorem Mine.own {phase : AtomicPhase} (h : Mine todos s i w done) (htodo : w.todo = op :: rest) (he : Elsewhere op d s s')
    (hid : ∀ id, id ≠ op.id → s.getdatanode id ≠ some d) (hcur : Current s' (Table.after done) op phase) :
    Mine todos s' i { w with phase := phase } done where
  split := h.split
  others := by
    intro op' hop' hne
    have hne' := hne op rest htodo
    rw [he.table hne' (hid op'.id hne')]
    exact h.others op' hop' hne
  current := by
    intro op' rest' htodo'
    have hsame : op :: rest = op' :: rest' := htodo.symm.trans htodo'
    cases hsame
    exact hcur
  idle := by
    intro hnil
    rw [show w.todo = [] from hnil] at htodo
    cases htodo

/-- The end of a call. -/
theorem Mine.finish (h : Mine todos s i w done) (htodo : w.todo = op :: rest) (he : Elsewhere op d s s')
    (hid : ∀ id, id ≠ op.id → s.getdatanode id ≠ some d) (hset : s'.table op.id = (Table.after done).set op op.id) :
    Mine todos s' i { phase := .out .idle, todo := w.todo.tail } (done ++ [op]) := by
  have htail : w.todo.tail = rest := by rw [htodo, List.tail_cons]
  have hall : ∀ op' ∈ done ++ w.todo, s'.table op'.id = Table.after (done ++ [op]) op'.id := by
    intro op' hop'
    rw [Table.after_append]
    by_cases hne : op'.id = op.id
    · rw [hne, hset]
    · rw [he.table hne (hid op'.id hne), Table.set_of_ne hne]
      apply h.others op' hop'
      intro op'' rest' htodo'
      have hsame : op :: rest = op'' :: rest' := htodo.symm.trans htodo'
      cases hsame
      exact hne
  have happend : done ++ [op] ++ w.todo.tail = done ++ w.todo := by
    rw [htail, htodo, List.append_assoc, List.singleton_append]
  refine ⟨?_, ?_, ?_, fun _ => rfl⟩
  · rw [happend]
    exact h.split
  · intro op' hop' _
    rw [happend] at hop'
    exact hall op' hop'
  · intro op' rest' htodo'
    apply hall op'
    rw [htodo, ← htail]
    have : op' ∈ w.todo.tail := by
      rw [show w.todo.tail = op' :: rest' from htodo']
      exact List.mem_cons_self
    simp [this]

/-- No node gets a second id. -/
theorem Elsewhere.inj (he : Elsewhere op d s s') (hids : ∀ id, id ≠ op.id → s.getdatanode id ≠ some d)
    (h : ∀ (id id' : CStr) (e : Nat), s.getdatanode id = some e → s.getdatanode id' = some e → id = id')
    (id id' : CStr) (e : Nat) (hd : s'.getdatanode id = some e) (hd' : s'.getdatanode id' = some e) : id = id' := by
  have hone : ∀ id' : CStr, s'.getdatanode op.id = some e → s'.getdatanode id' = some e → op.id = id' := by
    intro id' hd hd'
    by_contra hne
    rw [he.get id' (Ne.symm hne)] at hd'
    rcases he.self with hself | hself
    · rw [hself] at hd
      exact hne (h op.id id' e hd hd')
    · rw [hself] at hd
      rw [← Option.some.inj hd] at hd'
      exact hids id' (Ne.symm hne) hd'
  by_cases hid : id = op.id
  · subst hid
    exact hone id' hd hd'
  · by_cases hid' : id' = op.id
    · subst hid'
      exact (hone id hd' hd).symm
    · rw [he.get id hid] at hd
      rw [he.get id' hid'] at hd'
      exact h id id' e hd hd'

/-- **A step with atomic sections keeps the records.** -/
theorem Updated.step (hown : OwnIds todos) (h : Updated todos a) (hok : AtomicOk a)
    (hs : Net.Step (.out .idle) (AtomicMoves conf) i a a') : Updated todos a' := by
  cases hs with
  | @mk w op rest s' next hw htodo hop =>
      obtain ⟨done, hm⟩ := h.mine i w hw
      have hcur := hm.current op rest htodo
      have hnodes := fun d => hok.nodes i w d hw
      have hids : ∀ id, id ≠ op.id → a.shared.getdatanode id ≠ some (w.phase.target a.shared) := fun id hid =>
        h.target_id hok hw htodo hid
      have hmem : op ∈ done ++ w.todo := by simp [htodo]
      have hboth : Elsewhere op (w.phase.target a.shared) a.shared s' ∧
          ∃ done', Mine todos s' i (w.after (.out .idle) next) done' := by
        generalize hphase : w.phase = phase at hop hcur hnodes hids
        cases hop with
        | @out phase _ next hout =>
            have he := hout.elsewhere
            refine ⟨he, ?_⟩
            cases hnext : next.toAtomic with
            | some phase' => exact ⟨done, hm.own htodo he hids (hcur.out hnodes hout hnext)⟩
            | none =>
                refine ⟨done ++ [op], hm.finish htodo he hids ?_⟩
                cases hout with
                | stamp => exact hcur.stamp
                | lookupNone _ => cases hnext
                | lookupSome _ => cases hnext
                | alloc => cases hnext
                | testIn _ => cases hnext
                | testOut _ => cases hnext
                | write => cases hnext
        | @whole job _ hsect =>
            have hd := hnodes job.node rfl
            have he := elsewhere_whole hok.heap hok.good hd hsect
            exact ⟨he, done, hm.own htodo he hids (hcur.whole hok.heap hok.good hd hsect)⟩
      obtain ⟨he, hmine⟩ := hboth
      refine ⟨List.length_set.trans h.length, fun j v hv => ?_, fun id id' d hd hd' => ?_, fun id hid => ?_⟩
      · rcases Net.procs_cases hv with ⟨rfl, rfl⟩ | ⟨hji, hv⟩
        · exact hmine
        · obtain ⟨done', hm'⟩ := h.mine j v hv
          refine ⟨done', hm'.elsewhere he (fun op' hop' => ?_) (h.target_hand hown hok hw htodo hji hv)⟩
          have hne : op'.id ≠ op.id := hown.ne hji hm'.split hm.split hop' hmem
          exact ⟨hne, hids op'.id hne⟩
      · exact he.inj hids h.inj id id' d hd hd'
      · have hne : id ≠ op.id := fun hc => hid _ (List.mem_of_getElem? hm.split) op hmem hc.symm
        rw [show s'.getdatanode id = _ from he.get id hne]
        exact h.absent id hid

theorem updated_start {iHashSize : Nat} (h0 : 0 < iHashSize) (todos : List (List SetItem)) :
    Updated todos (Net.start (.out .idle) (initCoreData iHashSize h0) todos) where
  length := List.length_map _
  mine := by
    intro i w hw
    have htable : (initCoreData iHashSize h0).table = Table.after [] := table_init h0
    rw [Net.start, List.getElem?_map, Option.map_eq_some_iff] at hw
    obtain ⟨ops, hops, rfl⟩ := hw
    refine ⟨[], hops, fun op _ _ => ?_, fun op rest _ => ?_, fun _ => rfl⟩
    · exact congrFun htable op.id
    · exact congrFun htable op.id
  inj := by
    intro id id' d hd
    rw [getdatanode, Net.start, initCoreData, smGetPtrvalue_smNew] at hd
    cases hd
  absent := by
    intro id _
    rw [getdatanode, Net.start, initCoreData, smGetPtrvalue_smNew]

/-! ## Runs with the lock -/

/-- Workers that set different ids do not have one node in hand. -/
theorem Updated.hand_unique {j : Nat} {w v : Proc SpinPhase SetItem} (hown : OwnIds todos) (h : Updated todos a)
    (hsim : Sim conf c a) (hw : c.procs[i]? = some w) (hv : c.procs[j]? = some v) (hnode : w.phase.abs.node = some d)
    (hnode' : v.phase.abs.node = some d) : j = i := by
  by_contra hji
  obtain ⟨done, hm⟩ := h.mine i (absProc w) (hsim.get hw)
  cases htodo : w.todo with
  | nil =>
      have hidle : w.phase.abs = .out .idle := hm.idle htodo
      rw [hidle] at hnode
      cases hnode
  | cons op rest =>
      have htarget := h.target_hand hown hsim.atomic (hsim.get hw) htodo hji (hsim.get hv)
      rw [AtomicPhase.target, show (absProc w).phase.node = some d from hnode] at htarget
      exact htarget hnode'

/-- They do not disturb one another. -/
theorem Updated.undisturbed (hown : OwnIds todos) (h : Updated todos a) (hsim : Sim conf c a) (i : Nat) : Undisturbed c i := by
  intro w d hw hphase j v stage hv hin
  have hji : j = i := by
    apply h.hand_unique hown hsim hw hv
    · rw [hphase]
      rfl
    · rw [hin]
      rfl
  subst hji
  obtain rfl := Option.some.inj (hw.symm.trans hv)
  rw [hphase] at hin
  cases hin

/-- The simulation, with the records. -/
theorem SpinReach.updated {iHashSize : Nat} (h0 : 0 < iHashSize) (hown : OwnIds todos)
    (hr : SpinReach conf ncpu (fun _ _ => True) (startSpinCfg (initCoreData iHashSize h0) todos) c) :
    ∃ a, AtomicReach conf (Net.start (.out .idle) (initCoreData iHashSize h0) todos) a ∧ Sim conf c a ∧ Updated todos a := by
  refine hr.simulates (R := fun c a => Sim conf c a ∧ Updated todos a) ⟨sim_start conf h0 todos, updated_start h0 todos⟩ ?_
  intro c c' i a h _ hs
  obtain ⟨hsim, hup⟩ := h
  obtain ⟨a', hmatch, hsim'⟩ := hsim.step (hup.undisturbed hown hsim i) hs
  refine ⟨a', hmatch, hsim', ?_⟩
  rcases hmatch with rfl | hstep
  · exact hup
  · exact hup.step hown hsim.atomic hstep

/-- Calls for other ids leave a record alone. -/
theorem Table.foldl_set_of_ne {ops : List SetItem} (h : ∀ op ∈ ops, op.id ≠ id) : ops.foldl Table.set t id = t id := by
  induction ops generalizing t with
  | nil => rfl
  | cons op ops ih =>
      obtain ⟨hop, hops⟩ := List.forall_mem_cons.mp h
      rw [List.foldl_cons, ih hops, Table.set_of_ne (Ne.symm hop)]

/-- The record of an id depends on nothing but that record and the calls. -/
theorem Table.foldl_set_congr {t' : Table} {ops : List SetItem} (h : t id = t' id) :
    ops.foldl Table.set t id = ops.foldl Table.set t' id := by
  induction ops generalizing t t' with
  | nil => exact h
  | cons op ops ih =>
      apply ih
      by_cases hid : id = op.id
      · subst hid
        rw [Table.set, Table.set, Function.update_self, Function.update_self, h]
      · rw [Table.set_of_ne hid, Table.set_of_ne hid, h]

/-- The table of all calls has the records of each worker's calls. -/
theorem OwnIds.table {ops : List SetItem} (hown : OwnIds todos) (hops : ops ∈ todos) (hop : op ∈ ops) :
    Table.after todos.flatten op.id = Table.after ops op.id := by
  obtain ⟨pre, post, rfl⟩ := List.append_of_mem hops
  obtain ⟨-, hpost, hpre⟩ := List.pairwise_append.mp hown
  have hbefore : ∀ op' ∈ pre.flatten, op'.id ≠ op.id := by
    intro op' hop'
    obtain ⟨ops', hops', hop'⟩ := List.mem_flatten.mp hop'
    exact hpre ops' hops' ops List.mem_cons_self op' hop' op hop
  have hbehind : ∀ op' ∈ post.flatten, op'.id ≠ op.id := by
    intro op' hop'
    obtain ⟨ops', hops', hop'⟩ := List.mem_flatten.mp hop'
    exact ((List.pairwise_cons.mp hpost).1 ops' hops' op hop op' hop').symm
  calc Table.after (pre ++ ops :: post).flatten op.id
      = post.flatten.foldl Table.set (ops.foldl Table.set (Table.after pre.flatten)) op.id := by
        rw [Table.after, List.flatten_append, List.flatten_cons, List.foldl_append, List.foldl_append]
        rfl
    _ = ops.foldl Table.set (Table.after pre.flatten) op.id := Table.foldl_set_of_ne hbehind
    _ = Table.after ops op.id := Table.foldl_set_congr (Table.foldl_set_of_ne hbefore)

/-- A worker with a call before it has a step: nobody else inserts an item of its own. -/
theorem Updated.exists_step {w : Proc SpinPhase SetItem} {rest : List SetItem} (h : Updated todos a) (hown : OwnIds todos)
    (hsim : Sim conf c a) (hloc : Located a) (hw : c.procs[i]? = some w) (htodo : w.todo = op :: rest) :
    ∃ c', SpinStep conf ncpu i c c' := by
  have hcases : (∃ c', SpinStep conf ncpu i c c') ∨ _ := hsim.exists_step hw htodo
  rcases hcases with hstep | ⟨d, hfound, hcell⟩
  · exact hstep
  · have habs : w.phase.abs = .out (.found d) := by
      rw [hfound]
      rfl
    obtain ⟨j, v, stage, hv, hin⟩ := hsim.inserting hcell (hloc.found i (absProc w) d (hsim.get hw) habs)
    have hji : j = i := by
      apply h.hand_unique hown hsim hw hv
      · rw [habs]
        rfl
      · rw [hin, SpinPhase.node_abs_inside]
        rfl
    subst hji
    obtain rfl := Option.some.inj (hw.symm.trans hv)
    rw [hfound] at hin
    cases hin

/-- When all calls are done the lock is free. -/
theorem Sim.lock_of_done (h : Sim conf c a) (hdone : ∀ w ∈ c.procs, w.todo = []) : c.shared.lock = 0 := by
  by_contra hl
  obtain ⟨-, i, w, hw, job, o, hphase⟩ := h.locked.held hl
  obtain ⟨op, rest, htodo, -⟩ := h.held i w job o hw hphase
  rw [hdone w (List.mem_of_getElem? hw)] at htodo
  cases htodo

/-- When all calls are done the table is that of the calls. -/
theorem Updated.table_of_done (h : Updated todos a) (hown : OwnIds todos) (hdone : ∀ w ∈ a.procs, w.todo = []) :
    a.shared.table = Table.after todos.flatten := by
  funext id
  by_cases hid : ∃ ops ∈ todos, ∃ op ∈ ops, op.id = id
  · obtain ⟨ops, hops, op, hop, rfl⟩ := hid
    rw [hown.table hops hop]
    obtain ⟨i, hi⟩ := List.mem_iff_getElem?.mp hops
    have hlt : i < a.procs.length := by
      rw [h.length]
      exact (List.getElem?_eq_some_iff.mp hi).1
    have hnil : a.procs[i].todo = [] := hdone _ (List.getElem_mem hlt)
    obtain ⟨done, hm⟩ := h.mine i _ (List.getElem?_eq_getElem hlt)
    obtain rfl : ops = done := by
      have hsplit := Option.some.inj (hi.symm.trans hm.split)
      rwa [hnil, List.append_nil] at hsplit
    apply hm.others op (List.mem_append_left _ hop)
    intro op' rest htodo
    rw [hnil] at htodo
    cases htodo
  · have hnone : ∀ op ∈ todos.flatten, op.id ≠ id := by
      intro op hop hc
      obtain ⟨ops, hops, hop⟩ := List.mem_flatten.mp hop
      exact hid ⟨ops, hops, op, hop, hc⟩
    have habsent := h.absent id fun ops hops op hop hc => hid ⟨ops, hops, op, hop, hc⟩
    rw [table_eq_none habsent, Table.after, Table.foldl_set_of_ne hnone]
    rfl

end Lookaround
