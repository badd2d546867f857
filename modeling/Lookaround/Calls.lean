import Lookaround.Handler

/-!
# Calls of any location

The index is shared, but `nMapMaxLevel` is that of the location a request is served under, and each call has its own
allocations. A `Call` carries both.

* `Call`, `applyCall`, `runServed` : one call, and a sequence of calls;
* `SameItems` : what no tree operation changes, whatever the tree, the level and the allocations;
* `Touched s op s'` : the one record and the one binding a call may change;
* `Named` : the ids own their nodes, kept by every call;
* `runServed_frame` : a call for one id changes nothing `getitem` reads of another.
-/

namespace Lookaround

open NlaCoreData

/-- A `setdataloc` with the configuration it is served under and the outcomes of its allocations. -/
structure Call where
  conf : Conf
  alloc : Allocs
  op : SetItem

def applyCall (s : NlaCoreData) (c : Call) : Except Fault NlaCoreData :=
  s.setdataloc c.conf c.alloc c.op.id c.op.loc c.op.iStatus c.op.iType c.op.now

def runServed (s : NlaCoreData) (calls : List Call) : Except Fault NlaCoreData := Library.run applyCall s calls

variable {conf : Conf} {alloc : Allocs} {s s' s'' : NlaCoreData} {p d e : Nat} {op : SetItem} {c : Call}

/-! ## Records under the tree operations -/

/-- The same records and the same id map. -/
structure SameItems (s s' : NlaCoreData) : Prop where
  item : s'.item = s.item
  map : s'.pId2dataMap = s.pId2dataMap
  length : s'.dataNodes.length = s.dataNodes.length
  root : s'.pMapRoot = s.pMapRoot

namespace SameItems

theorem refl (s : NlaCoreData) : SameItems s s := ⟨rfl, rfl, rfl, rfl⟩

theorem trans (h : SameItems s s') (h' : SameItems s' s'') : SameItems s s'' where
  item := h'.item.trans h.item
  map := h'.map.trans h.map
  length := h'.length.trans h.length
  root := h'.root.trans h.root

theorem modifyMap (s : NlaCoreData) (p : Nat) (f : NlaMapNode → NlaMapNode) : SameItems s (s.modifyMap p f) :=
  ⟨rfl, rfl, rfl, rfl⟩

/-- A write to the links of a data node. -/
theorem modifyData (s : NlaCoreData) (d : Nat) {f : NlaDataNode → NlaDataNode} (hf : ∀ n, (f n).data = n.data) :
    SameItems s (s.modifyData d f) := by
  refine ⟨funext fun e => ?_, rfl, length_modifyData f, rfl⟩
  rw [item_eq_bind, item_eq_bind]
  exact view_modifyData (fun n => some n.data) (fun n => by rw [hf]) e

end SameItems

theorem createChild_sameItems {m : NlaMapNode} {i : Fin 4} (h : createChild alloc p m s i = .ok s') :
    SameItems s s' := by
  unfold createChild at h
  split_ifs at h
  cases h
  exact ⟨rfl, rfl, rfl, rfl⟩

theorem createChildMapnode_sameItems (h : s.createChildMapnode alloc p = .ok s') : SameItems s s' := by
  have hfold : ∀ {is : List (Fin 4)} {m : NlaMapNode} {s : NlaCoreData},
      is.foldlM (createChild alloc p m) s = .ok s' → SameItems s s' := by
    intro is
    induction is with
    | nil =>
        intro m s h
        cases h
        exact .refl _
    | cons i is ih =>
        intro m s h
        rw [List.foldlM_cons] at h
        obtain ⟨s1, h1, h⟩ := Library.bind_eq_ok.mp h
        exact (createChild_sameItems h1).trans (ih h)
  rw [createChildMapnode] at h
  obtain ⟨m, -, h⟩ := Library.bind_eq_ok.mp h
  split_ifs at h
  · cases h
    exact .refl s
  · exact hfold h

theorem ensureChilds_sameItems {m : NlaMapNode} (h : s.ensureChilds alloc p m = .ok s') : SameItems s s' := by
  unfold ensureChilds at h
  split_ifs at h
  · exact createChildMapnode_sameItems h
  · cases h
    exact .refl s

theorem linkHead_sameItems (h : s.linkHead p d = .ok s') : SameItems s s' := by
  rw [linkHead] at h
  obtain ⟨m, -, h⟩ := Library.bind_eq_ok.mp h
  obtain ⟨n, -, h⟩ := Library.bind_eq_ok.mp h
  have hd := SameItems.modifyData s d
    (f := fun n => { n with next := m.pDataNode, prev := none, pMapNode := some p }) fun _ => rfl
  cases hhead : m.pDataNode with
  | none =>
      rw [hhead] at h hd
      cases h
      exact hd.trans (.modifyMap _ p _)
  | some head =>
      rw [hhead] at h hd
      obtain ⟨k, -, h⟩ := Library.bind_eq_ok.mp h
      cases h
      have hhead := SameItems.modifyData
        (s.modifyData d fun n => { n with next := some head, prev := none, pMapNode := some p }) head
        (f := fun n => { n with prev := some d }) fun _ => rfl
      exact (hd.trans hhead).trans (.modifyMap _ p _)

/-- `adddatanode` changes no record and no binding, whatever tree it is called on. -/
theorem adddatanode_sameItems {fuel : Nat} (h : s.adddatanode conf alloc fuel p d = .ok s') : SameItems s s' := by
  induction fuel generalizing s p with
  | zero => cases h
  | succ fuel ih =>
      rw [adddatanode] at h
      obtain ⟨m, -, h⟩ := Library.bind_eq_ok.mp h
      have hbump := SameItems.modifyMap s p fun m => { m with iItemCount := m.iItemCount + 1 }
      split_ifs at h
      · exact hbump.trans (linkHead_sameItems h)
      · obtain ⟨s1, h1, h⟩ := Library.bind_eq_ok.mp h
        obtain ⟨m1, -, h⟩ := Library.bind_eq_ok.mp h
        obtain ⟨n, -, h⟩ := Library.bind_eq_ok.mp h
        have hopen := hbump.trans (ensureChilds_sameItems h1)
        split at h
        · cases h
          exact hopen
        · split at h
          · cases h
          · exact hopen.trans (ih h)

/-! ## One call -/

/-- What a call may change of the records and the id map: the record and the binding of its own id. -/
inductive Touched (s : NlaCoreData) (op : SetItem) (s' : NlaCoreData) : Prop
  | fresh (key pairs : Bool) (hid : s.getdatanode op.id = none)
      (hmap : s'.pId2dataMap = (smPutPtrvalue key pairs s.pId2dataMap op.id (some s.dataNodes.length)).2)
      (hlen : s'.dataNodes.length = s.dataNodes.length + 1)
      (hitem : ∀ e : Nat, e < s.dataNodes.length → s'.item e = s.item e)
  | known (d : DataPtr) (hid : s.getdatanode op.id = some d) (hmap : s'.pId2dataMap = s.pId2dataMap)
      (hlen : s'.dataNodes.length = s.dataNodes.length) (hitem : ∀ e : Nat, e ≠ d → s'.item e = s.item e)

theorem item_modifyData_of_ne {f : NlaDataNode → NlaDataNode} (he : e ≠ d) : (s.modifyData d f).item e = s.item e := by
  rw [item, dataNodes_modifyData, if_neg (Ne.symm he), item]

theorem applyCall_touched (h : applyCall s c = .ok s') : Touched s c.op s' := by
  unfold applyCall setdataloc at h
  cases hid : s.getdatanode c.op.id with
  | none =>
      rw [hid] at h
      simp only [createItem] at h
      split_ifs at h
      · obtain ⟨_, h1, -⟩ := Library.bind_eq_ok.mp h
        cases h1
      · obtain ⟨s1, h1, h⟩ := Library.bind_eq_ok.mp h
        have hs := adddatanode_sameItems h1
        cases h
        refine .fresh c.alloc.key c.alloc.pairs hid hs.map ?_ fun e he => ?_
        · rw [setTime, length_modifyData, hs.length]
          exact List.length_append
        · rw [setTime, item_modifyData_of_ne (Nat.ne_of_lt he), hs.item]
          simp only [item]
          rw [List.getElem?_append_left he]
  | some d =>
      rw [hid] at h
      obtain ⟨b, -, h⟩ := Library.bind_eq_ok.mp h
      split_ifs at h
      · cases h
        refine .known d hid rfl ?_ fun e he => ?_
        · rw [setTime, length_modifyData, setLoc, length_modifyData]
        · rw [setTime, item_modifyData_of_ne he, setLoc, item_modifyData_of_ne he]
      · rw [moveItem, removeDatanodeFromMap_some] at h
        obtain ⟨s0, h0, h⟩ := Library.bind_eq_ok.mp h
        cases h0
        obtain ⟨s1, h1, h⟩ := Library.bind_eq_ok.mp h
        have hs := adddatanode_sameItems h1
        cases h
        refine .known d hid hs.map ?_ fun e he => ?_
        · rw [setTime, length_modifyData, hs.length, setLoc, length_modifyData]
        · rw [setTime, item_modifyData_of_ne he, hs.item, setLoc, item_modifyData_of_ne he]

/-! ## Runs -/

/-- The id map holds nodes, each under one id. -/
structure Named (s : NlaCoreData) : Prop where
  good : s.pId2dataMap.Good
  lt : ∀ (id : CStr) (d : Nat), s.getdatanode id = some d → d < s.dataNodes.length
  inj : ∀ (id id' : CStr) (d : Nat), s.getdatanode id = some d → s.getdatanode id' = some d → id = id'

theorem named_init (iHashSize : Nat) (h0 : 0 < iHashSize) : Named (initCoreData iHashSize h0) := by
  have hnone : ∀ id, (initCoreData iHashSize h0).getdatanode id = none := smGetPtrvalue_smNew iHashSize h0
  refine ⟨good_smNew iHashSize h0, fun id d hd => ?_, fun id id' d hd => ?_⟩
  · rw [hnone] at hd
    cases hd
  · rw [hnone] at hd
    cases hd

/-- Another id keeps its binding. -/
theorem Touched.get {id : CStr} (ht : Touched s op s') (hid : id ≠ op.id) : s'.getdatanode id = s.getdatanode id := by
  cases ht with
  | fresh key pairs _ hmap _ _ =>
      rw [getdatanode, hmap]
      exact smGetPtrvalue_put_of_ne key pairs _ hid _
  | known d _ hmap _ _ => rw [getdatanode, hmap, getdatanode]

/-- Another id keeps the record of its node. -/
theorem Touched.item {id : CStr} (ht : Touched s op s') (h : Named s) (hid : id ≠ op.id)
    (hd : s.getdatanode id = some d) : s'.item d = s.item d := by
  cases ht with
  | fresh _ _ _ _ _ hitem => exact hitem d (h.lt id d hd)
  | known d' hid' _ _ hitem =>
      refine hitem d ?_
      rintro rfl
      exact hid (h.inj id op.id d hd hid')

/-- What the id of the call is bound to afterwards is its node, or the new one. -/
theorem Touched.get_self (ht : Touched s op s') (h : Named s) (hd : s'.getdatanode op.id = some d) :
    s.getdatanode op.id = some d ∨ s.getdatanode op.id = none ∧ d = s.dataNodes.length ∧
      s'.dataNodes.length = s.dataNodes.length + 1 := by
  cases ht with
  | fresh key pairs hid hmap hlen _ =>
      refine Or.inr ⟨hid, ?_, hlen⟩
      rw [getdatanode, hmap] at hd
      cases hput : (smPutPtrvalue key pairs s.pId2dataMap op.id (some s.dataNodes.length)).1 with
      | true =>
          rw [smGetPtrvalue_put_self h.good hput] at hd
          exact (Option.some.inj hd).symm
      | false =>
          rw [smPutPtrvalue_false hput] at hd
          change s.getdatanode op.id = some d at hd
          rw [hid] at hd
          cases hd
  | known d' hid hmap _ _ =>
      left
      rw [getdatanode, hmap] at hd
      exact hd

theorem Touched.named (ht : Touched s op s') (h : Named s) : Named s' := by
  have hlen : s.dataNodes.length ≤ s'.dataNodes.length := by
    cases ht with
    | fresh _ _ _ _ hlen _ => omega
    | known _ _ _ hlen _ => omega
  -- a node of another id is not the one the id of the call got
  have hother : ∀ {id : CStr} {d : Nat}, id ≠ op.id → s.getdatanode id = some d → s'.getdatanode op.id ≠ some d := by
    intro id d hid hd hself
    rcases ht.get_self h hself with hold | ⟨-, rfl, -⟩
    · exact hid (h.inj id op.id d hd hold)
    · exact Nat.lt_irrefl _ (h.lt id _ hd)
  refine ⟨?_, fun id d hd => ?_, fun id id' d hd hd' => ?_⟩
  · cases ht with
    | fresh key pairs _ hmap _ _ =>
        rw [hmap]
        exact Good.put h.good key pairs op.id _
    | known _ _ hmap _ _ =>
        rw [hmap]
        exact h.good
  · by_cases hid : id = op.id
    · subst hid
      rcases ht.get_self h hd with hold | ⟨-, rfl, hlen'⟩
      · exact Nat.lt_of_lt_of_le (h.lt _ _ hold) hlen
      · omega
    · rw [ht.get hid] at hd
      exact Nat.lt_of_lt_of_le (h.lt _ _ hd) hlen
  · by_cases hid : id = op.id <;> by_cases hid' : id' = op.id
    · rw [hid, hid']
    · rw [ht.get hid'] at hd'
      rw [hid] at hd
      exact absurd hd (hother hid' hd')
    · rw [ht.get hid] at hd
      rw [hid'] at hd'
      exact absurd hd' (hother hid hd)
    · rw [ht.get hid] at hd
      rw [ht.get hid'] at hd'
      exact h.inj id id' d hd hd'

theorem runServed_named {iHashSize : Nat} {calls : List Call} (h0 : 0 < iHashSize)
    (hrun : runServed (initCoreData iHashSize h0) calls = .ok s) : Named s :=
  Library.run_ok_induction (P := fun _ _ => True) (named_init iHashSize h0)
    (Library.everyStep_of_forall fun _ _ => trivial) (fun _ _ _ h _ hs => (applyCall_touched hs).named h) hrun

/-- `getitem` of an id whose binding and record stay. -/
theorem getitem_congr {id : CStr} {r : Request} (hr : idArg r = some id) (hget : s'.getdatanode id = s.getdatanode id)
    (hitem : ∀ d, s.getdatanode id = some d → s'.item d = s.item d) : getitem s' r = getitem s r := by
  rw [getitem, getitem, hr]
  simp only [hget]
  cases hd : s.getdatanode id with
  | none => rfl
  | some d =>
      have hdata := hitem d hd
      rw [item, item] at hdata
      simp only [dataAt]
      cases h1 : s'.dataNodes[d]? with
      | none =>
          rw [h1] at hdata
          rw [Option.map_eq_none_iff.mp hdata.symm]
      | some n' =>
          rw [h1, Option.map_some, eq_comm, Option.map_eq_some_iff] at hdata
          obtain ⟨n, h2, hn⟩ := hdata
          rw [h2]
          simp only [bind, Except.bind, hn]

/-- **Items do not interfere.** In every state a run of calls reaches, each under its own level, a call that returns
leaves what `getitem` reads of every other id: whether it is found, the record of its node, and the reply. -/
theorem runServed_frame {iHashSize : Nat} {calls : List Call} (h0 : 0 < iHashSize)
    (hrun : runServed (initCoreData iHashSize h0) calls = .ok s) (hcall : applyCall s c = .ok s') {id : CStr}
    (hid : id ≠ c.op.id) :
    s'.getdatanode id = s.getdatanode id ∧ (∀ d, s.getdatanode id = some d → s'.item d = s.item d) ∧
      ∀ r, idArg r = some id → getitem s' r = getitem s r := by
  have hnamed := runServed_named h0 hrun
  have ht := applyCall_touched hcall
  have hget := ht.get hid
  have hitem : ∀ d, s.getdatanode id = some d → s'.item d = s.item d := fun d hd => ht.item hnamed hid hd
  exact ⟨hget, hitem, fun r hr => getitem_congr hr hget hitem⟩

/-- A call with allocations that succeed. -/
def served (nMapMaxLevel : Int) (op : SetItem) : Call := ⟨⟨nMapMaxLevel⟩, .succeed, op⟩

/-- Two items of one cell and one bucket: the second goes to another cell, and the first reads as before. -/
theorem runServed_frame_move : ∃ s s',
    runServed (initCoreData 1 Nat.one_pos) [served 1 (setA 5 5), served 1 (setB 5 5)] = .ok s ∧
      applyCall s (served 1 (setB (-5) (-5))) = .ok s' ∧ s.getdatanode (setA 5 5).id = some 0 ∧
      getitem s' (getRequest "id=a") = getitem s (getRequest "id=a") := by
  refine ⟨_, _, rfl, rfl, rfl, ?_⟩
  have hframe := runServed_frame Nat.one_pos
    (rfl : runServed (initCoreData 1 Nat.one_pos) [served 1 (setA 5 5), served 1 (setB 5 5)] = .ok _)
    (rfl : applyCall _ (served 1 (setB (-5) (-5))) = .ok _)
    (by decide : (setA 5 5).id ≠ (served 1 (setB (-5) (-5))).op.id)
  exact hframe.2.2 _ rfl

end Lookaround
