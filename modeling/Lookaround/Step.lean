import Lookaround.Descent

/-!
# What one `setdataloc` does

* `Sound s` : the invariant of every run, whatever the locations and the levels of its calls: the map nodes are a
  quadtree, every stored pointer is a node, and the id map holds one node per id, under the id it was stored with;
* `Inv conf s` : with one level for all calls, the tree also has its shape;
* `SetStep conf s op s'` : the three ways a call can go, one constructor per branch of the source;
* `applySet_cases` : in the invariant a call takes one of them, or reads through the NULL `p_map_node` of its item;
* `Arranged`, `Placed` : what the branches that call `adddatanode` do to the lists;
* `Change`, `Effect` : what a call does, whatever its branch; `Change.sound`, `Effect.inv` : the invariants are kept.
-/

namespace Lookaround

open NlaCoreData

variable {conf : Conf} {s s' s1 : NlaCoreData} {op : SetItem} {d : Nat} {loc : Nla2dloc} {now : Int64}

/-- The invariant of every run, whatever the level of each call. -/
structure Sound (s : NlaCoreData) : Prop where
  grid : Grid s.mapNodes s.pMapRoot
  heads : s.HeadsOk
  nexts : ∀ d e : Nat, s.next d = some e → e < s.dataNodes.length
  cells : ∀ d q : Nat, s.cell d = some q → ∃ k, s.mapNodes[q]? = some k
  names : ∀ (id : CStr) (d : Nat), s.getdatanode id = some d → ∃ data, s.item d = some data ∧ data.achId = strcpyId id
  good : s.pId2dataMap.Good
  inj : ∀ (id id' : CStr) (d : Nat), s.getdatanode id = some d → s.getdatanode id' = some d → id = id'

/-- The invariant of every run. -/
structure Inv (conf : Conf) (s : NlaCoreData) : Prop where
  shape : Shape conf.nMapMaxLevel s.mapNodes s.pMapRoot
  heads : s.HeadsOk
  nexts : ∀ d e : Nat, s.next d = some e → e < s.dataNodes.length
  cells : ∀ d q : Nat, s.cell d = some q → ∃ k, s.mapNodes[q]? = some k ∧ conf.nMapMaxLevel ≤ k.iLevel
  names : ∀ (id : CStr) (d : Nat), s.getdatanode id = some d → ∃ data, s.item d = some data ∧ data.achId = strcpyId id
  good : s.pId2dataMap.Good
  inj : ∀ (id id' : CStr) (d : Nat), s.getdatanode id = some d → s.getdatanode id' = some d → id = id'

theorem Inv.sound (h : Inv conf s) : Sound s where
  grid := h.shape.grid
  heads := h.heads
  nexts := h.nexts
  cells := by
    intro d q hq
    obtain ⟨k, hk, -⟩ := h.cells d q hq
    exact ⟨k, hk⟩
  names := h.names
  good := h.good
  inj := h.inj

namespace NlaCoreData

/-- The core data with the new node in the id map, before it is linked. -/
def withItem (s : NlaCoreData) (op : SetItem) : NlaCoreData :=
  { s with
    dataNodes := s.dataNodes ++ [newDataNode op.id op.loc op.iStatus op.iType]
    pId2dataMap := (smPutPtrvalue true true s.pId2dataMap op.id (some s.dataNodes.length)).2 }

end NlaCoreData

/-- The branches of `setdataloc`. -/
inductive SetStep (conf : Conf) (s : NlaCoreData) (op : SetItem) : NlaCoreData → Prop
  | create {s1 : NlaCoreData} (hid : s.getdatanode op.id = none)
      (hadd : Added conf s.dataNodes.length op.loc s.pMapRoot (s.withItem op) s1) :
      SetStep conf s op (s1.setTime s.dataNodes.length op.now)
  | inPlace {d : DataPtr} {q : MapPtr} {k : NlaMapNode} (hid : s.getdatanode op.id = some d) (hcell : s.cell d = some q)
      (hk : s.mapNodes[q]? = some k) (hin : isLocInRC k.rc op.loc = true) :
      SetStep conf s op ((s.setLoc d op.loc).setTime d op.now)
  | move {d : DataPtr} {q : MapPtr} {k : NlaMapNode} {s1 : NlaCoreData} (hid : s.getdatanode op.id = some d)
      (hcell : s.cell d = some q) (hk : s.mapNodes[q]? = some k) (hout : isLocInRC k.rc op.loc = false)
      (hadd : Added conf d op.loc s.pMapRoot (s.setLoc d op.loc) s1) : SetStep conf s op (s1.setTime d op.now)

/-! ## Records and lists after a write -/

namespace NlaCoreData

theorem item_of_getElem? {n : NlaDataNode} (h : s.dataNodes[d]? = some n) : s.item d = some n.data := by
  rw [item, h, Option.map_some]

theorem lt_of_item {data : NlaDataItem} (h : s.item d = some data) : d < s.dataNodes.length := by
  rw [item, Option.map_eq_some_iff] at h
  obtain ⟨n, hn, -⟩ := h
  exact (List.getElem?_eq_some_iff.mp hn).1

/-- A write to the record of a node. -/
theorem views_modifyItem (f : NlaDataItem → NlaDataItem) {data : NlaDataItem} (h : s.item d = some data) :
    let s' := s.modifyData d fun n => { n with data := f n.data }
    s'.next = s.next ∧ s'.cell = s.cell ∧ s'.item = Function.update s.item d (some (f data)) := by
  intro s'
  refine ⟨funext fun e => ?_, funext fun e => ?_, funext fun e => ?_⟩
  · exact view_modifyData NlaDataNode.next (f := fun n => { n with data := f n.data }) (fun _ => rfl) e
  · exact view_modifyData NlaDataNode.pMapNode (f := fun n => { n with data := f n.data }) (fun _ => rfl) e
  rw [item, dataNodes_modifyData]
  by_cases he : d = e
  · subst he
    rw [if_pos rfl, Function.update_self]
    rw [item, Option.map_eq_some_iff] at h
    obtain ⟨n, hn, rfl⟩ := h
    rw [hn]
    rfl
  · rw [if_neg he, Function.update_of_ne (Ne.symm he), item]

theorem views_setLoc {data : NlaDataItem} (h : s.item d = some data) (loc : Nla2dloc) :
    (s.setLoc d loc).next = s.next ∧ (s.setLoc d loc).cell = s.cell ∧
      (s.setLoc d loc).item = Function.update s.item d (some { data with loc := loc }) :=
  views_modifyItem (fun data => { data with loc := loc }) h

theorem views_setTime {data : NlaDataItem} (h : s.item d = some data) (now : Int64) :
    (s.setTime d now).next = s.next ∧ (s.setTime d now).cell = s.cell ∧
      (s.setTime d now).item = Function.update s.item d (some { data with lastUpdateTime := now }) :=
  views_modifyItem (fun data => { data with lastUpdateTime := now }) h

theorem getElem?_withItem (s : NlaCoreData) (op : SetItem) (e : Nat) : (s.withItem op).dataNodes[e]? =
    if e = s.dataNodes.length then some (newDataNode op.id op.loc op.iStatus op.iType) else s.dataNodes[e]? := by
  change (s.dataNodes ++ [_])[e]? = _
  by_cases he : e < s.dataNodes.length
  · rw [List.getElem?_append_left he, if_neg (by omega)]
  · rw [List.getElem?_append_right (by omega), List.getElem?_singleton,
      List.getElem?_eq_none_iff.mpr (by omega : s.dataNodes.length ≤ e)]
    split_ifs <;> first | rfl | omega

/-- The new node is in no list. -/
theorem views_withItem (s : NlaCoreData) (op : SetItem) :
    (s.withItem op).next = s.next ∧ (s.withItem op).cell = s.cell ∧ (s.withItem op).item =
      Function.update s.item s.dataNodes.length (some (newDataNode op.id op.loc op.iStatus op.iType).data) := by
  have hnone : s.dataNodes[s.dataNodes.length]? = none := List.getElem?_eq_none_iff.mpr (le_refl _)
  refine ⟨funext fun e => ?_, funext fun e => ?_, funext fun e => ?_⟩
  · rw [next, getElem?_withItem, next]
    split_ifs with he
    · rw [he, hnone]
      rfl
    · rfl
  · rw [cell, getElem?_withItem, cell]
    split_ifs with he
    · rw [he, hnone]
      rfl
    · rfl
  · rw [item, getElem?_withItem]
    split_ifs with he
    · rw [he, Function.update_self]
      rfl
    · rw [Function.update_of_ne he, item]

theorem getdatanode_withItem (hg : s.pId2dataMap.Good) (op : SetItem) :
    (s.withItem op).getdatanode = Function.update s.getdatanode op.id (some s.dataNodes.length) := by
  funext id
  by_cases hid : id = op.id
  · rw [hid, Function.update_self]
    exact smGetPtrvalue_put_self hg (smPutPtrvalue_ok _ _ _)
  · rw [Function.update_of_ne hid]
    exact smGetPtrvalue_put_of_ne true true _ hid _

end NlaCoreData

/-! ## `adddatanode` from the root -/

/-- The lists after `d` was put at `loc`: it is the new head of the leaf of that location, or, when the location is
outside the root rectangle and the root is no leaf, nothing is linked. -/
inductive Relinked (conf : Conf) (d : DataPtr) (loc : Nla2dloc) (s s' : NlaCoreData) : Prop
  | leaf (q : MapPtr) (k : NlaMapNode) (hk : s'.mapNodes[q]? = some k) (hL : conf.nMapMaxLevel ≤ k.iLevel)
      (hin : isLocInRC initRootRect loc = true → isLocInRC k.rc loc = true)
      (head : ∀ r, s'.head r = if q = r then some d else s.head r)
      (next : s'.next = Function.update s.next d (s.head q)) (cell : s'.cell = Function.update s.cell d (some q))
  | lost (hL : 0 < conf.nMapMaxLevel) (hout : isLocInRC initRootRect loc = false) (head : s'.head = s.head)
      (next : s'.next = s.next) (cell : s'.cell = s.cell)

/-- What a branch of `setdataloc` that calls `adddatanode` does with the node `d`. -/
structure Arranged (conf : Conf) (d : DataPtr) (loc : Nla2dloc) (data : NlaDataItem) (s s' : NlaCoreData) : Prop where
  grid : Grid s'.mapNodes s'.pMapRoot
  keeps : Keeps s.mapNodes s'.mapNodes
  root : s'.pMapRoot = s.pMapRoot
  item : s'.item = Function.update s.item d (some data)
  lists : Relinked conf d loc s s'

/-- The same, in a tree with its leaves at one level. -/
structure Placed (conf : Conf) (d : DataPtr) (loc : Nla2dloc) (data : NlaDataItem) (s s' : NlaCoreData) : Prop where
  shape : Shape conf.nMapMaxLevel s'.mapNodes s'.pMapRoot
  keeps : Keeps s.mapNodes s'.mapNodes
  root : s'.pMapRoot = s.pMapRoot
  item : s'.item = Function.update s.item d (some data)
  lists : Relinked conf d loc s s'

/-- The time stamp is written behind the lists. -/
theorem NlaCoreData.views_stamp {data : NlaDataItem} (h : s.item d = some data) (now : Int64) :
    (s.setTime d now).head = s.head ∧ (s.setTime d now).next = s.next ∧ (s.setTime d now).cell = s.cell ∧
      (s.setTime d now).item = Function.update s.item d (some { data with lastUpdateTime := now }) := by
  obtain ⟨g1, g2, g3⟩ := views_setTime h now
  exact ⟨rfl, g1, g2, g3⟩

theorem Arranged.of_added (s0 : NlaCoreData) {data : NlaDataItem} (hgrid : Grid s.mapNodes s.pMapRoot)
    (hheads : s.HeadsOk) (hlen : s.dataNodes.length ≤ s0.dataNodes.length) (hmaps : s0.mapNodes = s.mapNodes) (hroot : s0.pMapRoot = s.pMapRoot) (hnext : s0.next = s.next)
    (hcell : s0.cell = s.cell) (hitem : s0.item = Function.update s.item d (some data))
    (hadd : Added conf d loc s.pMapRoot s0 s1) (now : Int64) :
    Arranged conf d loc { data with lastUpdateTime := now } s (s1.setTime d now) := by
  have hgrid0 : Grid s0.mapNodes s.pMapRoot := by rw [hmaps]; exact hgrid
  have hdata : s0.item d = some data := by rw [hitem, Function.update_self]
  have hhead : s0.head = s.head := funext fun q => by rw [head, hmaps, head]
  obtain ⟨m, hm, hrc, hlev, -⟩ := hgrid0.top
  obtain ⟨hr1, -, -⟩ := hadd.frame
  have hkeeps : Keeps s.mapNodes (s1.setTime d now).mapNodes := by
    have := hadd.keeps hgrid0
    rw [hmaps] at this
    exact this
  have hroot' : s1.pMapRoot = s.pMapRoot := hr1.trans hroot
  have hgrid' : Grid (s1.setTime d now).mapNodes (s1.setTime d now).pMapRoot := by
    change Grid s1.mapNodes s1.pMapRoot
    rw [hroot']
    exact hadd.grid hgrid0
  by_cases hcase : m.iLevel < conf.nMapMaxLevel ∧ isLocInRC m.rc loc = false
  · obtain ⟨hL, hout⟩ := hcase
    obtain ⟨l1, l2, l3, l4⟩ := hadd.lost hm hL hout
    obtain ⟨g0, g1, g2, g3⟩ := views_stamp (s := s1) (by rw [l4]; exact hdata) now
    refine ⟨hgrid', hkeeps, hroot', ?_, .lost (by omega) (by rw [← hrc]; exact hout) ?_ ?_ ?_⟩
    · rw [g3, l4, hitem, Function.update_idem]
    · rw [g0, l1, hhead]
    · rw [g1, l2, hnext]
    · rw [g2, l3, hcell]
  · have hin : m.iLevel < conf.nMapMaxLevel → isLocInRC m.rc loc = true := by
      intro hlt
      by_contra hn
      exact hcase ⟨hlt, by simpa using hn⟩
    have hheads0 : s0.HeadsOk := by
      intro q e he
      rw [hhead] at he
      exact Nat.lt_of_lt_of_le (hheads q e he) hlen
    obtain ⟨q, hq⟩ := hadd.spliced hgrid0 hheads0 (lt_of_item hdata) hm hin (fun h => by rw [hrc]; exact h)
    obtain ⟨⟨k, hk, hkL, hkin⟩, l1, l2, l3, l4⟩ := hq.toLinkedAt
    obtain ⟨g0, g1, g2, g3⟩ := views_stamp (s := s1) (by rw [l4]; exact hdata) now
    refine ⟨hgrid', hkeeps, hroot', ?_, .leaf q k hk hkL hkin (fun r => ?_) ?_ ?_⟩
    · rw [g3, l4, hitem, Function.update_idem]
    · rw [g0, l1, hhead]
    · rw [g1, l2, hhead, hnext]
    · rw [g2, l3, hcell]

theorem Arranged.placed {data : NlaDataItem} (h : Arranged conf d loc data s s')
    (hshape : Shape conf.nMapMaxLevel s'.mapNodes s.pMapRoot) : Placed conf d loc data s s' :=
  ⟨by rw [h.root]; exact hshape, h.keeps, h.root, h.item, h.lists⟩

/-- The record a new item gets. -/
def SetItem.item (op : SetItem) : NlaDataItem where
  achId := strcpyId op.id
  iStatus := op.iStatus
  iType := op.iType
  loc := op.loc
  lastUpdateTime := op.now

theorem arranged_create (h : Sound s) (hadd : Added conf s.dataNodes.length op.loc s.pMapRoot (s.withItem op) s1) :
    Arranged conf s.dataNodes.length op.loc op.item s (s1.setTime s.dataNodes.length op.now) := by
  obtain ⟨h1, h2, h3⟩ := views_withItem s op
  have hlen : s.dataNodes.length ≤ (s.withItem op).dataNodes.length := by
    change _ ≤ (s.dataNodes ++ [_]).length
    rw [List.length_append]
    omega
  exact Arranged.of_added (s.withItem op) h.grid h.heads hlen rfl rfl h1 h2 h3 hadd op.now

theorem arranged_move {data : NlaDataItem} (h : Sound s) (hd : s.item d = some data)
    (hadd : Added conf d op.loc s.pMapRoot (s.setLoc d op.loc) s1) :
    Arranged conf d op.loc { data with loc := op.loc, lastUpdateTime := op.now } s (s1.setTime d op.now) := by
  obtain ⟨h1, h2, h3⟩ := views_setLoc hd op.loc
  have hlen : s.dataNodes.length ≤ (s.setLoc d op.loc).dataNodes.length := by
    rw [setLoc, length_modifyData]
  exact Arranged.of_added (s.setLoc d op.loc) h.grid h.heads hlen rfl rfl h1 h2 h3 hadd op.now

theorem placed_create (h : Inv conf s) (hadd : Added conf s.dataNodes.length op.loc s.pMapRoot (s.withItem op) s1) :
    Placed conf s.dataNodes.length op.loc op.item s (s1.setTime s.dataNodes.length op.now) :=
  (arranged_create h.sound hadd).placed (hadd.shape h.shape)

theorem placed_move {data : NlaDataItem} (h : Inv conf s) (hd : s.item d = some data)
    (hadd : Added conf d op.loc s.pMapRoot (s.setLoc d op.loc) s1) :
    Placed conf d op.loc { data with loc := op.loc, lastUpdateTime := op.now } s (s1.setTime d op.now) :=
  (arranged_move h.sound hd hadd).placed (hadd.shape h.shape)

/-- The in-place branch changes one record. -/
theorem views_inPlace {data : NlaDataItem} (hd : s.item d = some data) (loc : Nla2dloc) (now : Int64) :
    ((s.setLoc d loc).setTime d now).next = s.next ∧ ((s.setLoc d loc).setTime d now).cell = s.cell ∧
      ((s.setLoc d loc).setTime d now).item =
        Function.update s.item d (some { data with loc := loc, lastUpdateTime := now }) := by
  obtain ⟨h1, h2, h3⟩ := views_setLoc hd loc
  obtain ⟨g1, g2, g3⟩ := views_setTime (s := s.setLoc d loc) (by rw [h3, Function.update_self]) now
  refine ⟨g1.trans h1, g2.trans h2, ?_⟩
  rw [g3, h3, Function.update_idem]

/-! ## The call -/

theorem Sound.item (h : Sound s) {id : CStr} (hid : s.getdatanode id = some d) : ∃ data, s.item d = some data := by
  obtain ⟨data, hdata, -⟩ := h.names id d hid
  exact ⟨data, hdata⟩

theorem Inv.item (h : Inv conf s) {id : CStr} (hid : s.getdatanode id = some d) : ∃ data, s.item d = some data :=
  h.sound.item hid

/-- `adddatanode` returns for a node that was given its new location. -/
theorem Sound.adddatanode_setLoc {data : NlaDataItem} (h : Sound s) (hd : s.item d = some data) (conf : Conf) (loc : Nla2dloc) :
    ∃ s1, (s.setLoc d loc).adddatanode conf .succeed (conf.nMapMaxLevel.toNat + 1) s.pMapRoot d = .ok s1 ∧
      Added conf d loc s.pMapRoot (s.setLoc d loc) s1 := by
  obtain ⟨m, hm, -, hlev, -⟩ := h.grid.top
  have hdlt := lt_of_item hd
  have hn : s.dataNodes[d]? = some s.dataNodes[d] := List.getElem?_eq_getElem hdlt
  have hmem : (s.setLoc d loc).dataNodes[d]? =
      some { s.dataNodes[d] with data := { s.dataNodes[d].data with loc := loc } } := by
    rw [setLoc, dataNodes_modifyData, if_pos rfl, hn]
    rfl
  have hheads : (s.setLoc d loc).HeadsOk := by
    intro r e he
    rw [setLoc, length_modifyData]
    exact h.heads r e he
  exact adddatanode_added (s := s.setLoc d loc) h.grid hheads hm hmem (by omega)

/-- The branch for a new id returns. -/
theorem Sound.createItem_ok (h : Sound s) (conf : Conf) (op : SetItem) :
    ∃ s1, s.createItem conf .succeed op.id op.loc op.iStatus op.iType op.now =
        .ok (s1.setTime s.dataNodes.length op.now) ∧
      Added conf s.dataNodes.length op.loc s.pMapRoot (s.withItem op) s1 := by
  obtain ⟨m, hm, -, hlev, -⟩ := h.grid.top
  have hnew : (s.withItem op).dataNodes[s.dataNodes.length]? =
      some (newDataNode op.id op.loc op.iStatus op.iType) := by
    rw [getElem?_withItem, if_pos rfl]
  have hheads : (s.withItem op).HeadsOk := by
    intro q e he
    have := h.heads q e he
    change e < (s.dataNodes ++ [_]).length
    rw [List.length_append]
    omega
  have hfuel : (conf.nMapMaxLevel - m.iLevel).toNat < conf.nMapMaxLevel.toNat + 1 := by omega
  obtain ⟨s1, hs1, hadd⟩ := adddatanode_added (s := s.withItem op) h.grid hheads hm hnew hfuel
  refine ⟨s1, ?_, hadd⟩
  change (s.withItem op).adddatanode conf .succeed _ s.pMapRoot _ >>= _ = _
  rw [hs1]
  rfl

/-- The test of an item in the cell `q`, which is `k`. -/
theorem NlaCoreData.inCell_eq {q : Nat} {k : NlaMapNode} (hcell : s.cell d = some q) (hk : s.mapNodes[q]? = some k) :
    s.inCell d loc = .ok (isLocInRC k.rc loc) := by
  rw [cell, Option.bind_eq_some_iff] at hcell
  obtain ⟨n, hn, hq⟩ := hcell
  simp only [inCell, dataAt_ok hn, hq, nonNull, bind, Except.bind, mapAt_ok hk, pure, Except.pure]

/-- In the invariant a call takes one of its branches, or it reads through the NULL `p_map_node` of its item. -/
theorem applySet_cases (h : Sound s) (conf : Conf) (op : SetItem) :
    (∃ s', applySet conf s op = .ok s' ∧ SetStep conf s op s') ∨
      ∃ d, s.getdatanode op.id = some d ∧ s.cell d = none ∧ applySet conf s op = .error .nullDeref := by
  unfold applySet setdataloc
  cases hid : s.getdatanode op.id with
  | none =>
      left
      obtain ⟨s1, hs1, hadd⟩ := h.createItem_ok conf op
      exact ⟨_, hs1, SetStep.create hid hadd⟩
  | some d =>
      obtain ⟨data, hdata⟩ := h.item hid
      have hdlt := lt_of_item hdata
      have hn : s.dataNodes[d]? = some s.dataNodes[d] := List.getElem?_eq_getElem hdlt
      have hcell : s.cell d = s.dataNodes[d].pMapNode := by rw [cell, hn, Option.bind_some]
      cases hq : s.dataNodes[d].pMapNode with
      | none =>
          refine Or.inr ⟨d, rfl, by rw [hcell, hq], ?_⟩
          simp only [inCell, dataAt_ok hn, hq, nonNull, bind, Except.bind]
      | some q =>
          left
          obtain ⟨k, hk⟩ := h.cells d q (by rw [hcell, hq])
          have hin : s.inCell d op.loc = .ok (isLocInRC k.rc op.loc) := inCell_eq (by rw [hcell, hq]) hk
          simp only [hin, bind, Except.bind]
          cases hloc : isLocInRC k.rc op.loc with
          | true => exact ⟨_, rfl, SetStep.inPlace hid (by rw [hcell, hq]) hk hloc⟩
          | false =>
              obtain ⟨s1, hs1, hadd⟩ := h.adddatanode_setLoc hdata conf op.loc
              refine ⟨_, ?_, SetStep.move hid (by rw [hcell, hq]) hk hloc hadd⟩
              rw [moveItem, removeDatanodeFromMap_some]
              change (s.setLoc d op.loc).adddatanode conf .succeed _ s.pMapRoot d >>= _ = _
              rw [hs1]
              rfl

/-! ## The invariant is kept -/

theorem inv_init (conf : Conf) (iHashSize : Nat) (h : 0 < iHashSize) : Inv conf (initCoreData iHashSize h) where
  shape := shape_init conf.nMapMaxLevel iHashSize h
  heads := by
    intro q e he
    rw [head, initCoreData, List.getElem?_singleton] at he
    split_ifs at he <;> simp at he
  nexts := by
    intro d e he
    simp [next, initCoreData] at he
  cells := by
    intro d q hq
    simp [cell, initCoreData] at hq
  names := by
    intro id d hd
    rw [getdatanode, initCoreData, smGetPtrvalue_smNew] at hd
    cases hd
  good := good_smNew iHashSize h
  inj := by
    intro id id' d hd
    rw [getdatanode, initCoreData, smGetPtrvalue_smNew] at hd
    cases hd

/-- The id map, the number of nodes and the record of the node `d` after a call that wrote it: `d` is new, or the one
the map held. -/
structure Wrote (s : NlaCoreData) (op : SetItem) (s' : NlaCoreData) (d : DataPtr) (data : NlaDataItem) : Prop where
  good : s'.pId2dataMap.Good
  get : s'.getdatanode = Function.update s.getdatanode op.id (some d)
  item : s'.item = Function.update s.item d (some data)
  loc : data.loc = op.loc
  name : data.achId = strcpyId op.id
  time : data.lastUpdateTime = op.now
  record : (s.getdatanode op.id = none ∧ d = s.dataNodes.length ∧ s'.dataNodes.length = s.dataNodes.length + 1 ∧
      data = op.item) ∨
    (s.getdatanode op.id = some d ∧ s'.dataNodes.length = s.dataNodes.length ∧
      ∃ old, s.item d = some old ∧ data = { old with loc := op.loc, lastUpdateTime := op.now })

theorem Wrote.get_self {data : NlaDataItem} (hw : Wrote s op s' d data) : s'.getdatanode op.id = some d := by
  rw [hw.get, Function.update_self]

theorem Wrote.item_self {data : NlaDataItem} (hw : Wrote s op s' d data) : s'.item d = some data := by
  rw [hw.item, Function.update_self]

/-- Another id does not have the node that was written. -/
theorem Wrote.other {data : NlaDataItem} (h : Sound s) (hw : Wrote s op s' d data) {id : CStr} {e : Nat}
    (hid : id ≠ op.id) (he : s.getdatanode id = some e) : e ≠ d := by
  rintro rfl
  rcases hw.record with ⟨-, hd, -⟩ | ⟨hd, -⟩
  · obtain ⟨data', hdata'⟩ := h.item he
    exact absurd hd (Nat.ne_of_lt (lt_of_item hdata'))
  · exact hid (h.inj id op.id e he hd)

/-- What a call does: it writes the record of one node, and the lists stay, for a location in the cell of the item, or
the node is linked as `Relinked` says. -/
structure Change (conf : Conf) (s : NlaCoreData) (op : SetItem) (s' : NlaCoreData) (d : DataPtr) (data : NlaDataItem) :
    Prop extends Wrote s op s' d data where
  grid : Grid s'.mapNodes s'.pMapRoot
  keeps : Keeps s.mapNodes s'.mapNodes
  lists : (∃ (q : Nat) (k : NlaMapNode), s.getdatanode op.id = some d ∧ s.cell d = some q ∧ s.mapNodes[q]? = some k ∧
      isLocInRC k.rc op.loc = true ∧ s'.mapNodes = s.mapNodes ∧ s'.next = s.next ∧ s'.cell = s.cell) ∨
    Relinked conf d op.loc s s'

/-- The same, in a tree with its leaves at one level. -/
structure Effect (conf : Conf) (s : NlaCoreData) (op : SetItem) (s' : NlaCoreData) (d : DataPtr) (data : NlaDataItem) :
    Prop extends Wrote s op s' d data where
  shape : Shape conf.nMapMaxLevel s'.mapNodes s'.pMapRoot
  keeps : Keeps s.mapNodes s'.mapNodes
  lists : (∃ (q : Nat) (k : NlaMapNode), s.getdatanode op.id = some d ∧ s.cell d = some q ∧ s.mapNodes[q]? = some k ∧
      isLocInRC k.rc op.loc = true ∧ s'.mapNodes = s.mapNodes ∧ s'.next = s.next ∧ s'.cell = s.cell) ∨
    Relinked conf d op.loc s s'

theorem change_create (h : Sound s) (hid : s.getdatanode op.id = none)
    (hadd : Added conf s.dataNodes.length op.loc s.pMapRoot (s.withItem op) s1) :
    Change conf s op (s1.setTime s.dataNodes.length op.now) s.dataNodes.length op.item := by
  have hp := arranged_create h hadd
  obtain ⟨-, hmap, hlen⟩ := hadd.frame
  refine ⟨⟨?_, ?_, hp.item, rfl, rfl, rfl, Or.inl ⟨hid, rfl, ?_, rfl⟩⟩, hp.grid, hp.keeps, Or.inr hp.lists⟩
  · change s1.pId2dataMap.Good
    rw [hmap]
    exact Good.put h.good true true op.id _
  · rw [← getdatanode_withItem h.good op]
    funext id
    change smGetPtrvalue s1.pId2dataMap id = _
    rw [hmap]
    rfl
  · rw [setTime, length_modifyData, hlen]
    exact List.length_append

theorem change_inPlace {q : Nat} {k : NlaMapNode} (conf : Conf) (h : Sound s) (hid : s.getdatanode op.id = some d)
    (hcell : s.cell d = some q) (hk : s.mapNodes[q]? = some k) (hin : isLocInRC k.rc op.loc = true) :
    ∃ data, Change conf s op ((s.setLoc d op.loc).setTime d op.now) d data := by
  obtain ⟨old, hold, hname⟩ := h.names op.id d hid
  obtain ⟨h1, h2, h3⟩ := views_inPlace hold op.loc op.now
  refine ⟨_, ⟨h.good, ?_, h3, rfl, hname, rfl, Or.inr ⟨hid, ?_, old, hold, rfl⟩⟩, h.grid, Keeps.refl _,
    Or.inl ⟨q, k, hid, hcell, hk, hin, rfl, h1, h2⟩⟩
  · rw [Function.update_eq_self_iff.mpr hid.symm]
    rfl
  · rw [setTime, length_modifyData, setLoc, length_modifyData]

theorem change_move (h : Sound s) (hid : s.getdatanode op.id = some d)
    (hadd : Added conf d op.loc s.pMapRoot (s.setLoc d op.loc) s1) :
    ∃ data, Change conf s op (s1.setTime d op.now) d data := by
  obtain ⟨old, hold, hname⟩ := h.names op.id d hid
  have hp := arranged_move h hold hadd
  obtain ⟨-, hmap, hlen⟩ := hadd.frame
  refine ⟨_, ⟨?_, ?_, hp.item, rfl, hname, rfl, Or.inr ⟨hid, ?_, old, hold, rfl⟩⟩, hp.grid, hp.keeps,
    Or.inr hp.lists⟩
  · change s1.pId2dataMap.Good
    rw [hmap]
    exact h.good
  · rw [Function.update_eq_self_iff.mpr hid.symm]
    funext id
    change smGetPtrvalue s1.pId2dataMap id = _
    rw [hmap]
    rfl
  · rw [setTime, length_modifyData, hlen, setLoc, length_modifyData]

theorem SetStep.change (h : Sound s) (hs : SetStep conf s op s') :
    ∃ (d : Nat) (data : NlaDataItem), Change conf s op s' d data := by
  cases hs with
  | create hid hadd => exact ⟨_, _, change_create h hid hadd⟩
  | inPlace hid hcell hk hin => exact ⟨_, change_inPlace conf h hid hcell hk hin⟩
  | move hid _ _ _ hadd => exact ⟨_, change_move h hid hadd⟩

theorem SetStep.root (hs : SetStep conf s op s') : s'.pMapRoot = s.pMapRoot := by
  cases hs with
  | create _ hadd => exact hadd.frame.1
  | inPlace _ _ _ _ => rfl
  | move _ _ _ _ hadd => exact hadd.frame.1

theorem SetStep.shape (h : Shape conf.nMapMaxLevel s.mapNodes s.pMapRoot) (hs : SetStep conf s op s') :
    Shape conf.nMapMaxLevel s'.mapNodes s'.pMapRoot := by
  rw [hs.root]
  cases hs with
  | create _ hadd => exact hadd.shape h
  | inPlace _ _ _ _ => exact h
  | move _ _ _ _ hadd => exact hadd.shape (s := s.setLoc _ op.loc) h

theorem Change.effect {data : NlaDataItem} (hw : Change conf s op s' d data)
    (hshape : Shape conf.nMapMaxLevel s'.mapNodes s'.pMapRoot) : Effect conf s op s' d data :=
  ⟨hw.toWrote, hshape, hw.keeps, hw.lists⟩

theorem Effect.change {data : NlaDataItem} (hw : Effect conf s op s' d data) : Change conf s op s' d data :=
  ⟨hw.toWrote, hw.shape.grid, hw.keeps, hw.lists⟩

theorem effect_create (h : Inv conf s) (hid : s.getdatanode op.id = none)
    (hadd : Added conf s.dataNodes.length op.loc s.pMapRoot (s.withItem op) s1) :
    Effect conf s op (s1.setTime s.dataNodes.length op.now) s.dataNodes.length op.item :=
  (change_create h.sound hid hadd).effect (SetStep.shape h.shape (.create hid hadd))

theorem effect_inPlace {q : Nat} {k : NlaMapNode} (h : Inv conf s) (hid : s.getdatanode op.id = some d)
    (hcell : s.cell d = some q) (hk : s.mapNodes[q]? = some k) (hin : isLocInRC k.rc op.loc = true) :
    ∃ data, Effect conf s op ((s.setLoc d op.loc).setTime d op.now) d data := by
  obtain ⟨data, hw⟩ := change_inPlace conf h.sound hid hcell hk hin
  exact ⟨data, hw.effect h.shape⟩

theorem effect_move (h : Inv conf s) (hid : s.getdatanode op.id = some d)
    (hadd : Added conf d op.loc s.pMapRoot (s.setLoc d op.loc) s1) :
    ∃ data, Effect conf s op (s1.setTime d op.now) d data := by
  obtain ⟨data, hw⟩ := change_move h.sound hid hadd
  refine ⟨data, hw.effect ?_⟩
  change Shape conf.nMapMaxLevel s1.mapNodes s1.pMapRoot
  rw [hadd.frame.1]
  exact hadd.shape h.shape

theorem SetStep.effect (h : Inv conf s) (hs : SetStep conf s op s') :
    ∃ (d : Nat) (data : NlaDataItem), Effect conf s op s' d data := by
  obtain ⟨d, data, hw⟩ := hs.change h.sound
  exact ⟨d, data, hw.effect (hs.shape h.shape)⟩

/-! ## The invariant after a call -/

section EffectInv

variable {data : NlaDataItem}

theorem Wrote.length_le (hw : Wrote s op s' d data) : s.dataNodes.length ≤ s'.dataNodes.length := by
  rcases hw.record with ⟨-, -, hl, -⟩ | ⟨-, hl, -⟩ <;> omega

/-- The head of a list stays, or the node that was written is the new one. -/
theorem Change.head_cases (hw : Change conf s op s' d data) (q : Nat) : s'.head q = s.head q ∨ s'.head q = some d := by
  rcases hw.lists with ⟨-, -, -, -, -, -, hmaps, -⟩ | hr
  · left
    rw [head, hmaps, head]
  · cases hr with
    | leaf r k hk hL hin hhead hnext hcell =>
        rw [hhead]
        split_ifs
        · exact Or.inr rfl
        · exact Or.inl rfl
    | lost hL hout hhead hnext hcell => exact Or.inl (by rw [hhead])

/-- A `next` stays, or it is the head a list had before. -/
theorem Change.next_cases (hw : Change conf s op s' d data) (e : Nat) :
    s'.next e = s.next e ∨ ∃ q : Nat, s'.next e = s.head q := by
  rcases hw.lists with ⟨-, -, -, -, -, -, -, hnext, -⟩ | hr
  · exact Or.inl (by rw [hnext])
  · cases hr with
    | leaf r k hk hL hin hhead hnext hcell =>
        rw [hnext]
        by_cases he : e = d
        · exact Or.inr ⟨r, by rw [he, Function.update_self]⟩
        · exact Or.inl (Function.update_of_ne he _ _)
    | lost hL hout hhead hnext hcell => exact Or.inl (by rw [hnext])

/-- The `p_map_node` of another node stays. -/
theorem Change.cell_of_ne (hw : Change conf s op s' d data) {e : Nat} (he : e ≠ d) : s'.cell e = s.cell e := by
  rcases hw.lists with ⟨-, -, -, -, -, -, -, -, hcell⟩ | hr
  · rw [hcell]
  · cases hr with
    | leaf r k hk hL hin hhead hnext hcell => rw [hcell, Function.update_of_ne he]
    | lost hL hout hhead hnext hcell => rw [hcell]

/-- That of the node that was written stays, or it is a leaf. -/
theorem Change.cell_cases (hw : Change conf s op s' d data) : s'.cell d = s.cell d ∨
    ∃ (q : Nat) (k : NlaMapNode), s'.cell d = some q ∧ s'.mapNodes[q]? = some k ∧ conf.nMapMaxLevel ≤ k.iLevel := by
  rcases hw.lists with ⟨-, -, -, -, -, -, -, -, hcell⟩ | hr
  · exact Or.inl (by rw [hcell])
  · cases hr with
    | leaf r k hk hL hin hhead hnext hcell => exact Or.inr ⟨r, k, by rw [hcell, Function.update_self], hk, hL⟩
    | lost hL hout hhead hnext hcell => exact Or.inl (by rw [hcell])

theorem Wrote.names (h : Sound s) (hw : Wrote s op s' d data) (id : CStr) (e : Nat)
    (he : s'.getdatanode id = some e) :
    ∃ data, s'.item e = some data ∧ data.achId = strcpyId id := by
  rw [hw.get] at he
  rw [hw.item]
  by_cases hid : id = op.id
  · rw [hid, Function.update_self] at he
    cases he
    exact ⟨data, by rw [Function.update_self], by rw [hid, hw.name]⟩
  · rw [Function.update_of_ne hid] at he
    rw [Function.update_of_ne (hw.other h hid he)]
    exact h.names id e he

theorem Wrote.inj (h : Sound s) (hw : Wrote s op s' d data) (id id' : CStr) (e : Nat)
    (he : s'.getdatanode id = some e) (he' : s'.getdatanode id' = some e) : id = id' := by
  rw [hw.get] at he he'
  by_cases hid : id = op.id <;> by_cases hid' : id' = op.id
  · rw [hid, hid']
  · rw [hid, Function.update_self] at he
    rw [Function.update_of_ne hid'] at he'
    exact absurd (Option.some.inj he).symm (hw.other h hid' he')
  · rw [hid', Function.update_self] at he'
    rw [Function.update_of_ne hid] at he
    exact absurd (Option.some.inj he').symm (hw.other h hid he)
  · rw [Function.update_of_ne hid] at he
    rw [Function.update_of_ne hid'] at he'
    exact h.inj id id' e he he'

/-- **Every call keeps the invariant**, whatever its level. -/
theorem Change.sound (h : Sound s) (hw : Change conf s op s' d data) : Sound s' := by
  have hlen := hw.toWrote.length_le
  refine ⟨hw.grid, fun q e he => ?_, fun f e he => ?_, fun e q hq => ?_, hw.toWrote.names h, hw.good, hw.toWrote.inj h⟩
  · rcases hw.head_cases q with hhead | hhead
    · rw [hhead] at he
      exact Nat.lt_of_lt_of_le (h.heads q e he) hlen
    · rw [hhead] at he
      cases he
      exact lt_of_item hw.item_self
  · rcases hw.next_cases f with hnext | ⟨q, hnext⟩
    · rw [hnext] at he
      exact Nat.lt_of_lt_of_le (h.nexts f e he) hlen
    · rw [hnext] at he
      exact Nat.lt_of_lt_of_le (h.heads q e he) hlen
  · have hkept : s.cell e = some q → ∃ k, s'.mapNodes[q]? = some k := by
      intro hq
      obtain ⟨k, hk⟩ := h.cells e q hq
      obtain ⟨k', hk', -⟩ := hw.keeps q k hk
      exact ⟨k', hk'⟩
    by_cases he : e = d
    · subst he
      rcases hw.cell_cases with hcell | ⟨q', k, hcell, hk, -⟩
      · exact hkept (by rw [← hcell, hq])
      · rw [hcell] at hq
        cases hq
        exact ⟨k, hk⟩
    · exact hkept (by rw [← hw.cell_of_ne he, hq])

/-- With one level for all calls, the `p_map_node` of every item stays a leaf. -/
theorem Effect.inv (h : Inv conf s) (hw : Effect conf s op s' d data) : Inv conf s' := by
  have hs := hw.change.sound h.sound
  refine ⟨hw.shape, hs.heads, hs.nexts, fun e q hq => ?_, hs.names, hs.good, hs.inj⟩
  have hkept : s.cell e = some q → ∃ k, s'.mapNodes[q]? = some k ∧ conf.nMapMaxLevel ≤ k.iLevel := by
    intro hq
    obtain ⟨k, hk, hL⟩ := h.cells e q hq
    obtain ⟨k', hk', -, -, hlev, -⟩ := hw.keeps q k hk
    exact ⟨k', hk', by rw [hlev]; exact hL⟩
  by_cases he : e = d
  · subst he
    rcases hw.change.cell_cases with hcell | ⟨q', k, hcell, hk, hL⟩
    · exact hkept (by rw [← hcell, hq])
    · rw [hcell] at hq
      cases hq
      exact ⟨k, hk, hL⟩
  · exact hkept (by rw [← hw.change.cell_of_ne he, hq])

end EffectInv

theorem SetStep.inv (h : Inv conf s) (hs : SetStep conf s op s') : Inv conf s' := by
  obtain ⟨d, data, hw⟩ := hs.effect h
  exact hw.inv h

theorem applySet_inv (h : Inv conf s) (hs : applySet conf s op = .ok s') : SetStep conf s op s' ∧ Inv conf s' := by
  rcases applySet_cases h.sound conf op with ⟨t, ht, hstep⟩ | ⟨d, -, -, herr⟩
  · rw [ht] at hs
    cases hs
    exact ⟨hstep, hstep.inv h⟩
  · rw [herr] at hs
    cases hs

theorem applySet_error {e : Fault} (h : Inv conf s) (hs : applySet conf s op = .error e) : e = .nullDeref := by
  rcases applySet_cases h.sound conf op with ⟨t, ht, -⟩ | ⟨d, -, -, herr⟩
  · rw [ht] at hs
    cases hs
  · rw [herr] at hs
    cases hs
    rfl

/-- A run of any calls ends in the invariant, or at a read through a NULL `p_map_node`. -/
theorem runSets_cases (h : Inv conf s) (ops : List SetItem) :
    (∃ s', runSets conf s ops = .ok s' ∧ Inv conf s') ∨ runSets conf s ops = .error .nullDeref := by
  have hrun : (∃ s', runSets conf s ops = .ok s' ∧ Inv conf s') ∨ ∃ e, runSets conf s ops = .error e ∧ e = .nullDeref :=
    Library.run_cases h (fun s op s' hs hok => (applySet_inv hs hok).2) fun s op e hs herr => applySet_error hs herr
  rcases hrun with hok | ⟨e, he, rfl⟩
  · exact Or.inl hok
  · exact Or.inr he

end Lookaround
