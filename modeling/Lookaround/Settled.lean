import Lookaround.Counts
import Lookaround.Runs

/-!
# Runs in which no item leaves its cell

* `Added.count_root` : which counts a new item changes;
* `Housed s` : every data node is held by the id map and linked in the list of its cell; `Settled s` : in addition the
  count of a node is the number of items in its rectangle;
* `Staying`, `SetStep.settled` : the calls that do not move an item keep this;
* `runSets_refines_table` : in their runs a query reports the id map.
-/

namespace Lookaround

open NlaCoreData

variable {conf : Conf} {s s' : NlaCoreData} {op : SetItem} {ops : List SetItem} {iHashSize : Nat} {loc : Nla2dloc}
  {p q d root : Nat} {m k : NlaMapNode}

/-! ## Counts -/

/-- A new item is counted by the nodes whose rectangle has its location. -/
theorem Added.count_root (ha : Added conf d loc p s s') (h : Shape conf.nMapMaxLevel s.mapNodes p)
    (hin : isLocInRC initRootRect loc = true) (hk : s'.mapNodes[q]? = some k) :
    k.iItemCount = s.countAt q + if isLocInRC k.rc loc = true then 1 else 0 := by
  obtain ⟨m, hm, hrc, hlev, -⟩ := h.top
  have hshape := ha.shape h
  have h0 := (hshape.node q k hk).level
  rw [ha.count h.grid hm (fun hl => by rw [hrc]; exact hl) hk]
  congr 1
  refine if_congr ⟨fun hor => ?_, fun hkl => ?_⟩ rfl rfl
  · rcases hor with rfl | ⟨-, -, hkl⟩
    · obtain ⟨m', hm', hrc', -⟩ := hshape.top
      obtain rfl := Option.some.inj (hk.symm.trans hm')
      rw [hrc']
      exact hin
    · exact hkl
  · by_cases hlevk : k.iLevel = 0
    · exact Or.inl (hshape.grid.eq_root hk hlevk)
    · refine Or.inr ⟨by omega, ?_, hkl⟩
      obtain ⟨q', k', i, hk', hc, -, hlev', -⟩ := hshape.grid.parent hk (hshape.grid.ne_root hk (by omega))
      have := hshape.level_lt hk' hc
      omega

/-! ## The invariant -/

/-- The locations of the data nodes. -/
def NlaCoreData.locs (s : NlaCoreData) : List Nla2dloc := s.dataNodes.map fun n => n.data.loc

theorem NlaCoreData.getElem?_locs (s : NlaCoreData) (e : Nat) : s.locs[e]? = (s.item e).map NlaDataItem.loc := by
  rw [locs, List.getElem?_map, item, Option.map_map]
  rfl

/-- The id map holds every data node, and the list of a node has the data nodes that name it. -/
structure Housed (s : NlaCoreData) : Prop where
  held : ∀ d : Nat, d < s.dataNodes.length → ∃ id, s.getdatanode id = some d
  lists : ∀ q : Nat, ∃ l, Library.Chain s.next (s.head q) l ∧ ∀ d : Nat, d ∈ l ↔ s.cell d = some q

/-- No item has left its cell: the items are housed, and the counts are exact. -/
structure Settled (s : NlaCoreData) : Prop extends Housed s where
  counts : ∀ (q : Nat) (k : NlaMapNode), s.mapNodes[q]? = some k →
    k.iItemCount = UInt32.ofNat (s.locs.countP (isLocInRC k.rc))

theorem housed_init (iHashSize : Nat) (h0 : 0 < iHashSize) : Housed (initCoreData iHashSize h0) where
  held := fun d hd => absurd hd (Nat.not_lt_zero d)
  lists := by
    intro q
    obtain ⟨l, hl⟩ := listsEnd_init iHashSize h0 q
    refine ⟨l, hl, fun d => iff_of_false (fun hd => ?_) (by simp [cell, initCoreData])⟩
    exact absurd ((inv_init ⟨0⟩ iHashSize h0).reaches_lt (hl.mem_iff_reaches.mp hd)) (Nat.not_lt_zero d)

theorem settled_init (iHashSize : Nat) (h0 : 0 < iHashSize) : Settled (initCoreData iHashSize h0) where
  toHoused := housed_init iHashSize h0
  counts := by
    intro q k hk
    rw [initCoreData, List.getElem?_singleton] at hk
    split_ifs at hk
    cases hk
    rfl

/-- The call leaves its item in its cell. -/
def Staying (s : NlaCoreData) (op : SetItem) : Prop :=
  ∀ (d q : Nat) (k : NlaMapNode), s.getdatanode op.id = some d → s.cell d = some q → s.mapNodes[q]? = some k →
    isLocInRC k.rc op.loc = true

/-- A housed item names a leaf that has its location. -/
theorem Housed.cell (hS : Housed s) (hb : BackPtr conf s) (hd : d < s.dataNodes.length) :
    ∃ (q : Nat) (k : NlaMapNode) (data : NlaDataItem), s.cell d = some q ∧ s.mapNodes[q]? = some k ∧
      conf.nMapMaxLevel ≤ k.iLevel ∧ s.item d = some data ∧ isLocInRC k.rc data.loc = true := by
  obtain ⟨id, hid⟩ := hS.held d hd
  exact hb id d hid

/-- A node made by the descent has no item of before in its rectangle. -/
theorem Settled.countP_new (hS : Settled s) (hb : BackPtr conf s)
    (hshape : Shape conf.nMapMaxLevel s.mapNodes root) (hshape' : Shape conf.nMapMaxLevel s'.mapNodes root)
    (hkeeps : Keeps s.mapNodes s'.mapNodes) (hk : s'.mapNodes[q]? = some k) (hnew : s.mapNodes[q]? = none) :
    s.locs.countP (isLocInRC k.rc) = 0 := by
  rw [List.countP_eq_zero]
  intro loc hloc hin
  obtain ⟨e, he⟩ := List.mem_iff_getElem?.mp hloc
  rw [getElem?_locs, Option.map_eq_some_iff] at he
  obtain ⟨data, hdata, rfl⟩ := he
  obtain ⟨r, kr, data', -, hkr, hL, hdata', hrin⟩ := hS.cell hb (lt_of_item hdata)
  obtain rfl := Option.some.inj (hdata.symm.trans hdata')
  -- the ancestor of the item's leaf at the level of the new node is the new node
  obtain ⟨kr', hkr', -, -, hlev', -⟩ := hkeeps r kr hkr
  have hle : k.iLevel ≤ kr'.iLevel := hshape'.level_le hkr' hk (by omega)
  have h0 := (hshape'.node q k hk).level
  obtain ⟨a, ka, hka, hlev, hsub⟩ := hshape.grid.ancestor (n := k.iLevel.toNat) hkr (by omega)
  obtain ⟨ka', hka', hrc, -, hlev'', -⟩ := hkeeps a ka hka
  have haq := hshape'.grid.level_unique (n := k.iLevel.toNat) hka' hk (by omega) (by omega)
    (by rw [hrc]; exact hsub _ hrin) hin
  rw [haq, hnew] at hka
  cases hka

/-- The lists after a node that was in none of them was linked. -/
theorem Relinked.lists (hr : Relinked conf d loc s s') (hin : isLocInRC initRootRect loc = true)
    (hl : ∀ q : Nat, ∃ l, Library.Chain s.next (s.head q) l ∧ ∀ e : Nat, e ∈ l ↔ s.cell e = some q ∧ e ≠ d) (q : Nat) :
    ∃ l, Library.Chain s'.next (s'.head q) l ∧ ∀ e : Nat, e ∈ l ↔ s'.cell e = some q := by
  cases hr with
  | lost _ hout _ _ _ =>
      rw [hin] at hout
      cases hout
  | leaf r k hk hL hkin hhead hnext hcell =>
      obtain ⟨l, hl, hmem⟩ := hl q
      have hnot : d ∉ l := fun hd => ((hmem d).mp hd).2 rfl
      rw [hhead, hnext, hcell]
      split_ifs with hrq
      · subst hrq
        refine ⟨_, hl.push hnot, fun e => ?_⟩
        rw [List.mem_cons, hmem]
        by_cases he : e = d
        · simp [he]
        · simp [he]
      · refine ⟨l, hl.congr fun b hb => Function.update_of_ne ?_ _ _, fun e => ?_⟩
        · rintro rfl
          exact hnot hb
        · rw [hmem]
          by_cases he : e = d
          · simp [he, hrq]
          · simp [he]

theorem Housed.lists_create (hS : Housed s) (hr : Relinked conf s.dataNodes.length loc s s')
    (hin : isLocInRC initRootRect loc = true) (q : Nat) :
    ∃ l, Library.Chain s'.next (s'.head q) l ∧ ∀ e : Nat, e ∈ l ↔ s'.cell e = some q := by
  refine hr.lists hin (fun q => ?_) q
  obtain ⟨l, hl, hmem⟩ := hS.lists q
  refine ⟨l, hl, fun e => (hmem e).trans (and_iff_left_of_imp ?_).symm⟩
  rintro hq rfl
  rw [NlaCoreData.cell, List.getElem?_eq_none_iff.mpr (le_refl _)] at hq
  cases hq

/-- A call keeps every data node in the id map. -/
theorem held_wrote {data : NlaDataItem} (hheld : ∀ e : Nat, e < s.dataNodes.length → ∃ id, s.getdatanode id = some e)
    (hw : Wrote s op s' d data) (e : Nat) (he : e < s'.dataNodes.length) : ∃ id, s'.getdatanode id = some e := by
  by_cases hed : e = d
  · exact ⟨op.id, by rw [hw.get_self, hed]⟩
  · have hlt : e < s.dataNodes.length := by
      rcases hw.record with ⟨-, hd, hlen, -⟩ | ⟨-, hlen, -⟩
      · have : e ≠ s.dataNodes.length := fun hc => hed (hc.trans hd.symm)
        omega
      · omega
    obtain ⟨id, hid⟩ := hheld e hlt
    have hne : id ≠ op.id := by
      rintro rfl
      rcases hw.record with ⟨hn, -⟩ | ⟨hsome, -⟩
      · rw [hn] at hid
        cases hid
      · rw [hsome] at hid
        exact hed (Option.some.inj hid).symm
    exact ⟨id, by rw [hw.get, Function.update_of_ne hne, hid]⟩

theorem locs_create (hp : Placed conf s.dataNodes.length op.loc op.item s s') : s'.locs = s.locs ++ [op.loc] := by
  apply List.ext_getElem?
  intro e
  rw [getElem?_locs, hp.item]
  by_cases he : e = s.dataNodes.length
  · subst he
    rw [Function.update_self, List.getElem?_append_right (by rw [locs, List.length_map])]
    simp [locs, SetItem.item]
  · rw [Function.update_of_ne he, ← getElem?_locs]
    by_cases hlt : e < s.dataNodes.length
    · rw [List.getElem?_append_left (by rw [locs, List.length_map]; exact hlt)]
    · rw [List.getElem?_eq_none_iff.mpr (by rw [locs, List.length_map]; omega), List.getElem?_eq_none_iff.mpr]
      rw [List.length_append, locs, List.length_map, List.length_singleton]
      omega

/-- A new item is counted once, by the nodes that have its location. -/
theorem Settled.counts_create (h : Inv conf s) (hb : BackPtr conf s) (hS : Settled s)
    (hin : isLocInRC initRootRect op.loc = true) {s1 : NlaCoreData}
    (hadd : Added conf s.dataNodes.length op.loc s.pMapRoot (s.withItem op) s1)
    (hk : (s1.setTime s.dataNodes.length op.now).mapNodes[q]? = some k) :
    k.iItemCount = UInt32.ofNat ((s1.setTime s.dataNodes.length op.now).locs.countP (isLocInRC k.rc)) := by
  have hp := placed_create h hadd
  have hcount := hadd.count_root h.shape hin hk
  have hold : s.countAt q = UInt32.ofNat (s.locs.countP (isLocInRC k.rc)) := by
    cases hq : s.mapNodes[q]? with
    | none =>
        have hshape' : Shape conf.nMapMaxLevel s1.mapNodes s.pMapRoot := hadd.shape h.shape
        rw [countAt, hq, hS.countP_new hb h.shape hshape' hp.keeps hk hq]
        rfl
    | some k0 =>
        obtain ⟨k1, hk1, hrc1, -⟩ := hp.keeps q k0 hq
        obtain rfl := Option.some.inj (hk.symm.trans hk1)
        rw [countAt_eq hq, hS.counts q k0 hq, hrc1]
  have hbase : (s.withItem op).countAt q = s.countAt q := rfl
  rw [hcount, hbase, hold, locs_create hp, List.countP_append, List.countP_singleton]
  split_ifs
  · rw [UInt32.ofNat_add]
    rfl
  · rw [Nat.add_zero, UInt32.add_zero]

/-- A node has the old and the new location of an item that stays in its cell, or neither. -/
theorem countP_inPlace (h : Inv conf s) (hb : BackPtr conf s) (hid : s.getdatanode op.id = some d)
    (hcell : s.cell d = some q) (hk : s.mapNodes[q]? = some k) (hkin : isLocInRC k.rc op.loc = true) {r : Nat}
    {kr : NlaMapNode} (hkr : s.mapNodes[r]? = some kr) :
    ((s.setLoc d op.loc).setTime d op.now).locs.countP (isLocInRC kr.rc) = s.locs.countP (isLocInRC kr.rc) := by
  obtain ⟨q', k', old, hq', hk', hL, hold, hoin⟩ := hb op.id d hid
  obtain rfl := Option.some.inj (hcell.symm.trans hq')
  obtain rfl := Option.some.inj (hk.symm.trans hk')
  obtain ⟨-, -, hitem⟩ := views_inPlace hold op.loc op.now
  have hle := h.shape.level_le hk hkr hL
  have hboth : isLocInRC kr.rc old.loc = isLocInRC kr.rc op.loc := by
    refine Bool.eq_iff_iff.mpr ⟨fun hl => ?_, fun hl => ?_⟩
    · exact h.shape.grid.rc_subset hk hkr hle hoin hl hkin
    · exact h.shape.grid.rc_subset hk hkr hle hkin hl hoin
  have hmap : ((s.setLoc d op.loc).setTime d op.now).locs.map (isLocInRC kr.rc) = s.locs.map (isLocInRC kr.rc) := by
    apply List.ext_getElem?
    intro e
    rw [List.getElem?_map, List.getElem?_map, getElem?_locs, getElem?_locs, hitem]
    by_cases he : e = d
    · rw [he, Function.update_self, hold]
      exact congrArg some hboth.symm
    · rw [Function.update_of_ne he]
  have hcount := congrArg (List.countP id) hmap
  rw [List.countP_map, List.countP_map] at hcount
  exact hcount

theorem SetStep.settled (h : Inv conf s) (hb : BackPtr conf s) (hS : Settled s)
    (hin : isLocInRC initRootRect op.loc = true) (hstay : Staying s op) (hs : SetStep conf s op s') : Settled s' := by
  obtain ⟨d, data, heff⟩ := hs.effect h
  have hheld := held_wrote hS.held heff.toWrote
  cases hs with
  | create hid hadd =>
      refine ⟨⟨hheld, hS.lists_create (placed_create h hadd).lists hin⟩, fun q k hk => ?_⟩
      exact hS.counts_create h hb hin hadd hk
  | @inPlace d' q k hid hcell hk hkin =>
      obtain ⟨old, hold⟩ := h.item hid
      obtain ⟨hnext, hcells, -⟩ := views_inPlace hold op.loc op.now
      refine ⟨⟨hheld, fun r => ?_⟩, fun r kr hkr => ?_⟩
      · rw [hnext, hcells]
        exact hS.lists r
      · rw [countP_inPlace h hb hid hcell hk hkin hkr]
        exact hS.counts r kr hkr
  | move hid hcell hk hout hadd =>
      rw [hstay _ _ _ hid hcell hk] at hout
      cases hout

/-! ## Queries on settled items -/

/-- An item beneath a node is in its rectangle. -/
theorem Settled.isLocInRC_of_beneath (h : Inv conf s) (hb : BackPtr conf s) (hS : Settled s) (hbe : Beneath conf.nMapMaxLevel s d p)
    (hm : s.mapNodes[p]? = some m) : ∃ data, s.item d = some data ∧ isLocInRC m.rc data.loc = true := by
  induction hbe generalizing m with
  | @list p m' hm' hd =>
      obtain rfl := Option.some.inj (hm.symm.trans hm')
      rw [← head_eq hm] at hd
      obtain ⟨l, hl, hmem⟩ := hS.lists p
      have hcell := (hmem d).mp (hl.mem_iff_reaches.mpr hd)
      obtain ⟨q, k, data, hq, hk, -, hdata, hin⟩ := hS.cell hb (h.reaches_lt hd)
      obtain rfl := Option.some.inj (hcell.symm.trans hq)
      obtain rfl := Option.some.inj (hm.symm.trans hk)
      exact ⟨data, hdata, hin⟩
  | @child p c m' i hm' _ hc _ ih =>
      obtain rfl := Option.some.inj (hm.symm.trans hm')
      have hnode := h.shape.node p m hm
      obtain ⟨k, hk, -, -, hrc⟩ := h.shape.grid.child hm hc
      obtain ⟨data, hdata, hin⟩ := ih hk
      rw [hrc] at hin
      exact ⟨data, hdata, isLocInRC_of_childRect hnode.ok hin⟩

/-- What is in the list of a node is beneath the root. -/
theorem Shape.beneath_root {L : Int} (h : Shape L s.mapNodes s.pMapRoot) (hm : s.mapNodes[p]? = some m)
    (hbe : Beneath L s d p) : Beneath L s d s.pMapRoot := by
  obtain ⟨n, hn⟩ : ∃ n : Nat, m.iLevel = n := ⟨m.iLevel.toNat, by have := (h.node p m hm).level; omega⟩
  induction n generalizing p m with
  | zero =>
      rw [← h.grid.eq_root hm (by simpa using hn)]
      exact hbe
  | succ n ih =>
      by_cases hp : p = s.pMapRoot
      · rw [← hp]
        exact hbe
      · obtain ⟨q, k, i, hk, hc, -, hlev, -⟩ := h.grid.parent hm hp
        exact ih hk (.child hk (h.level_lt hk hc) hc hbe) (by push_cast at hn; omega)

theorem Settled.wellFormed (h : Inv conf s) (hb : BackPtr conf s) (hS : Settled s)
    (hlen : s.dataNodes.length < 2 ^ 32) : WellFormed conf.nMapMaxLevel s := by
  obtain ⟨mr, hmr, hrc, hlev, -⟩ := h.shape.top
  refine ⟨⟨mr, hmr, hlev, hrc⟩, fun p hp => ?_⟩
  obtain ⟨m, hm⟩ := hp.exists_node h.shape.grid
  have hnode := h.shape.node p m hm
  refine ⟨m, hm, fun _ => hnode.childs.imp id fun hcs i => ?_, hnode.inner, fun _ => ?_, fun d hd => ?_⟩
  · obtain ⟨c, k, h1, h2, h3, -, h5⟩ := hcs i
    exact ⟨c, k, h1, h2, h3, h5⟩
  · obtain ⟨l, hl, hmem⟩ := hS.lists p
    obtain ⟨es, hes⟩ := h.listed hl
    rw [head_eq hm] at hes
    refine ⟨es, hes, fun e he => ?_⟩
    obtain ⟨hr, hitem⟩ := (hes.reaches_iff e).mp he
    obtain ⟨data, hdata, hin⟩ := hS.isLocInRC_of_beneath h hb (.list hm hr) hm
    obtain rfl := Option.some.inj (hitem.symm.trans hdata)
    exact hin
  · obtain ⟨data, hdata, hin⟩ := hS.isLocInRC_of_beneath h hb hd hm
    rw [hS.counts p m hm]
    -- the item is counted, and the number of items does not wrap
    have hmem : data.loc ∈ s.locs := by
      refine List.mem_iff_getElem?.mpr ⟨d, ?_⟩
      rw [getElem?_locs, hdata]
      rfl
    have hpos : 0 < s.locs.countP (isLocInRC m.rc) := List.countP_pos_iff.mpr ⟨data.loc, hmem, hin⟩
    have hle : s.locs.countP (isLocInRC m.rc) ≤ s.dataNodes.length := by
      refine List.countP_le_length.trans (le_of_eq ?_)
      rw [locs, List.length_map]
    exact ofNat_itemCount_ne_zero hpos hle hlen

/-- The stored items of a settled index are the nodes the id map holds. -/
theorem Settled.matching_eq (h : Inv conf s) (hb : BackPtr conf s) (hS : Settled s) (rc : NlaRect)
    (iStatus iType : Int32) : matching conf.nMapMaxLevel s rc iStatus iType =
      { d | (∃ id, s.getdatanode id = some d) ∧
        ∃ data, s.item d = some data ∧ passes rc iStatus iType data = true } := by
  ext d
  refine and_congr_left fun hitem => ⟨fun _ => ?_, fun hheld => ?_⟩
  · obtain ⟨data, hdata, -⟩ := hitem
    exact hS.held d (lt_of_item hdata)
  · obtain ⟨id, hid⟩ := hheld
    obtain ⟨q, k, -, hq, hk, -, -⟩ := hb id d hid
    obtain ⟨l, hl, hmem⟩ := hS.lists q
    have hr := hl.mem_iff_reaches.mp ((hmem d).mpr hq)
    rw [head_eq hk] at hr
    exact h.shape.beneath_root hk (.list hk hr)

theorem Written.get_eq_none_iff (hw : Written s ops) (id : CStr) :
    s.getdatanode id = none ↔ id ∉ ops.map SetItem.id := by
  have hid := hw id
  have hmem : firstSet ops id = none ↔ id ∉ ops.map SetItem.id := by
    rw [firstSet, List.find?_eq_none]
    simp
  rw [← hmem]
  have hnone := firstSet_eq_none_iff ops id
  cases hfirst : firstSet ops id with
  | none =>
      rw [hfirst] at hid
      exact iff_of_true hid rfl
  | some first =>
      cases hlast : lastSet ops id with
      | none =>
          rw [hfirst, hlast] at hnone
          simp at hnone
      | some last =>
          rw [hfirst, hlast] at hid
          obtain ⟨d, -, hd, -⟩ := hid
          rw [hd]
          simp

/-- A run in which no call moves an item out of its cell is settled, with a data node for each id. -/
theorem runSets_settled (h0 : 0 < iHashSize) (hin : ∀ op ∈ ops, isLocInRC initRootRect op.loc = true)
    (hstay : Library.EveryStep (applySet conf) Staying (initCoreData iHashSize h0) ops) :
    ∃ s, runSets conf (initCoreData iHashSize h0) ops = .ok s ∧ Inv conf s ∧ BackPtr conf s ∧ Settled s ∧
      s.dataNodes.length = (ops.map SetItem.id).toFinset.card := by
  suffices hrun : ∃ s, runSets conf (initCoreData iHashSize h0) ops = .ok s ∧ Inv conf s ∧ BackPtr conf s ∧
      Written s ops ∧ Settled s ∧ s.dataNodes.length = (ops.map SetItem.id).toFinset.card by
    obtain ⟨s, hs, hinv, hb, -, hS, hlen⟩ := hrun
    exact ⟨s, hs, hinv, hb, hS, hlen⟩
  refine Library.run_induction (I := fun pre s => Inv conf s ∧ BackPtr conf s ∧ Written s pre ∧ Settled s ∧
    s.dataNodes.length = (pre.map SetItem.id).toFinset.card) ?_ ((Library.everyStep_of_forall hin).and hstay) ?_
  · exact ⟨inv_init conf iHashSize h0, backPtr_init conf iHashSize h0, fun id => smGetPtrvalue_smNew iHashSize h0 id,
      settled_init iHashSize h0, rfl⟩
  · intro pre s op hI hP
    obtain ⟨hinv, hb, hw, hS, hlen⟩ := hI
    obtain ⟨s', hs', hstep, hinv', hb'⟩ := applySet_inRoot hinv hb hP.1
    refine ⟨s', hs', hinv', hb', hstep.written hinv hw, hstep.settled hinv hb hS hP.1 hP.2, ?_⟩
    obtain ⟨d, data, heff⟩ := hstep.effect hinv
    have hwr := heff.toWrote
    rw [List.map_append, List.toFinset_append, List.map_singleton, List.toFinset_cons, List.toFinset_nil]
    rcases hwr.record with ⟨hn, -, hl, -⟩ | ⟨hsome, hl, -⟩
    · have hid : op.id ∉ (pre.map SetItem.id).toFinset := by
        rw [List.mem_toFinset]
        exact (hw.get_eq_none_iff op.id).mp hn
      rw [hl, hlen, Finset.union_comm, insert_empty_eq, ← Finset.insert_eq, Finset.card_insert_of_notMem hid]
    · have hid : op.id ∈ (pre.map SetItem.id).toFinset := by
        rw [List.mem_toFinset]
        by_contra hc
        rw [(hw.get_eq_none_iff op.id).mpr hc] at hsome
        cases hsome
      rw [hl, hlen, Finset.union_comm, insert_empty_eq, ← Finset.insert_eq, Finset.insert_eq_of_mem hid]

/-- **The index refines the table of the id map** in every run in which no call moves an item out of its cell, for fewer
than `2 ^ 32` ids: a query with room for all of them emits, each once, the held items that pass. -/
theorem runSets_refines_table (h0 : 0 < iHashSize) (hin : ∀ op ∈ ops, isLocInRC initRootRect op.loc = true)
    (hstay : Library.EveryStep (applySet conf) Staying (initCoreData iHashSize h0) ops)
    (hids : (ops.map SetItem.id).toFinset.card < 2 ^ 32) :
    ∃ s, runSets conf (initCoreData iHashSize h0) ops = .ok s ∧ ∀ (rc : NlaRect) (iStatus iType : Int32),
      let held := { d | (∃ id, s.getdatanode id = some d) ∧
        ∃ data, s.item d = some data ∧ passes rc iStatus iType data = true }
      held.Finite ∧ ∀ iMaxCount : Int, (held.ncard : Int) ≤ iMaxCount →
        ∃ ex, Returns conf s rc iStatus iType iMaxCount ex ∧ ex.emitted.Nodup ∧ ∀ d, d ∈ ex.emitted ↔ d ∈ held := by
  obtain ⟨s, hs, hinv, hb, hS, hlen⟩ := runSets_settled h0 hin hstay
  refine ⟨s, hs, fun rc iStatus iType => ?_⟩
  have hwf := hS.wellFormed hinv hb (by omega)
  obtain ⟨all, hnd, hall, -, hret⟩ := hwf.returns rc iStatus iType
  rw [← hS.matching_eq hinv hb rc iStatus iType]
  obtain ⟨hfin, hcard⟩ := finite_and_ncard hnd hall
  refine ⟨hfin, fun iMaxCount hmax => ⟨_, hret iMaxCount, ?_⟩⟩
  rw [hcard, List.length_map] at hmax
  rw [List.take_of_length_le (by omega), emitted_emitAll, List.nil_append]
  exact ⟨hnd, hall⟩

theorem runSets_refines_table_in_place :
    ∃ s, runSets ⟨1⟩ (initCoreData 1 Nat.one_pos) [setA 5 5, setA 6 6] = .ok s ∧
      ∃ iMaxCount ex, Returns ⟨1⟩ s initRootRect (-1) (-1) iMaxCount ex ∧ ex.emitted.Nodup ∧ ∀ d, d ∈ ex.emitted ↔
        (∃ id, s.getdatanode id = some d) ∧ ∃ data, s.item d = some data ∧
          passes initRootRect (-1) (-1) data = true := by
  have hin : ∀ op ∈ [setA 5 5, setA 6 6], isLocInRC initRootRect op.loc = true := by decide
  have hids : ([setA 5 5, setA 6 6].map SetItem.id).toFinset.card < 2 ^ 32 := by decide
  have hstay : Library.EveryStep (applySet ⟨1⟩) Staying (initCoreData 1 Nat.one_pos) [setA 5 5, setA 6 6] := by
    refine ⟨fun d q k hd _ _ => (by cases hd), fun s hs => ⟨fun d q k hd hq hk => ?_, fun _ _ => trivial⟩⟩
    cases hs
    cases hd
    cases hq
    cases hk
    decide
  obtain ⟨s, hs, hall⟩ := runSets_refines_table Nat.one_pos hin hstay hids
  obtain ⟨-, hmax⟩ := hall initRootRect (-1) (-1)
  exact ⟨s, hs, _, hmax _ (le_refl _)⟩

/-- A move loses what was behind the item in its old list: of two items in one cell, the second goes to another cell, and
a query of the whole map no longer reports the first. -/
theorem runSets_loses_item : ∃ s ex,
    runSets ⟨1⟩ (initCoreData 1 Nat.one_pos) [setA 5 5, setB 5 5, setB (-5) (-5)] = .ok s ∧
      Returns ⟨1⟩ s initRootRect (-1) (-1) 2 ex ∧ ex.emitted = [1] ∧
      s.getdatanode (setA 5 5).id = some 0 ∧ s.item 0 = some (setA 5 5).item ∧
      passes initRootRect (-1) (-1) (setA 5 5).item = true :=
  ⟨_, _, rfl, ⟨4, rfl⟩, rfl, rfl, rfl, rfl⟩

end Lookaround
