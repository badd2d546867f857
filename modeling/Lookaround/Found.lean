import Lookaround.Index
import Lookaround.Geo

/-!
# Queries on a well-formed index

The lists of an index may be at several levels, one for each level `adddatanode` was called with. A query reads those of
its own level.

* `stored s rc iStatus iType` : the items of the index that pass a query's tests;
* `Index.seen_iff` : which items a query reads;
* `Index.returns` : a query with room for the stored items emits the ones it reads;
* `adddatanode_found` : a new item is found around its own location.
-/

namespace Lookaround

open NlaCoreData

variable {conf : Conf} {s s' : NlaCoreData} {loc : Nla2dloc} {p q d e root : Nat} {m k : NlaMapNode} {L : Int}

/-- The items in the lists of the index that pass a query's tests. -/
def stored (s : NlaCoreData) (rc : NlaRect) (iStatus iType : Int32) : Set DataPtr :=
  { d | (∃ q, Library.Reaches s.next d (s.head q)) ∧ ∃ data, s.item d = some data ∧
      passes rc iStatus iType data = true }

/-! ## Lists that are read -/

/-- A list that is read is at the query's level, or at that of the node the query starts from below it. -/
theorem Grid.list_of_seen (h : Grid s.mapNodes root) (hs : Seen L s d p) (hm : s.mapNodes[p]? = some m) :
    ∃ (q : Nat) (k : NlaMapNode), Library.Reaches s.next d (s.head q) ∧ s.mapNodes[q]? = some k ∧
      k.iLevel = max L m.iLevel := by
  induction hs generalizing m with
  | list hm' hL hd =>
      obtain rfl := Option.some.inj (hm.symm.trans hm')
      exact ⟨_, m, by rw [head_eq hm]; exact hd, hm, by omega⟩
  | child hm' hL hc _ ih =>
      obtain rfl := Option.some.inj (hm.symm.trans hm')
      obtain ⟨k, hk, hlev, -⟩ := h.child hm hc
      obtain ⟨q, kq, hq, hkq, hl⟩ := ih hk
      exact ⟨q, kq, hq, hkq, by omega⟩

/-- What is read from a node down to the query's level is read from the root. -/
theorem Grid.seen_root (h : Grid s.mapNodes root) (hm : s.mapNodes[p]? = some m) (hle : m.iLevel ≤ max L 0)
    (hs : Seen L s d p) : Seen L s d root := by
  obtain ⟨n, hn⟩ : ∃ n : Nat, m.iLevel = n := ⟨m.iLevel.toNat, by have := (h.node p m hm).level; omega⟩
  induction n generalizing p m with
  | zero =>
      rw [← h.eq_root hm (by simpa using hn)]
      exact hs
  | succ n ih =>
      obtain ⟨q, k, i, hk, hc, -, hlev, -⟩ := h.parent hm (h.ne_root hm (by omega))
      exact ih hk (by omega) (.child hk (by omega) hc hs) (by push_cast at hn; omega)

/-- **What a query reads**: the lists at its level. -/
theorem Index.seen_iff (hI : Index s) (L : Int) (d : Nat) : Seen L s d s.pMapRoot ↔
    ∃ (q : Nat) (k : NlaMapNode), Library.Reaches s.next d (s.head q) ∧ s.mapNodes[q]? = some k ∧
      k.iLevel = max L 0 := by
  constructor
  · intro hs
    obtain ⟨m, hm, -, hlev, -⟩ := hI.grid.top
    have hlist := hI.grid.list_of_seen hs hm
    rw [hlev] at hlist
    exact hlist
  · rintro ⟨q, k, hr, hk, hlev⟩
    rw [head_eq hk] at hr
    exact hI.grid.seen_root hk (le_of_eq hlev) (.list hk (by omega) hr)

theorem Seen.mem_itemsUnder (hs : Seen L s d q) (hu : Under s p q) : d ∈ itemsUnder s p := by
  induction hs with
  | @list q m hm _ hd => exact ⟨q, hu, by rw [head_eq hm]; exact hd⟩
  | child hm _ hc _ ih => exact ih (.child hu hm hc)

theorem Index.ncard_itemsUnder_le (hI : Index s) (p : Nat) : (itemsUnder s p).ncard ≤ s.dataNodes.length := by
  have hcard := Set.ncard_le_ncard (hI.itemsUnder_subset p) (Set.finite_lt_nat _)
  rwa [Set.Iio_def, ← Finset.coe_range, Set.ncard_coe_finset, Finset.card_range] at hcard

/-- A query of any level may read a well-formed index whose counts did not wrap. -/
theorem Index.readable (hI : Index s) (hlen : s.dataNodes.length < 2 ^ 32) (L : Int) : Readable L s := by
  obtain ⟨mr, hmr, hrc, hlev, -⟩ := hI.grid.top
  refine ⟨⟨mr, hmr, hlev, hrc⟩, fun p hp => ?_⟩
  obtain ⟨m, hm⟩ := hp.exists_node hI.grid
  refine ⟨m, hm, fun _ => (hI.grid.node p m hm).childs.imp id fun hcs i => ?_, fun _ => ?_, fun d hd => ?_⟩
  · obtain ⟨c, k, h1, h2, h3, -, h5⟩ := hcs i
    exact ⟨c, k, h1, h2, h3, h5⟩
  · obtain ⟨l, hl, -, hmem⟩ := hI.lists p
    rw [head_eq hm] at hl
    have hitem : ∀ d ∈ l, ∃ data, s.item d = some data := by
      intro d hd
      obtain ⟨-, -, data, -, hdata, -⟩ := hmem d hd
      exact ⟨data, hdata⟩
    obtain ⟨es, hes⟩ := exists_listed hl hitem
    refine ⟨es, hes, fun e he => ?_⟩
    obtain ⟨hr, hdata⟩ := (hes.reaches_iff e).mp he
    obtain ⟨-, k, data, hk, hdata', hin⟩ := hI.listed (d := e.1) (q := p) (by rw [head_eq hm]; exact hr)
    obtain rfl := Option.some.inj (hm.symm.trans hk)
    obtain rfl := Option.some.inj (hdata.symm.trans hdata')
    exact hin
  · have hpos : 0 < (itemsUnder s p).ncard :=
      (Set.ncard_pos (hI.finite_itemsUnder p)).mpr ⟨d, hd.mem_itemsUnder .self⟩
    rw [hI.counts p m hm]
    exact ofNat_itemCount_ne_zero hpos (hI.ncard_itemsUnder_le p) hlen

theorem finite_stored (s : NlaCoreData) (rc : NlaRect) (iStatus iType : Int32) : (stored s rc iStatus iType).Finite := by
  refine (Set.finite_lt_nat s.dataNodes.length).subset ?_
  rintro e ⟨-, data, hdata, -⟩
  exact lt_of_item hdata

/-- A query with room for all stored items that pass returns, and emits those in the lists at its level. -/
theorem Index.returns (hI : Index s) (hlen : s.dataNodes.length < 2 ^ 32) (conf : Conf) {rc : NlaRect}
    {iStatus iType : Int32} {iMaxCount : Int} (hmax : ((stored s rc iStatus iType).ncard : Int) ≤ iMaxCount) :
    ∃ ex, Returns conf s rc iStatus iType iMaxCount ex ∧
      ∀ d, d ∈ ex.emitted ↔ d ∈ seenMatching conf.nMapMaxLevel s rc iStatus iType := by
  obtain ⟨all, hnd, hall, -, hret⟩ := (hI.readable hlen conf.nMapMaxLevel).returns rc iStatus iType
  obtain ⟨-, hcard⟩ := finite_and_ncard hnd hall
  have hsub : seenMatching conf.nMapMaxLevel s rc iStatus iType ⊆ stored s rc iStatus iType := by
    rintro d ⟨hs, hd⟩
    obtain ⟨q, -, hr, -⟩ := (hI.seen_iff _ _).mp hs
    exact ⟨⟨q, hr⟩, hd⟩
  have hle := Set.ncard_le_ncard hsub (finite_stored s rc iStatus iType)
  rw [List.length_map] at hcard
  refine ⟨_, hret iMaxCount, fun d => ?_⟩
  rw [emitted_emitAll, List.take_of_length_le (by omega), List.nil_append, hall]

/-! ## A new item -/

/-- **An item is found where it was put.** For every well-formed index, every detached data node with a location in the
root rectangle, every level and every radius from a metre to 20000 kilometres: after `adddatanode` from the root, the
search rectangle around the location lies in the root rectangle and has the location, and a query over it, with the
item's type and status or without the filters, and with room for the stored items that pass, emits the item. The data
nodes are fewer than `2 ^ 32`, since the pool has 16 MB. -/
theorem adddatanode_found {n : NlaDataNode} (hI : Index s) (hlen : s.dataNodes.length < 2 ^ 32)
    (hd : s.dataNodes[d]? = some n) (hfree : ∀ q : Nat, ¬ Library.Reaches s.next d (s.head q))
    (hin : isLocInRC initRootRect n.data.loc = true) (conf : Conf) {r : ℝ} (h0 : 0.001 ≤ r) (hr : r ≤ 20000)
    {iStatus iType : Int32} (hstatus : iStatus = n.data.iStatus ∨ iStatus = invalidFilter)
    (htype : iType = n.data.iType ∨ iType = invalidFilter) :
    ∃ s', s.adddatanode conf .succeed (conf.nMapMaxLevel.toNat + 1) s.pMapRoot d = .ok s' ∧
      (getRectFromLocRadius n.data.loc r).Ok ∧ isLocInRC (getRectFromLocRadius n.data.loc r) n.data.loc = true ∧
      ∀ iMaxCount : Int, ((stored s' (getRectFromLocRadius n.data.loc r) iStatus iType).ncard : Int) ≤ iMaxCount →
        ∃ ex, Returns conf s' (getRectFromLocRadius n.data.loc r) iStatus iType iMaxCount ex ∧ d ∈ ex.emitted := by
  obtain ⟨hok, hcenter⟩ := getRectFromLocRadius_center h0 hr hin
  obtain ⟨s', q, hs', ha, hsp⟩ := adddatanode_spliced hI hd hin conf
  have hI' := hI.of_added hfree hd hin ha hsp
  have hlen' : s'.dataNodes.length < 2 ^ 32 := by
    rw [ha.frame.2.2]
    exact hlen
  refine ⟨s', hs', hok, hcenter, fun iMaxCount hmax => ?_⟩
  obtain ⟨ex, hret, hmem⟩ := hI'.returns hlen' conf hmax
  refine ⟨ex, hret, (hmem d).mpr ⟨?_, n.data, ?_, ?_⟩⟩
  · rw [hI'.seen_iff]
    obtain ⟨k, hk, -⟩ := hsp.leaf
    refine ⟨q, k, ?_, hk, hsp.level k hk⟩
    rw [hsp.head, if_pos rfl]
    exact .here
  · rw [hsp.item]
    exact item_of_getElem? hd
  · exact passes_iff.mpr ⟨htype.symm, hstatus.symm, hcenter⟩

/-- The data node of `looseNode`, put into an empty index of level 2 and looked for within a kilometre. -/
theorem adddatanode_found_loose : ∃ s', (emptyIndex [looseNode]).adddatanode ⟨2⟩ .succeed 3 0 0 = .ok s' ∧
    isLocInRC (getRectFromLocRadius ⟨5, 5⟩ 1) ⟨5, 5⟩ = true ∧
    ∀ iMaxCount : Int, ((stored s' (getRectFromLocRadius ⟨5, 5⟩ 1) 0 (-1)).ncard : Int) ≤ iMaxCount →
      ∃ ex, Returns ⟨2⟩ s' (getRectFromLocRadius ⟨5, 5⟩ 1) 0 (-1) iMaxCount ex ∧ 0 ∈ ex.emitted := by
  obtain ⟨s', hs', -, hcenter, hquery⟩ := adddatanode_found (n := looseNode) (d := 0) (r := 1)
    (index_emptyIndex [looseNode]) (by decide) rfl (fun q => free_emptyIndex [looseNode] 0 q) (by decide) ⟨2⟩
    (by norm_num) (by norm_num) (Or.inl rfl : (0 : Int32) = looseNode.data.iStatus ∨ _)
    (Or.inr rfl : (-1 : Int32) = _ ∨ (-1 : Int32) = invalidFilter)
  exact ⟨s', hs', hcenter, hquery⟩

end Lookaround
