import Lookaround.Counts

/-!
# Well-formed indexes under `adddatanode` and `remove_datanode_from_map`

* `itemsUnder s p` : the data nodes in the lists of `p` and beneath it;
* `Index s` : a quadtree with doubly linked lists that end, every item in the cell it names, whose rectangle has its
  location, and exact counts;
* `Grid.under_iff` : which nodes are above the cell of a location;
* `adddatanode_index` : an insertion adds one item in one cell; the in-place branch changes one location;
* `removeDatanodeFromMap_index` : a removal does nothing.
-/

namespace Lookaround

open NlaCoreData

variable {conf : Conf} {s s' : NlaCoreData} {loc : Nla2dloc} {p q r d e root : Nat} {m k : NlaMapNode}

/-! ## Nodes above a cell -/

/-- The nodes above a node with a location are those of its level or above it that have the location. -/
theorem Grid.under_iff (h : Grid s.mapNodes root) (hp : s.mapNodes[p]? = some m) (hq : s.mapNodes[q]? = some k)
    (hl : isLocInRC k.rc loc = true) : Under s p q ↔ m.iLevel ≤ k.iLevel ∧ isLocInRC m.rc loc = true := by
  constructor
  · intro hu
    induction hu generalizing k with
    | self =>
        obtain rfl := Option.some.inj (hp.symm.trans hq)
        exact ⟨le_refl _, hl⟩
    | @child q c m' i _ hm' hc ih =>
        have hnode := h.node q m' hm'
        obtain ⟨k', hk', hlev, -, hrc⟩ := h.child hm' hc
        obtain rfl := Option.some.inj (hq.symm.trans hk')
        rw [hrc] at hl
        obtain ⟨h1, h2⟩ := ih hm' (isLocInRC_of_childRect hnode.ok hl)
        exact ⟨by omega, h2⟩
  · rintro ⟨hle, hml⟩
    have h0 := (h.node p m hp).level
    obtain ⟨j, hj⟩ : ∃ j : Nat, k.iLevel = m.iLevel + j := ⟨(k.iLevel - m.iLevel).toNat, by omega⟩
    -- on the number of levels between them
    induction j generalizing q k with
    | zero =>
        have hpq := h.level_unique (n := m.iLevel.toNat) hp hq (by omega) (by omega) hml hl
        rw [hpq]
        exact .self
    | succ j ih =>
        obtain ⟨q', k', i, hk', hc, -, hlev, hrc⟩ := h.parent hq (h.ne_root hq (by omega))
        rw [hrc] at hl
        exact .child (ih hk' (isLocInRC_of_childRect (h.node q' k' hk').ok hl) (by omega) (by omega)) hk' hc

theorem Under.keeps (hu : Under s p q) (hkeeps : Keeps s.mapNodes s'.mapNodes) : Under s' p q := by
  induction hu with
  | self => exact .self
  | @child q c m i _ hm hc ih =>
      obtain ⟨m', hm', -, -, -, hcs⟩ := hkeeps q m hm
      exact .child ih hm' (hcs i c hc)

/-! ## Well-formed indexes -/

/-- The data nodes in the lists of `p` and of the nodes beneath it. -/
def itemsUnder (s : NlaCoreData) (p : MapPtr) : Set DataPtr :=
  { d | ∃ q, Under s p q ∧ Library.Reaches s.next d (s.head q) }

/-- A well-formed index. A list may be at any level, that of the calls that filled it; a count is a 32-bit number. -/
structure Index (s : NlaCoreData) : Prop where
  grid : Grid s.mapNodes s.pMapRoot
  lists : ∀ q : Nat, ∃ l, Library.Chain s.next (s.head q) l ∧ Library.Back s.prev none l ∧
    ∀ d ∈ l, s.cell d = some q ∧ ∃ k data, s.mapNodes[q]? = some k ∧ s.item d = some data ∧
      isLocInRC k.rc data.loc = true
  counts : ∀ (p : Nat) (m : NlaMapNode), s.mapNodes[p]? = some m →
    m.iItemCount = UInt32.ofNat (itemsUnder s p).ncard

/-- A data node in a list names the node of the list, which has its location. -/
theorem Index.listed (h : Index s) (hd : Library.Reaches s.next d (s.head q)) : s.cell d = some q ∧
    ∃ k data, s.mapNodes[q]? = some k ∧ s.item d = some data ∧ isLocInRC k.rc data.loc = true := by
  obtain ⟨l, hl, -, hmem⟩ := h.lists q
  exact hmem d (hl.mem_iff_reaches.mpr hd)

theorem Index.headsOk (h : Index s) : s.HeadsOk := by
  intro q e he
  obtain ⟨-, -, data, -, hdata, -⟩ := h.listed (d := e) (q := q) (by rw [he]; exact .here)
  exact lt_of_item hdata

theorem Index.itemsUnder_subset (h : Index s) (p : Nat) : itemsUnder s p ⊆ { e | e < s.dataNodes.length } := by
  rintro e ⟨q, -, hr⟩
  obtain ⟨-, -, data, -, hdata, -⟩ := h.listed hr
  exact lt_of_item hdata

theorem Index.finite_itemsUnder (h : Index s) (p : Nat) : (itemsUnder s p).Finite :=
  (Set.finite_lt_nat s.dataNodes.length).subset (h.itemsUnder_subset p)

/-- The items beneath a node are those in lists of its level or below whose location it has. -/
theorem Index.mem_itemsUnder (h : Index s) (hp : s.mapNodes[p]? = some m) : e ∈ itemsUnder s p ↔
    ∃ (r : Nat) (k : NlaMapNode) (data : NlaDataItem), Library.Reaches s.next e (s.head r) ∧ s.mapNodes[r]? = some k ∧
      s.item e = some data ∧ m.iLevel ≤ k.iLevel ∧ isLocInRC m.rc data.loc = true := by
  constructor
  · rintro ⟨r, hu, hr⟩
    obtain ⟨-, k, data, hk, hdata, hin⟩ := h.listed hr
    obtain ⟨h1, h2⟩ := (h.grid.under_iff hp hk hin).mp hu
    exact ⟨r, k, data, hr, hk, hdata, h1, h2⟩
  · rintro ⟨r, k, data, hr, hk, hdata, h1, h2⟩
    obtain ⟨-, k', data', hk', hdata', hin⟩ := h.listed hr
    obtain rfl := Option.some.inj (hk.symm.trans hk')
    obtain rfl := Option.some.inj (hdata.symm.trans hdata')
    exact ⟨r, (h.grid.under_iff hp hk hin).mpr ⟨h1, h2⟩, hr⟩

/-- A pointer that is no node is above no other. -/
theorem Under.eq_of_none (hu : Under s p q) (hp : s.mapNodes[p]? = none) : q = p := by
  induction hu with
  | self => rfl
  | child _ hm _ ih =>
      rw [ih, hp] at hm
      cases hm

theorem itemsUnder_eq_empty (hp : s.mapNodes[p]? = none) : itemsUnder s p = ∅ := by
  ext e
  refine iff_of_false ?_ (Set.notMem_empty e)
  rintro ⟨q, hu, hr⟩
  rw [hu.eq_of_none hp, head, hp] at hr
  cases hr

/-! ## Insertion -/

section Insert

variable (hI : Index s) (hfree : ∀ q : Nat, ¬ Library.Reaches s.next d (s.head q)) (hsp : Spliced conf d loc 0 q s s')

include hI hfree hsp

/-- Who is in which list after the insertion. -/
theorem Spliced.reaches_iff (e r : Nat) : Library.Reaches s'.next e (s'.head r) ↔
    Library.Reaches s.next e (s.head r) ∨ r = q ∧ e = d := by
  obtain ⟨l, hl, -⟩ := hI.lists r
  have hd : d ∉ l := fun hd => hfree r (hl.mem_iff_reaches.mp hd)
  rw [hsp.head, hsp.next]
  by_cases hqr : q = r
  · subst hqr
    rw [if_pos rfl, hl.reaches_push hd]
    exact ⟨fun hor => hor.symm.imp id fun he => ⟨rfl, he⟩, fun hor => hor.symm.imp And.right id⟩
  · rw [if_neg hqr, ← (hl.update hd).mem_iff_reaches, hl.mem_iff_reaches]
    exact ⟨Or.inl, fun hor => hor.resolve_right fun hrq => hqr hrq.1.symm⟩

omit hI in
/-- The lists after the insertion: the node is the new head of its leaf, the other lists are the same. -/
theorem Spliced.chain {l : List DataPtr} (hl : Library.Chain s.next (s.head r) l) :
    Library.Chain s'.next (s'.head r) (if q = r then d :: l else l) := by
  have hd : d ∉ l := fun hd => hfree r (hl.mem_iff_reaches.mp hd)
  rw [hsp.head, hsp.next]
  by_cases hqr : q = r
  · subst hqr
    rw [if_pos rfl, if_pos rfl]
    exact hl.push hd
  · rw [if_neg hqr, if_neg hqr]
    exact hl.update hd

theorem Spliced.back {l : List DataPtr} (hl : Library.Chain s.next (s.head r) l) (hb : Library.Back s.prev none l) :
    Library.Back s'.prev none (if q = r then d :: l else l) := by
  have hd : d ∉ l := fun hd => hfree r (hl.mem_iff_reaches.mp hd)
  rw [hsp.prev]
  by_cases hqr : q = r
  · subst hqr
    rw [if_pos rfl]
    exact hb.push hl hd
  · rw [if_neg hqr]
    refine hb.push_other hd fun b hhead hb' => hqr ?_
    -- the old head of the leaf names the leaf, so it is in no other list
    obtain ⟨hcell, -⟩ := hI.listed (d := b) (q := q) (by rw [hhead]; exact .here)
    obtain ⟨hcell', -⟩ := hI.listed (hl.mem_iff_reaches.mp hb')
    exact Option.some.inj (hcell.symm.trans hcell')

/-- Every item after the insertion names its node, which has its location. -/
theorem Spliced.listed {data : NlaDataItem} (hkeeps : Keeps s.mapNodes s'.mapNodes) (hdata : s.item d = some data)
    (hloc : data.loc = loc) (hin : isLocInRC initRootRect loc = true) (hr : Library.Reaches s'.next e (s'.head r)) :
    s'.cell e = some r ∧ ∃ k data, s'.mapNodes[r]? = some k ∧ s'.item e = some data ∧
      isLocInRC k.rc data.loc = true := by
  rw [hsp.cell, hsp.item]
  rcases (hsp.reaches_iff hI hfree e r).mp hr with hr | ⟨rfl, rfl⟩
  · have hed : e ≠ d := by
      rintro rfl
      exact hfree r hr
    obtain ⟨hcell, k, data', hk, hdata', hkin⟩ := hI.listed hr
    obtain ⟨k', hk', hrc, -⟩ := hkeeps r k hk
    exact ⟨by rw [Function.update_of_ne hed, hcell], k', data', hk', hdata', by rw [hrc]; exact hkin⟩
  · obtain ⟨k, hk, -, hkin⟩ := hsp.leaf
    exact ⟨Function.update_self _ _ _, k, data, hk, hdata, by rw [hloc]; exact hkin hin⟩

/-- The items beneath a node after the insertion. -/
theorem Spliced.mem_itemsUnder (hkeeps : Keeps s.mapNodes s'.mapNodes) (hgrid : Grid s'.mapNodes s.pMapRoot)
    (hp : s'.mapNodes[p]? = some m) (e : Nat) :
    e ∈ itemsUnder s' p ↔ e ∈ itemsUnder s p ∨ e = d ∧ Under s' p q := by
  constructor
  · rintro ⟨r, hu, hr⟩
    rcases (hsp.reaches_iff hI hfree e r).mp hr with hr | ⟨rfl, rfl⟩
    · left
      obtain ⟨-, k, data', hk, hdata', hkin⟩ := hI.listed hr
      obtain ⟨k', hk', hrc, -, hlev, -⟩ := hkeeps r k hk
      obtain ⟨h1, h2⟩ := (hgrid.under_iff hp hk' (by rw [hrc]; exact hkin)).mp hu
      -- a node above an old node is old
      have h0 := (hgrid.node p m hp).level
      obtain ⟨a, ka, hka, hlva, hsub⟩ := hI.grid.ancestor (n := m.iLevel.toNat) hk (by omega)
      obtain ⟨ka', hka', hrca, -, hleva, -⟩ := hkeeps a ka hka
      obtain rfl := hgrid.level_unique (n := m.iLevel.toNat) hka' hp (by omega) (by omega)
        (by rw [hrca]; exact hsub _ hkin) h2
      exact (hI.mem_itemsUnder hka).mpr ⟨r, k, data', hr, hk, hdata', by omega, hsub _ hkin⟩
    · exact Or.inr ⟨rfl, hu⟩
  · rintro (⟨r, hu, hr⟩ | ⟨rfl, hu⟩)
    · exact ⟨r, hu.keeps hkeeps, (hsp.reaches_iff hI hfree e r).mpr (Or.inl hr)⟩
    · exact ⟨q, hu, (hsp.reaches_iff hI hfree e q).mpr (Or.inr ⟨rfl, rfl⟩)⟩

/-- The number of items beneath a node after the insertion. -/
theorem Spliced.ncard_itemsUnder (hkeeps : Keeps s.mapNodes s'.mapNodes) (hgrid : Grid s'.mapNodes s.pMapRoot)
    (hp : s'.mapNodes[p]? = some m) :
    (Under s' p q → (itemsUnder s' p).ncard = (itemsUnder s p).ncard + 1) ∧
      (¬ Under s' p q → (itemsUnder s' p).ncard = (itemsUnder s p).ncard) := by
  have hmem := hsp.mem_itemsUnder hI hfree hkeeps hgrid hp
  refine ⟨fun hu => ?_, fun hu => ?_⟩
  · have hset : itemsUnder s' p = insert d (itemsUnder s p) := by
      ext e
      rw [hmem, Set.mem_insert_iff, or_comm, and_iff_left hu]
    have hd : d ∉ itemsUnder s p := by
      rintro ⟨r, -, hr⟩
      exact hfree r hr
    rw [hset, Set.ncard_insert_of_notMem hd (hI.finite_itemsUnder p)]
  · congr 1
    ext e
    rw [hmem]
    exact or_iff_left fun hed => hu hed.2

end Insert

/-- Which nodes a descent from the root visits: those above the leaf it ends in. -/
theorem Spliced.visited_iff (hsp : Spliced conf d loc 0 q s s') (hgrid : Grid s'.mapNodes root)
    (hin : isLocInRC initRootRect loc = true) (hk : s'.mapNodes[p]? = some k)
    {m0 : NlaMapNode} (hlev : m0.iLevel = 0) : Visited conf loc root m0 p k ↔ Under s' p q := by
  obtain ⟨kq, hkq, -, hkin⟩ := hsp.leaf
  have hlevel := hsp.level kq hkq
  obtain ⟨mr, hmr, hrc, hlevr, -⟩ := hgrid.top
  have h0 := (hgrid.node p k hk).level
  rw [hgrid.under_iff hk hkq (hkin hin)]
  constructor
  · rintro (rfl | ⟨h1, h2, h3⟩)
    · obtain rfl := Option.some.inj (hk.symm.trans hmr)
      exact ⟨by omega, by rw [hrc]; exact hin⟩
    · exact ⟨by omega, h3⟩
  · rintro ⟨hle, hl⟩
    by_cases hk0 : k.iLevel = 0
    · exact Or.inl (hgrid.eq_root hk hk0)
    · exact Or.inr ⟨by omega, by omega, hl⟩

/-- The counts after the insertion. -/
theorem Added.countAt_spliced (ha : Added conf d loc root s s') (h : Grid s.mapNodes root)
    (hsp : Spliced conf d loc 0 q s s') (hin : isLocInRC initRootRect loc = true) (p : Nat) :
    (Under s' p q → s'.countAt p = s.countAt p + 1) ∧ (¬ Under s' p q → s'.countAt p = s.countAt p) := by
  obtain ⟨m, hm, hrc, hlev, -⟩ := h.top
  have hgrid := ha.grid h
  cases hk : s'.mapNodes[p]? with
  | none =>
      have hold : s.mapNodes[p]? = none := by
        by_contra hne
        obtain ⟨k, hk0⟩ := Option.ne_none_iff_exists'.mp hne
        obtain ⟨k', hk', -⟩ := ha.keeps h p k hk0
        rw [hk] at hk'
        cases hk'
      refine ⟨fun hu => ?_, fun _ => by rw [countAt, hk, countAt, hold]⟩
      obtain ⟨kq, hkq, -⟩ := hsp.leaf
      rw [hu.eq_of_none hk, hk] at hkq
      cases hkq
  | some k =>
      have hcount := ha.count h hm (fun hl => by rw [hrc]; exact hl) hk
      have hvis := hsp.visited_iff hgrid hin hk hlev
      rw [countAt_eq hk, hcount]
      refine ⟨fun hu => by rw [if_pos (hvis.mpr hu)], fun hu => ?_⟩
      rw [if_neg fun hv => hu (hvis.mp hv), UInt32.add_zero]

/-- An insertion keeps the index well-formed. -/
theorem Index.of_added {n : NlaDataNode} (hI : Index s) (hfree : ∀ q : Nat, ¬ Library.Reaches s.next d (s.head q))
    (hd : s.dataNodes[d]? = some n) (hin : isLocInRC initRootRect n.data.loc = true)
    (ha : Added conf d n.data.loc s.pMapRoot s s') (hsp : Spliced conf d n.data.loc 0 q s s') : Index s' := by
  have hkeeps := ha.keeps hI.grid
  have hgrid := ha.grid hI.grid
  have hroot := ha.frame.1
  refine ⟨by rw [hroot]; exact hgrid, fun r => ?_, fun p m hm => ?_⟩
  · obtain ⟨l, hl, hb, -⟩ := hI.lists r
    have hl' := hsp.chain hfree hl
    refine ⟨_, hl', hsp.back hI hfree hl hb, fun e he => ?_⟩
    exact hsp.listed hI hfree hkeeps (item_of_getElem? hd) rfl hin (hl'.mem_iff_reaches.mp he)
  · have hold : s.countAt p = UInt32.ofNat (itemsUnder s p).ncard := by
      cases hp : s.mapNodes[p]? with
      | none =>
          rw [countAt, hp, itemsUnder_eq_empty hp, Set.ncard_empty]
          rfl
      | some m0 => rw [countAt_eq hp, hI.counts p m0 hp]
    obtain ⟨hin1, hout1⟩ := ha.countAt_spliced hI.grid hsp hin p
    obtain ⟨hin2, hout2⟩ := hsp.ncard_itemsUnder hI hfree hkeeps hgrid hm
    rw [← countAt_eq hm]
    by_cases hu : Under s' p q
    · rw [hin1 hu, hin2 hu, hold, UInt32.ofNat_add]
      rfl
    · rw [hout1 hu, hout2 hu, hold]

theorem adddatanode_spliced {n : NlaDataNode} (hI : Index s) (hd : s.dataNodes[d]? = some n)
    (hin : isLocInRC initRootRect n.data.loc = true) (conf : Conf) :
    ∃ s' q, s.adddatanode conf .succeed (conf.nMapMaxLevel.toNat + 1) s.pMapRoot d = .ok s' ∧
      Added conf d n.data.loc s.pMapRoot s s' ∧ Spliced conf d n.data.loc 0 q s s' := by
  obtain ⟨m, hm, hrc, hlev, -⟩ := hI.grid.top
  have hml : isLocInRC m.rc n.data.loc = true := by rw [hrc]; exact hin
  have hfuel : (conf.nMapMaxLevel - m.iLevel).toNat < conf.nMapMaxLevel.toNat + 1 := by omega
  obtain ⟨s', hs', ha⟩ := adddatanode_added hI.grid hI.headsOk hm hd hfuel
  obtain ⟨q, hsp⟩ := ha.spliced hI.grid hI.headsOk (List.getElem?_eq_some_iff.mp hd).1 hm (fun _ => hml) fun _ => hml
  rw [hlev] at hsp
  exact ⟨s', q, hs', ha, hsp⟩

/-- What an insertion of the detached data node `d` at `loc` does: `q` is the one leaf with the location, `d` is its new
head, the lists are otherwise the same, and the nodes above `q` count one item more. -/
structure Inserted (conf : Conf) (d : DataPtr) (loc : Nla2dloc) (q : MapPtr) (s s' : NlaCoreData) : Prop where
  leaf : ∃ k, s'.mapNodes[q]? = some k ∧ k.iLevel = max conf.nMapMaxLevel 0 ∧ isLocInRC k.rc loc = true
  only : ∀ (r : Nat) (k : NlaMapNode), s'.mapNodes[r]? = some k → k.iLevel = max conf.nMapMaxLevel 0 →
    isLocInRC k.rc loc = true → r = q
  head : s'.head q = some d
  lists : ∀ (r : Nat) (l : List DataPtr), Library.Chain s.next (s.head r) l →
    Library.Chain s'.next (s'.head r) (if q = r then d :: l else l)
  counted : ∀ p, Under s' p q → s'.countAt p = s.countAt p + 1
  uncounted : ∀ p, ¬ Under s' p q → s'.countAt p = s.countAt p
  keeps : Keeps s.mapNodes s'.mapNodes
  shape : Shape conf.nMapMaxLevel s.mapNodes s.pMapRoot → Shape conf.nMapMaxLevel s'.mapNodes s'.pMapRoot
  item : s'.item = s.item
  map : s'.pId2dataMap = s.pId2dataMap
  root : s'.pMapRoot = s.pMapRoot

theorem Index.adddatanode {n : NlaDataNode} (hI : Index s) (hd : s.dataNodes[d]? = some n)
    (hfree : ∀ q : Nat, ¬ Library.Reaches s.next d (s.head q)) (hin : isLocInRC initRootRect n.data.loc = true)
    (conf : Conf) : ∃ s' q, s.adddatanode conf .succeed (conf.nMapMaxLevel.toNat + 1) s.pMapRoot d = .ok s' ∧
      Index s' ∧ Inserted conf d n.data.loc q s s' := by
  obtain ⟨s', q, hs', ha, hsp⟩ := adddatanode_spliced hI hd hin conf
  have hI' := hI.of_added hfree hd hin ha hsp
  have hcounts := ha.countAt_spliced hI.grid hsp hin
  obtain ⟨hroot, hmap, -⟩ := ha.frame
  obtain ⟨k, hk, -, hkin⟩ := hsp.leaf
  have hlevel := hsp.level k hk
  refine ⟨s', q, hs', hI', ⟨k, hk, hlevel, hkin hin⟩, fun r kr hkr hlr hrin => ?_, ?_, fun r l => hsp.chain hfree,
    fun p => (hcounts p).1, fun p => (hcounts p).2, ha.keeps hI.grid, fun hshape => ?_, hsp.item, hmap, hroot⟩
  · exact hI'.grid.level_unique (n := (max conf.nMapMaxLevel 0).toNat) hkr hk (by omega) (by omega) hrin (hkin hin)
  · rw [hsp.head, if_pos rfl]
  · rw [hroot]
    exact ha.shape hshape

/-! ## Records -/

/-- Core data with the same tree and the same lists, whose items still are where they say. -/
theorem Index.congr (hI : Index s) (hmaps : s'.mapNodes = s.mapNodes) (hroot : s'.pMapRoot = s.pMapRoot)
    (hnext : s'.next = s.next) (hprev : s'.prev = s.prev)
    (hlisted : ∀ (e r : Nat) (k : NlaMapNode), Library.Reaches s.next e (s.head r) → s.mapNodes[r]? = some k →
      s'.cell e = s.cell e ∧ ∃ data, s'.item e = some data ∧ isLocInRC k.rc data.loc = true) : Index s' := by
  have hhead : s'.head = s.head := funext fun r => by rw [head, hmaps, head]
  refine ⟨by rw [hmaps, hroot]; exact hI.grid, fun r => ?_, fun p m hm => ?_⟩
  · obtain ⟨l, hl, hb, hmem⟩ := hI.lists r
    rw [hnext, hprev, hmaps, hhead]
    refine ⟨l, hl, hb, fun e he => ?_⟩
    obtain ⟨hcr, k, -, hk, -⟩ := hmem e he
    obtain ⟨hcell, data, hdata, hin⟩ := hlisted e r k (hl.mem_iff_reaches.mp he) hk
    exact ⟨hcell.trans hcr, k, data, hk, hdata, hin⟩
  · have hkeeps : Keeps s.mapNodes s'.mapNodes ∧ Keeps s'.mapNodes s.mapNodes := by
      rw [hmaps]
      exact ⟨.refl _, .refl _⟩
    have hset : itemsUnder s' p = itemsUnder s p := by
      ext e
      rw [itemsUnder, itemsUnder, hnext, hhead]
      exact exists_congr fun r => and_congr_left fun _ => ⟨fun hu => hu.keeps hkeeps.2, fun hu => hu.keeps hkeeps.1⟩
    rw [hmaps] at hm
    rw [hset]
    exact hI.counts p m hm

/-- A write to the record of a data node keeps the index well-formed when the location stays in the cell of the node. -/
theorem Index.modifyItem {data : NlaDataItem} (hI : Index s) (hd : s.item d = some data) (f : NlaDataItem → NlaDataItem)
    (hin : ∀ (r : Nat) (k : NlaMapNode), Library.Reaches s.next d (s.head r) → s.mapNodes[r]? = some k →
      isLocInRC k.rc (f data).loc = true) : Index (s.modifyData d fun n => { n with data := f n.data }) := by
  obtain ⟨hnext, hcells, hitem⟩ := views_modifyItem f hd
  have hprev : (s.modifyData d fun n => { n with data := f n.data }).prev = s.prev :=
    funext fun e => view_modifyData NlaDataNode.prev (f := fun n => { n with data := f n.data }) (fun _ => rfl) e
  refine hI.congr rfl rfl hnext hprev fun e r k hr hk => ?_
  rw [hcells, hitem]
  by_cases hed : e = d
  · subst hed
    exact ⟨rfl, _, Function.update_self _ _ _, hin r k hr hk⟩
  · obtain ⟨-, k', data', hk', hdata', hkin⟩ := hI.listed hr
    obtain rfl := Option.some.inj (hk.symm.trans hk')
    exact ⟨rfl, data', by rw [Function.update_of_ne hed, hdata'], hkin⟩

theorem Index.setLoc {data : NlaDataItem} (hI : Index s) (hd : s.item d = some data) (hcell : s.cell d = some q)
    (hk : s.mapNodes[q]? = some k) (hin : isLocInRC k.rc loc = true) : Index (s.setLoc d loc) := by
  refine hI.modifyItem hd (fun data => { data with loc := loc }) fun r kr hr hkr => ?_
  obtain ⟨hcr, -⟩ := hI.listed hr
  obtain rfl := Option.some.inj (hcell.symm.trans hcr)
  obtain rfl := Option.some.inj (hk.symm.trans hkr)
  exact hin

theorem Index.setTime {data : NlaDataItem} (hI : Index s) (hd : s.item d = some data) (now : Int64) :
    Index (s.setTime d now) := by
  refine hI.modifyItem hd (fun data => { data with lastUpdateTime := now }) fun r kr hr hkr => ?_
  obtain ⟨-, k, data', hk, hdata', hkin⟩ := hI.listed hr
  obtain rfl := Option.some.inj (hkr.symm.trans hk)
  obtain rfl := Option.some.inj (hd.symm.trans hdata')
  exact hkin

/-- **Insertion adds exactly one item in exactly one cell.** In a well-formed index, for every level: `adddatanode` from
the root returns for every detached data node with a location in the root rectangle, the index stays well-formed, and
`Inserted` says what changed. The in-place branch of `setdataloc` returns, changes the location of its item and stamps
it, and the index is well-formed before and after the stamp. -/
theorem index_insert_and_update (hI : Index s) (conf : Conf) :
    (∀ (d : Nat) (n : NlaDataNode), s.dataNodes[d]? = some n → (∀ q : Nat, ¬ Library.Reaches s.next d (s.head q)) →
      isLocInRC initRootRect n.data.loc = true →
        ∃ s' q, s.adddatanode conf .succeed (conf.nMapMaxLevel.toNat + 1) s.pMapRoot d = .ok s' ∧ Index s' ∧
          Inserted conf d n.data.loc q s s') ∧
    ∀ (alloc : Allocs) (id : CStr) (loc : Nla2dloc) (iStatus iType : Int32) (now : Int64) (d q : Nat) (n : NlaDataNode)
      (k : NlaMapNode), s.getdatanode id = some d → s.dataNodes[d]? = some n → n.pMapNode = some q →
        s.mapNodes[q]? = some k → isLocInRC k.rc loc = true →
          ∃ s1, s1 = { s with dataNodes := s.dataNodes.set d { n with data := { n.data with loc := loc } } } ∧
            Index s1 ∧ s.setdataloc conf alloc id loc iStatus iType now = .ok (s1.setTime d now) ∧
            Index (s1.setTime d now) := by
  refine ⟨fun d n hd hfree hin => hI.adddatanode hd hfree hin conf, ?_⟩
  intro alloc id loc iStatus iType now d q n k hid hd hq hk hin
  have hcell : s.cell d = some q := by rw [cell, hd, Option.bind_some, hq]
  have hI1 := hI.setLoc (item_of_getElem? hd) hcell hk hin
  have hset : s.setLoc d loc =
      { s with dataNodes := s.dataNodes.set d { n with data := { n.data with loc := loc } } } := by
    rw [NlaCoreData.setLoc, modifyData, List.modify_eq_set_getElem?, hd]
    rfl
  obtain ⟨-, -, hitem⟩ := views_setLoc (item_of_getElem? hd) loc
  refine ⟨s.setLoc d loc, hset, hI1, ?_, hI1.setTime (by rw [hitem, Function.update_self]) now⟩
  simp only [setdataloc, hid, inCell_eq hcell hk, hin, bind, Except.bind, if_true]
  rfl

/-! ## Empty indexes -/

/-- The initial core data with data nodes that are in no list yet. -/
def emptyIndex (dataNodes : List NlaDataNode) : NlaCoreData :=
  { initCoreData 1 Nat.one_pos with dataNodes := dataNodes }

theorem head_emptyIndex (dataNodes : List NlaDataNode) (q : Nat) : (emptyIndex dataNodes).head q = none := by
  rw [head, emptyIndex, initCoreData]
  simp only [List.getElem?_singleton]
  split_ifs <;> rfl

theorem index_emptyIndex (dataNodes : List NlaDataNode) : Index (emptyIndex dataNodes) where
  grid := (shape_init 0 1 Nat.one_pos).grid
  lists := by
    intro q
    rw [head_emptyIndex]
    exact ⟨[], .nil, trivial, fun d hd => absurd hd List.not_mem_nil⟩
  counts := by
    intro p m hm
    have hset : itemsUnder (emptyIndex dataNodes) p = ∅ := by
      ext e
      refine iff_of_false ?_ (Set.notMem_empty e)
      rintro ⟨q, -, hr⟩
      rw [head_emptyIndex] at hr
      cases hr
    rw [emptyIndex, initCoreData] at hm
    simp only [List.getElem?_singleton] at hm
    split_ifs at hm
    cases hm
    rw [hset, Set.ncard_empty]
    rfl

/-- A data node of its own, and that it is in no list of an empty index. -/
def looseNode : NlaDataNode := newDataNode ⟨[97], CStr.noNul_a⟩ ⟨5, 5⟩ 0 0

theorem free_emptyIndex (dataNodes : List NlaDataNode) (d q : Nat) :
    ¬ Library.Reaches (emptyIndex dataNodes).next d ((emptyIndex dataNodes).head q) := by
  rw [head_emptyIndex]
  intro hr
  cases hr

theorem index_insert_loose : ∃ s' q, (emptyIndex [looseNode]).adddatanode ⟨2⟩ .succeed 3 0 0 = .ok s' ∧ Index s' ∧
    Inserted ⟨2⟩ 0 ⟨5, 5⟩ q (emptyIndex [looseNode]) s' :=
  (index_insert_and_update (index_emptyIndex [looseNode]) ⟨2⟩).1 0 looseNode rfl
    (fun q => free_emptyIndex [looseNode] 0 q) (by decide)

/-! ## Removal -/

/-- What removing `d` from the list of `q` should do: take it out of the list, which stays doubly linked in the same
order, count one item less on the nodes above, and nothing else. -/
structure Removed (d : DataPtr) (q : MapPtr) (s s' : NlaCoreData) : Prop where
  list : ∀ l, Library.Chain s.next (s.head q) l → Library.Chain s'.next (s'.head q) (l.filter (· ≠ d)) ∧
    Library.Back s'.prev none (l.filter (· ≠ d))
  others : ∀ r, r ≠ q → ∀ l, Library.Chain s.next (s.head r) l → Library.Chain s'.next (s'.head r) l
  counted : ∀ p, Under s p q → s'.countAt p = s.countAt p - 1
  uncounted : ∀ p, ¬ Under s p q → s'.countAt p = s.countAt p
  tree : Keeps s.mapNodes s'.mapNodes ∧ Keeps s'.mapNodes s.mapNodes
  item : s'.item = s.item
  map : s'.pId2dataMap = s.pId2dataMap
  root : s'.pMapRoot = s.pMapRoot

/-- Every list and every count of `s` again. -/
structure Restored (s s' : NlaCoreData) : Prop where
  lists : ∀ r l, Library.Chain s.next (s.head r) l → Library.Chain s'.next (s'.head r) l
  counts : ∀ p, s'.countAt p = s.countAt p

/-- Nothing is removed as long as nothing changes. -/
theorem Index.not_removed_self (hI : Index s) (hd : Library.Reaches s.next d (s.head q)) : ¬ Removed d q s s := by
  intro hr
  obtain ⟨l, hl, -⟩ := hI.lists q
  have hmem := hl.mem_iff_reaches.mpr hd
  rw [hl.unique (hr.list l hl).1] at hmem
  simp at hmem

/-- **Removal never undoes insertion.** The guard of `remove_datanode_from_map` returns at once for every data node, so
in no well-formed index is a linked data node removed, and a removal right behind an insertion restores nothing. -/
theorem removeDatanodeFromMap_index (hI : Index s) (conf : Conf) :
    (∀ d q : Nat, Library.Reaches s.next d (s.head q) →
      s.removeDatanodeFromMap conf (conf.nMapMaxLevel.toNat + 1) (some s.pMapRoot) (some d) = .ok s ∧
      ¬ ∃ s', s.removeDatanodeFromMap conf (conf.nMapMaxLevel.toNat + 1) (some s.pMapRoot) (some d) = .ok s' ∧
        Removed d q s s') ∧
    ∀ (d : Nat) (n : NlaDataNode), s.dataNodes[d]? = some n → (∀ q : Nat, ¬ Library.Reaches s.next d (s.head q)) →
      isLocInRC initRootRect n.data.loc = true →
        ∃ s1, s.adddatanode conf .succeed (conf.nMapMaxLevel.toNat + 1) s.pMapRoot d = .ok s1 ∧
          ¬ ∃ s2, s1.removeDatanodeFromMap conf (conf.nMapMaxLevel.toNat + 1) (some s1.pMapRoot) (some d) = .ok s2 ∧
            Restored s s2 := by
  refine ⟨fun d q hd => ⟨removeDatanodeFromMap_some conf _ _, ?_⟩, fun d n hd hfree hin => ?_⟩
  · rintro ⟨s', hs', hr⟩
    rw [removeDatanodeFromMap_some] at hs'
    cases hs'
    exact hI.not_removed_self hd hr
  · obtain ⟨s1, q, hs1, -, hins⟩ := hI.adddatanode hd hfree hin conf
    refine ⟨s1, hs1, ?_⟩
    rintro ⟨s2, hs2, hr⟩
    rw [removeDatanodeFromMap_some] at hs2
    cases hs2
    obtain ⟨l, hl, -⟩ := hI.lists q
    have hl1 := hins.lists q l hl
    rw [if_pos rfl] at hl1
    have hlen := congrArg List.length (hl1.unique (hr.lists q l hl))
    simp at hlen

theorem removeDatanodeFromMap_index_loose : ∃ s1, (emptyIndex [looseNode]).adddatanode ⟨1⟩ .succeed 2 0 0 = .ok s1 ∧
    ¬ ∃ s2, s1.removeDatanodeFromMap ⟨1⟩ 2 (some s1.pMapRoot) (some 0) = .ok s2 ∧ Restored (emptyIndex [looseNode]) s2 :=
  (removeDatanodeFromMap_index (index_emptyIndex [looseNode]) ⟨1⟩).2 0 looseNode rfl
    (fun q => free_emptyIndex [looseNode] 0 q) (by decide)

/-- An index with one item, in the last quadrant: after the removal the item is still the head of its list and counted at
the root. -/
theorem remove_leaves_item : ∃ s, (emptyIndex [looseNode]).adddatanode ⟨1⟩ .succeed 2 0 0 = .ok s ∧ Index s ∧
    Library.Reaches s.next 0 (s.head 4) ∧ s.removeDatanodeFromMap ⟨1⟩ 2 (some 0) (some 0) = .ok s ∧
    s.head 4 = some 0 ∧ s.countAt 0 = 1 ∧
    ¬ ∃ s', s.removeDatanodeFromMap ⟨1⟩ 2 (some 0) (some 0) = .ok s' ∧ Removed 0 4 s s' := by
  obtain ⟨s, q, hs, hI, hins⟩ := (index_emptyIndex [looseNode]).adddatanode (d := 0) (n := looseNode) rfl
    (fun q => free_emptyIndex [looseNode] 0 q) (by decide) ⟨1⟩
  have hs0 : (emptyIndex [looseNode]).adddatanode ⟨1⟩ .succeed 2 0 0 = .ok s := hs
  have hhead : s.head 4 = some 0 := by
    cases hs0
    rfl
  have hcount : s.countAt 0 = 1 := by
    cases hs0
    rfl
  have hr : Library.Reaches s.next 0 (s.head 4) := by
    rw [hhead]
    exact .here
  refine ⟨s, hs, hI, hr, removeDatanodeFromMap_some _ _ _, hhead, hcount, ?_⟩
  rintro ⟨s', hs', hrem⟩
  rw [removeDatanodeFromMap_some] at hs'
  cases hs'
  exact hI.not_removed_self hr hrem

end Lookaround
