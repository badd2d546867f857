import Lookaround.Library.Chain
import Lookaround.Tree

/-!
# What `adddatanode` does

With allocations that succeed, `adddatanode` is a descent: it counts each node it passes, gives a node of the path its
children when it has none, and links the data node at the head of the list of the leaf it ends in.

* `Added conf d loc p s s'` : the descent of a data node `d` at `loc` from the node `p`, one constructor per way a call
  can go;
* `adddatanode_added` : in a tree of the right shape the call returns, and what it returns is related by `Added`;
* `Added.shape`, `Added.keeps` : the tree keeps its shape and its nodes;
* `Added.spliced`, `Added.lost` : where the data node is afterwards, for a location inside and outside the rectangle.
-/

namespace Lookaround

namespace NlaCoreData

variable {s : NlaCoreData} {p d : Nat} {m : NlaMapNode}

/-- The head of the list of a node. -/
def head (s : NlaCoreData) (p : MapPtr) : Option DataPtr := (s.mapNodes[p]?).bind NlaMapNode.pDataNode

/-- The successor of a data node in its list. -/
def next (s : NlaCoreData) (d : DataPtr) : Option DataPtr := (s.dataNodes[d]?).bind NlaDataNode.next

/-- The predecessor of a data node in its list. -/
def prev (s : NlaCoreData) (d : DataPtr) : Option DataPtr := (s.dataNodes[d]?).bind NlaDataNode.prev

/-- The cell a data node names as its own. -/
def cell (s : NlaCoreData) (d : DataPtr) : Option MapPtr := (s.dataNodes[d]?).bind NlaDataNode.pMapNode

/-- The record of a data node. -/
def item (s : NlaCoreData) (d : DataPtr) : Option NlaDataItem := (s.dataNodes[d]?).map NlaDataNode.data

theorem head_eq (h : s.mapNodes[p]? = some m) : s.head p = m.pDataNode := by
  rw [head, h, Option.bind_some]

theorem head_bump (s : NlaCoreData) (p q : Nat) : (s.bump p).head q = s.head q := by
  rw [head, head, bump, mapNodes_modifyMap]
  split_ifs
  · cases s.mapNodes[q]? <;> rfl
  · rfl

theorem head_grow (hm : s.mapNodes[p]? = some m) (q : Nat) : (s.grow p m).head q = s.head q :=
  view_grow (fun o => o.bind NlaMapNode.pDataNode) hm (fun _ => rfl) (fun _ => rfl) q

theorem head_link (hm : s.mapNodes[p]? = some m) (h : Option DataPtr) (d q : Nat) :
    (s.link p h d).head q = if p = q then some d else s.head q := by
  rw [head, mapNodes_link, mapNodes_modifyMap]
  split_ifs with hpq
  · subst hpq
    rw [hm]
    rfl
  · rfl

/-- A field that a write to a data node does not change. -/
theorem view_modifyData {β : Type} (g : NlaDataNode → Option β) {f : NlaDataNode → NlaDataNode}
    (hf : ∀ n, g (f n) = g n) (e : Nat) : ((s.modifyData d f).dataNodes[e]?).bind g = (s.dataNodes[e]?).bind g := by
  rw [dataNodes_modifyData]
  split_ifs
  · cases s.dataNodes[e]? with
    | none => rfl
    | some n => exact hf n
  · rfl

/-- A field that a write to a data node sets. -/
theorem view_modifyData_set {β : Type} (g : NlaDataNode → Option β) {f : NlaDataNode → NlaDataNode} {b : Option β}
    (hf : ∀ n, g (f n) = b) (hd : d < s.dataNodes.length) :
    (fun e => ((s.modifyData d f).dataNodes[e]?).bind g) = Function.update (fun e => (s.dataNodes[e]?).bind g) d b := by
  funext e
  rw [dataNodes_modifyData]
  by_cases he : d = e
  · subst he
    rw [if_pos rfl, Function.update_self, List.getElem?_eq_getElem hd]
    exact hf _
  · rw [if_neg he, Function.update_of_ne (Ne.symm he)]

theorem item_eq_bind (s : NlaCoreData) (d : Nat) : s.item d = (s.dataNodes[d]?).bind fun n => some n.data := by
  rw [item]
  cases s.dataNodes[d]? <;> rfl

/-- The lists after `link`. -/
theorem views_link (h : Option DataPtr) (hd : d < s.dataNodes.length) :
    (s.link p h d).next = Function.update s.next d h ∧ (s.link p h d).cell = Function.update s.cell d (some p) ∧
      (s.link p h d).item = s.item := by
  have h1 := view_modifyData_set (s := s) NlaDataNode.next
    (f := fun n => { n with next := h, prev := none, pMapNode := some p }) (fun _ => rfl) hd
  have h2 := view_modifyData_set (s := s) NlaDataNode.pMapNode
    (f := fun n => { n with next := h, prev := none, pMapNode := some p }) (fun _ => rfl) hd
  have h3 := view_modifyData (s := s) (d := d) (fun n => some n.data)
    (f := fun n => { n with next := h, prev := none, pMapNode := some p }) fun _ => rfl
  cases h with
  | none =>
      refine ⟨h1, h2, funext fun e => ?_⟩
      rw [item_eq_bind, item_eq_bind]
      exact h3 e
  | some e =>
      refine ⟨?_, ?_, funext fun k => ?_⟩
      · refine (funext fun k => ?_ : _ = _).trans h1
        exact view_modifyData (d := e) NlaDataNode.next (f := fun n => { n with prev := some d }) (fun _ => rfl) k
      · refine (funext fun k => ?_ : _ = _).trans h2
        exact view_modifyData (d := e) NlaDataNode.pMapNode (f := fun n => { n with prev := some d }) (fun _ => rfl) k
      · rw [item_eq_bind, item_eq_bind]
        refine Eq.trans ?_ (h3 k)
        exact view_modifyData (d := e) (fun n => some n.data) (f := fun n => { n with prev := some d }) (fun _ => rfl) k

theorem prev_link (h : Option DataPtr) (hd : d < s.dataNodes.length) (hh : ∀ e, h = some e → e < s.dataNodes.length) :
    (s.link p h d).prev = Library.pushPrev s.prev h d := by
  have h1 := view_modifyData_set (s := s) NlaDataNode.prev
    (f := fun n => { n with next := h, prev := none, pMapNode := some p }) (fun _ => rfl) hd
  cases h with
  | none => exact h1
  | some e =>
      have h2 := view_modifyData_set (d := e)
        (s := s.modifyData d fun n => { n with next := some e, prev := none, pMapNode := some p }) NlaDataNode.prev
        (f := fun n => { n with prev := some d }) (fun _ => rfl) (by rw [length_modifyData]; exact hh e rfl)
      rw [h1] at h2
      exact h2

theorem length_link (s : NlaCoreData) (p : Nat) (h : Option DataPtr) (d : Nat) :
    (s.link p h d).dataNodes.length = s.dataNodes.length := by
  cases h <;> simp [link, modifyMap]

/-- The node `p`, counted. -/
theorem bump_self (hm : s.mapNodes[p]? = some m) :
    (s.bump p).mapNodes[p]? = some { m with iItemCount := m.iItemCount + 1 } := by
  rw [bump, mapNodes_modifyMap, if_pos rfl, hm]
  rfl

theorem dataNodes_grow (s : NlaCoreData) (p : Nat) (m : NlaMapNode) : (s.grow p m).dataNodes = s.dataNodes := by
  unfold grow
  split_ifs <;> rfl

theorem pMapRoot_grow (s : NlaCoreData) (p : Nat) (m : NlaMapNode) : (s.grow p m).pMapRoot = s.pMapRoot := by
  unfold grow
  split_ifs <;> rfl

theorem pId2dataMap_grow (s : NlaCoreData) (p : Nat) (m : NlaMapNode) : (s.grow p m).pId2dataMap = s.pId2dataMap := by
  unfold grow
  split_ifs <;> rfl

/-- Every list head is an allocated data node. -/
def HeadsOk (s : NlaCoreData) : Prop := ∀ q e : Nat, s.head q = some e → e < s.dataNodes.length

/-- The state in which `adddatanode` chooses a child of `p`, which is `m`. -/
def opened (s : NlaCoreData) (p : MapPtr) (m : NlaMapNode) : NlaCoreData :=
  (s.bump p).grow p { m with iItemCount := m.iItemCount + 1 }

theorem head_opened (hm : s.mapNodes[p]? = some m) (q : Nat) : (s.opened p m).head q = s.head q := by
  rw [opened, head_grow (bump_self hm), head_bump]

theorem dataNodes_opened (s : NlaCoreData) (p : Nat) (m : NlaMapNode) : (s.opened p m).dataNodes = s.dataNodes :=
  dataNodes_grow _ _ _

end NlaCoreData

variable {conf : Conf} {s s' : NlaCoreData} {p d : Nat} {m : NlaMapNode} {n : NlaDataNode} {loc : Nla2dloc} {root : Nat}

theorem Shape.opened (h : Shape conf.nMapMaxLevel s.mapNodes root) (hm : s.mapNodes[p]? = some m)
    (hL : m.iLevel < conf.nMapMaxLevel) : Shape conf.nMapMaxLevel (s.opened p m).mapNodes root :=
  (h.bump p).grow (NlaCoreData.bump_self hm) hL

theorem Grid.opened (h : Grid s.mapNodes root) (hm : s.mapNodes[p]? = some m) : Grid (s.opened p m).mapNodes root :=
  (h.bump p).grow (NlaCoreData.bump_self hm)

theorem Grid.opened_child (h : Grid s.mapNodes root) (hm : s.mapNodes[p]? = some m) (i : Fin 4) :
    ∃ (m' : NlaMapNode) (c : Nat) (k : NlaMapNode), (s.opened p m).mapNodes[p]? = some m' ∧ m'.rc = m.rc ∧
      m'.apChilds i = some c ∧ (s.opened p m).mapNodes[c]? = some k ∧ k.iLevel = m.iLevel + 1 ∧ k.pParent = some p ∧
      k.rc = childRect m.rc i := by
  obtain ⟨m', c, k, h1, h2, -, h4, h5, h6, h7, h8⟩ := (h.bump p).grow_child (NlaCoreData.bump_self hm) i
  exact ⟨m', c, k, h1, h2, h4, h5, h6, h7, h8⟩

theorem NlaCoreData.ensureChilds_succeed (hm : s.mapNodes[p]? = some m) :
    (s.bump p).ensureChilds .succeed p m = .ok (s.opened p m) := by
  unfold NlaCoreData.ensureChilds NlaCoreData.opened NlaCoreData.grow
  split_ifs with h0
  · exact NlaCoreData.createChildMapnode_ok (NlaCoreData.bump_self hm) h0
  · rfl

/-- Above the leaves `adddatanode` goes on from the child that `getChildRcIdx` answers, once the node has its children. -/
theorem NlaCoreData.adddatanode_above {alloc : Allocs} {m' : NlaMapNode} {fuel : Nat} (hm : s.mapNodes[p]? = some m)
    (hL : m.iLevel < conf.nMapMaxLevel) (hd : s.dataNodes[d]? = some n)
    (hens : (s.bump p).ensureChilds alloc p m = .ok (s.opened p m)) (hm' : (s.opened p m).mapNodes[p]? = some m')
    (hrc : m'.rc = m.rc) : s.adddatanode conf alloc (fuel + 1) p d =
      match getChildRcIdx m.rc n.data.loc with
      | none => .ok (s.opened p m)
      | some i =>
        match m'.apChilds i with
        | none => .error .nullDeref
        | some c => (s.opened p m).adddatanode conf alloc fuel c d := by
  have hd' : (s.opened p m).dataNodes[d]? = some n := by rw [NlaCoreData.dataNodes_opened]; exact hd
  rw [NlaCoreData.adddatanode, NlaCoreData.mapAt_ok hm]
  change (if m.iLevel ≥ conf.nMapMaxLevel then _ else (s.bump p).ensureChilds alloc p m >>= _) = _
  rw [if_neg (not_le.mpr hL), hens]
  simp only [bind, Except.bind, NlaCoreData.mapAt_ok hm', NlaCoreData.dataAt_ok hd']
  rw [hrc]
  rfl

/-- The descent of the data node `d`, which is at `loc`, from the node `p`. -/
inductive Added (conf : Conf) (d : DataPtr) (loc : Nla2dloc) : MapPtr → NlaCoreData → NlaCoreData → Prop
  | leaf {p : MapPtr} {s : NlaCoreData} {m : NlaMapNode} (hm : s.mapNodes[p]? = some m)
      (hL : conf.nMapMaxLevel ≤ m.iLevel) : Added conf d loc p s ((s.bump p).link p m.pDataNode d)
  | out {p : MapPtr} {s : NlaCoreData} {m : NlaMapNode} (hm : s.mapNodes[p]? = some m)
      (hL : m.iLevel < conf.nMapMaxLevel) (hout : isLocInRC m.rc loc = false) : Added conf d loc p s (s.opened p m)
  | down {p c : MapPtr} {s s' : NlaCoreData} {m m' k : NlaMapNode} {i : Fin 4} (hm : s.mapNodes[p]? = some m)
      (hL : m.iLevel < conf.nMapMaxLevel) (hi : getChildRcIdx m.rc loc = some i)
      (hm' : (s.opened p m).mapNodes[p]? = some m') (hc : m'.apChilds i = some c)
      (hk : (s.opened p m).mapNodes[c]? = some k) (hlevel : k.iLevel = m.iLevel + 1) (hparent : k.pParent = some p)
      (hrc : k.rc = childRect m.rc i) (rest : Added conf d loc c (s.opened p m) s') : Added conf d loc p s s'

/-- **`adddatanode` returns**, and what it returns is a descent. -/
theorem adddatanode_added {fuel : Nat} (hs : Grid s.mapNodes root) (hh : s.HeadsOk)
    (hm : s.mapNodes[p]? = some m) (hd : s.dataNodes[d]? = some n)
    (hfuel : (conf.nMapMaxLevel - m.iLevel).toNat < fuel) :
    ∃ s', s.adddatanode conf .succeed fuel p d = .ok s' ∧ Added conf d n.data.loc p s s' := by
  induction fuel generalizing s p m with
  | zero => exact absurd hfuel (Nat.not_lt_zero _)
  | succ fuel ih =>
      by_cases hL : m.iLevel ≥ conf.nMapMaxLevel
      · have hlink := NlaCoreData.linkHead_ok (NlaCoreData.bump_self hm) (List.getElem?_eq_some_iff.mp hd).1 fun e he =>
          hh p e (by rw [NlaCoreData.head_eq hm]; exact he)
        refine ⟨_, ?_, Added.leaf hm hL⟩
        rw [NlaCoreData.adddatanode, NlaCoreData.mapAt_ok hm]
        change (if m.iLevel ≥ conf.nMapMaxLevel then (s.bump p).linkHead p d else _) = _
        rw [if_pos hL]
        exact hlink
      · have hlt : m.iLevel < conf.nMapMaxLevel := not_le.mp hL
        have hens := NlaCoreData.ensureChilds_succeed hm
        cases hi : getChildRcIdx m.rc n.data.loc with
        | none =>
            obtain ⟨m', -, -, hm', hrc', -⟩ := hs.opened_child hm 0
            refine ⟨s.opened p m, ?_, Added.out hm hlt (getChildRcIdx_eq_none_iff.mp hi)⟩
            rw [NlaCoreData.adddatanode_above hm hlt hd hens hm' hrc', hi]
        | some i =>
            obtain ⟨m', c, k, hm', hrc', hc, hk, hlev, hpar, hrc⟩ := hs.opened_child hm i
            have hd' : (s.opened p m).dataNodes[d]? = some n := by rw [NlaCoreData.dataNodes_opened]; exact hd
            have hh' : (s.opened p m).HeadsOk := by
              intro q e he
              rw [NlaCoreData.head_opened hm] at he
              rw [NlaCoreData.dataNodes_opened]
              exact hh q e he
            obtain ⟨s', hs', hadd⟩ := ih (hs.opened hm) hh' hk hd' (by omega)
            refine ⟨s', ?_, Added.down hm hlt hi hm' hc hk hlev hpar hrc hadd⟩
            rw [NlaCoreData.adddatanode_above hm hlt hd hens hm' hrc', hi]
            simp only [hc]
            exact hs'

/-! ## Consequences -/

theorem Grid.keeps_opened (h : Grid s.mapNodes root) (hm : s.mapNodes[p]? = some m) :
    Keeps s.mapNodes (s.opened p m).mapNodes :=
  (s.sameTree_bump 0 p).keeps.trans ((h.bump p).keeps_grow (NlaCoreData.bump_self hm))

theorem Added.shape (ha : Added conf d loc p s s') (h : Shape conf.nMapMaxLevel s.mapNodes root) :
    Shape conf.nMapMaxLevel s'.mapNodes root := by
  induction ha with
  | leaf hm hL => exact (h.bump _).link (NlaCoreData.bump_self hm) hL _ _
  | out hm hL hout => exact h.opened hm hL
  | down hm hL _ _ _ _ _ _ _ _ ih => exact ih (h.opened hm hL)

theorem Added.grid (ha : Added conf d loc p s s') (h : Grid s.mapNodes root) : Grid s'.mapNodes root := by
  induction ha with
  | leaf hm hL => exact (h.bump _).link (NlaCoreData.bump_self hm) _ _
  | out hm hL hout => exact h.opened hm
  | down hm hL _ _ _ _ _ _ _ _ ih => exact ih (h.opened hm)

theorem Added.keeps (ha : Added conf d loc p s s') (h : Grid s.mapNodes root) : Keeps s.mapNodes s'.mapNodes := by
  induction ha with
  | leaf hm hL =>
      exact (NlaCoreData.sameTree_bump conf.nMapMaxLevel _ _).keeps.trans
        (NlaCoreData.sameTree_link conf.nMapMaxLevel (NlaCoreData.bump_self hm) hL _ _).keeps
  | out hm hL hout => exact h.keeps_opened hm
  | down hm hL _ _ _ _ _ _ _ _ ih => exact (h.keeps_opened hm).trans (ih (h.opened hm))

/-- The rest of the core data is not touched. -/
theorem Added.frame (ha : Added conf d loc p s s') :
    s'.pMapRoot = s.pMapRoot ∧ s'.pId2dataMap = s.pId2dataMap ∧ s'.dataNodes.length = s.dataNodes.length := by
  induction ha with
  | @leaf p s m hm hL =>
      refine ⟨?_, ?_, NlaCoreData.length_link _ _ _ _⟩
      · cases m.pDataNode <;> rfl
      · cases m.pDataNode <;> rfl
  | out hm hL hout =>
      exact ⟨NlaCoreData.pMapRoot_grow _ _ _, NlaCoreData.pId2dataMap_grow _ _ _, by rw [NlaCoreData.dataNodes_opened]⟩
  | down hm hL _ _ _ _ _ _ _ _ ih =>
      obtain ⟨h1, h2, h3⟩ := ih
      refine ⟨h1.trans (NlaCoreData.pMapRoot_grow _ _ _), h2.trans (NlaCoreData.pId2dataMap_grow _ _ _), ?_⟩
      rw [h3, NlaCoreData.dataNodes_opened]

/-- `d` is the new head of the list of the leaf `q`; every other list and every record is the same. -/
structure LinkedAt (conf : Conf) (d : DataPtr) (loc : Nla2dloc) (q : MapPtr) (s s' : NlaCoreData) : Prop where
  leaf : ∃ k, s'.mapNodes[q]? = some k ∧ conf.nMapMaxLevel ≤ k.iLevel ∧
    (isLocInRC initRootRect loc = true → isLocInRC k.rc loc = true)
  head : ∀ r, s'.head r = if q = r then some d else s.head r
  next : s'.next = Function.update s.next d (s.head q)
  cell : s'.cell = Function.update s.cell d (some q)
  item : s'.item = s.item

/-- In addition the list stays doubly linked, and the leaf is at the leaf level, or it is the start of the descent at the
level `lev` below it. -/
structure Spliced (conf : Conf) (d : DataPtr) (loc : Nla2dloc) (lev : Int) (q : MapPtr) (s s' : NlaCoreData) : Prop
    extends LinkedAt conf d loc q s s' where
  prev : s'.prev = Library.pushPrev s.prev (s.head q) d
  level : ∀ k, s'.mapNodes[q]? = some k → k.iLevel = max conf.nMapMaxLevel lev

/-- The views of the data nodes after the node `p` was opened. -/
theorem NlaCoreData.views_opened (hm : s.mapNodes[p]? = some m) : (s.opened p m).head = s.head ∧
    (s.opened p m).next = s.next ∧ (s.opened p m).cell = s.cell ∧ (s.opened p m).item = s.item := by
  have hd := s.dataNodes_opened p m
  refine ⟨funext fun q => NlaCoreData.head_opened hm q, funext fun e => ?_, funext fun e => ?_, funext fun e => ?_⟩
  · rw [NlaCoreData.next, hd, NlaCoreData.next]
  · rw [NlaCoreData.cell, hd, NlaCoreData.cell]
  · rw [NlaCoreData.item, hd, NlaCoreData.item]

theorem NlaCoreData.prev_opened (s : NlaCoreData) (p : Nat) (m : NlaMapNode) : (s.opened p m).prev = s.prev := by
  funext e
  rw [NlaCoreData.prev, s.dataNodes_opened p m, NlaCoreData.prev]

/-- A descent from a node whose rectangle has the location ends in a leaf whose rectangle has it. -/
theorem Added.spliced (ha : Added conf d loc p s s') (h : Grid s.mapNodes root) (hh : s.HeadsOk)
    (hd : d < s.dataNodes.length) (hm : s.mapNodes[p]? = some m)
    (hin : m.iLevel < conf.nMapMaxLevel → isLocInRC m.rc loc = true)
    (hroot : isLocInRC initRootRect loc = true → isLocInRC m.rc loc = true) :
    ∃ q, Spliced conf d loc m.iLevel q s s' := by
  induction ha generalizing m with
  | @leaf p s k hk hL =>
      obtain rfl := Option.some.inj (hm.symm.trans hk)
      have hbump := NlaCoreData.bump_self hm
      obtain ⟨h1, h2, h3⟩ := NlaCoreData.views_link (s := s.bump p) (p := p) m.pDataNode hd
      obtain ⟨k, hk, e1, -, -, e4, -⟩ :=
        (NlaCoreData.sameTree_link conf.nMapMaxLevel hbump hL m.pDataNode d).fwd p _ hbump
      have hlevel : k.iLevel = m.iLevel := e4
      refine ⟨p, ⟨⟨k, hk, by rw [e4]; exact hL, fun hl => by rw [e1]; exact hroot hl⟩, fun r => ?_, ?_, h2, h3⟩, ?_,
        fun k' hk' => ?_⟩
      · rw [NlaCoreData.head_link hbump, NlaCoreData.head_bump]
      · rw [h1, NlaCoreData.head_eq hm]
        rfl
      · rw [NlaCoreData.head_eq hm]
        exact NlaCoreData.prev_link (s := s.bump p) m.pDataNode hd fun e he =>
          hh p e (by rw [NlaCoreData.head_eq hm, he])
      · obtain rfl := Option.some.inj (hk.symm.trans hk')
        omega
  | out hk hL hout =>
      obtain rfl := Option.some.inj (hm.symm.trans hk)
      rw [hin hL] at hout
      cases hout
  | @down p c s s' k k' kc i hk hL hi hk' hc hkc hlev hpar hrc rest ih =>
      obtain rfl := Option.some.inj (hm.symm.trans hk)
      obtain ⟨e1, e2, e3, e4⟩ := NlaCoreData.views_opened hm
      have hkl : isLocInRC kc.rc loc = true := by
        rw [hrc, isLocInRC_childRect_iff (h.node p m hm).ok]
        exact hi
      have hh' : (s.opened p m).HeadsOk := by
        rw [NlaCoreData.HeadsOk, e1, NlaCoreData.dataNodes_opened]
        exact hh
      obtain ⟨q, hq⟩ := ih (h.opened hm) hh' (by rw [NlaCoreData.dataNodes_opened]; exact hd) hkc
        (fun _ => hkl) (fun _ => hkl)
      refine ⟨q, ⟨hq.leaf, fun r => ?_, ?_, ?_, ?_⟩, ?_, fun k hk => ?_⟩
      · rw [hq.head, e1]
      · rw [hq.next, e1, e2]
      · rw [hq.cell, e3]
      · rw [hq.item, e4]
      · rw [hq.prev, e1, NlaCoreData.prev_opened]
      · rw [hq.level k hk, hlev]
        omega

/-- A descent from a node above the leaf level whose rectangle misses the location links nothing. -/
theorem Added.lost (ha : Added conf d loc p s s') (hm : s.mapNodes[p]? = some m) (hL : m.iLevel < conf.nMapMaxLevel)
    (hout : isLocInRC m.rc loc = false) :
    s'.head = s.head ∧ s'.next = s.next ∧ s'.cell = s.cell ∧ s'.item = s.item := by
  cases ha with
  | leaf hk hle =>
      obtain rfl := Option.some.inj (hm.symm.trans hk)
      omega
  | out hk _ _ =>
      obtain rfl := Option.some.inj (hm.symm.trans hk)
      exact NlaCoreData.views_opened hm
  | down hk _ hi _ _ _ _ _ _ _ =>
      obtain rfl := Option.some.inj (hm.symm.trans hk)
      rw [getChildRcIdx_eq_none_iff.mpr hout] at hi
      cases hi

end Lookaround
