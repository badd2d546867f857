import Lookaround.Core

/-!
# The shape of the quadtree

What the steps of an insertion do to the tree, and the shape they keep.

* `bump`, `grow`, `link` : the three writes of `adddatanode`, with allocations that succeed: the count, the children of a
  node that has none, and the head of a leaf list;
* `Grid ms root` : every node of `ms` has no child or the four quadrants, one level down; rectangles are ordered and
  inside the root rectangle; every node but the root is a child of its parent;
* `Shape L ms root` : in addition nodes from level `L` on have no children and nodes above it no list;
* `Grid.bump`, `Grid.grow`, `Grid.link` and their companions for `Shape` : the writes keep both;
* `Grid.level_unique`, `Grid.ancestor`, `Grid.rc_subset` : the nodes of one level are disjoint, and a node lies in the
  nodes above it.
-/

namespace Lookaround

namespace NlaCoreData

variable {s : NlaCoreData} {p q d : Nat} {m : NlaMapNode} {n : NlaDataNode}

/-! ## Reading memory -/

theorem mapAt_ok (h : s.mapNodes[p]? = some m) : s.mapAt p = .ok m := by
  rw [mapAt, h]

theorem dataAt_ok (h : s.dataNodes[d]? = some n) : s.dataAt d = .ok n := by
  rw [dataAt, h]

theorem getElem?_of_mapAt (h : s.mapAt p = .ok m) : s.mapNodes[p]? = some m := by
  unfold mapAt at h
  split at h
  · rename_i hm
    cases h
    exact hm
  · cases h

theorem getElem?_of_dataAt (h : s.dataAt d = .ok n) : s.dataNodes[d]? = some n := by
  unfold dataAt at h
  split at h
  · rename_i hn
    cases h
    exact hn
  · cases h

theorem mapNodes_modifyMap (f : NlaMapNode → NlaMapNode) (q : Nat) :
    (s.modifyMap p f).mapNodes[q]? = if p = q then (s.mapNodes[q]?).map f else s.mapNodes[q]? := by
  rw [modifyMap, List.getElem?_modify]
  split_ifs <;> simp

theorem dataNodes_modifyData (f : NlaDataNode → NlaDataNode) (e : Nat) :
    (s.modifyData d f).dataNodes[e]? = if d = e then (s.dataNodes[e]?).map f else s.dataNodes[e]? := by
  rw [modifyData, List.getElem?_modify]
  split_ifs <;> simp

@[simp] theorem length_modifyData (f : NlaDataNode → NlaDataNode) :
    (s.modifyData d f).dataNodes.length = s.dataNodes.length := by
  simp [modifyData]

@[simp] theorem length_modifyMap (f : NlaMapNode → NlaMapNode) :
    (s.modifyMap p f).mapNodes.length = s.mapNodes.length := by
  simp [modifyMap]

/-! ## The steps of the descent -/

/-- `pMapNode->i_item_count++`. -/
def bump (s : NlaCoreData) (p : MapPtr) : NlaCoreData :=
  s.modifyMap p fun m => { m with iItemCount := m.iItemCount + 1 }

/-- The tree after `create_child_mapnode` gave the node `p`, which is `m`, its four children. -/
def expand (s : NlaCoreData) (p : MapPtr) (m : NlaMapNode) : NlaCoreData :=
  { s with mapNodes := s.mapNodes.modify p (fun m => { m with apChilds := fun i => some (s.mapNodes.length + i) }) ++
      List.ofFn (newChild p m) }

/-- The children are created at the first visit. -/
def grow (s : NlaCoreData) (p : MapPtr) (m : NlaMapNode) : NlaCoreData :=
  if m.apChilds 0 = none then s.expand p m else s

/-- The data node `d` in front of `head`, in the list of `p`. -/
def link (s : NlaCoreData) (p : MapPtr) (head : Option DataPtr) (d : DataPtr) : NlaCoreData :=
  let s := s.modifyData d fun n => { n with next := head, prev := none, pMapNode := some p }
  let s := match head with
    | none => s
    | some head => s.modifyData head fun n => { n with prev := some d }
  s.modifyMap p fun m => { m with pDataNode := some d }

theorem modify_append_left {α : Type} (f : α → α) {i : Nat} {l : List α} (h : i < l.length) (r : List α) :
    (l ++ r).modify i f = l.modify i f ++ r := by
  apply List.ext_getElem?
  intro j
  simp only [List.getElem?_modify, List.getElem?_append, List.length_modify]
  split_ifs <;> simp_all

theorem createChildMapnode_ok (hm : s.mapNodes[p]? = some m) (h0 : m.apChilds 0 = none) :
    s.createChildMapnode .succeed p = .ok (s.expand p m) := by
  have hp : p < s.mapNodes.length := (List.getElem?_eq_some_iff.mp hm).1
  rw [createChildMapnode, mapAt_ok hm]
  simp only [bind, Except.bind, h0, ne_eq, not_true_eq_false, if_false, List.foldlM_cons, List.foldlM_nil, createChild,
    Allocs.succeed, if_true, pure, Except.pure, modifyMap, List.length_modify, List.length_append,
    List.length_singleton, modify_append_left, hp, List.modify_modify_eq, List.append_assoc, expand]
  congr 4
  funext m
  simp only [Function.comp_apply]
  congr 1
  funext i
  fin_cases i <;> simp [Function.update]

theorem linkHead_ok (hm : s.mapNodes[p]? = some m) (hd : d < s.dataNodes.length)
    (hh : ∀ e, m.pDataNode = some e → e < s.dataNodes.length) : s.linkHead p d = .ok (s.link p m.pDataNode d) := by
  have hdata : s.dataNodes[d]? = some s.dataNodes[d] := List.getElem?_eq_getElem hd
  rw [linkHead, mapAt_ok hm]
  simp only [bind, Except.bind, dataAt_ok hdata, link]
  cases hp : m.pDataNode with
  | none => rfl
  | some e =>
      have he := hh e hp
      simp only [dataAt, length_modifyData, he, List.getElem?_eq_getElem]
      rfl

theorem removeDatanodeFromMap_some (conf : Conf) (fuel : Nat) (pMapNode : Option MapPtr) :
    s.removeDatanodeFromMap conf (fuel + 1) pMapNode (some d) = .ok s := by
  rw [removeDatanodeFromMap, if_pos (Or.inr (Option.some_ne_none d))]

end NlaCoreData

/-! ## The shape -/

/-- The shape of one node of the tree. -/
structure NodeShape (L : Int) (ms : List NlaMapNode) (p : MapPtr) (m : NlaMapNode) : Prop where
  childs : (∀ i, m.apChilds i = none) ∨ ∀ i, ∃ c k, m.apChilds i = some c ∧ ms[c]? = some k ∧
    k.iLevel = m.iLevel + 1 ∧ k.pParent = some p ∧ k.rc = childRect m.rc i
  leaf : L ≤ m.iLevel → ∀ i, m.apChilds i = none
  inner : m.iLevel < L → m.pDataNode = none
  ok : m.rc.Ok
  level : 0 ≤ m.iLevel

/-- The shape of the tree. -/
structure Shape (L : Int) (ms : List NlaMapNode) (root : MapPtr) : Prop where
  top : ∃ m, ms[root]? = some m ∧ m.rc = initRootRect ∧ m.iLevel = 0 ∧ m.pParent = none
  node : ∀ (p : Nat) (m : NlaMapNode), ms[p]? = some m → NodeShape L ms p m
  linked : ∀ (p : Nat) (m : NlaMapNode), ms[p]? = some m → p ≠ root → ∃ (q : Nat) (k : NlaMapNode) (i : Fin 4),
    m.pParent = some q ∧ ms[q]? = some k ∧ k.apChilds i = some p

/-- One node of a quadtree, whatever the level of the leaves. -/
structure GridNode (ms : List NlaMapNode) (p : MapPtr) (m : NlaMapNode) : Prop where
  childs : (∀ i, m.apChilds i = none) ∨ ∀ i, ∃ c k, m.apChilds i = some c ∧ ms[c]? = some k ∧
    k.iLevel = m.iLevel + 1 ∧ k.pParent = some p ∧ k.rc = childRect m.rc i
  ok : m.rc.Ok
  level : 0 ≤ m.iLevel

/-- A quadtree of map nodes. -/
structure Grid (ms : List NlaMapNode) (root : MapPtr) : Prop where
  top : ∃ m, ms[root]? = some m ∧ m.rc = initRootRect ∧ m.iLevel = 0 ∧ m.pParent = none
  node : ∀ (p : Nat) (m : NlaMapNode), ms[p]? = some m → GridNode ms p m
  linked : ∀ (p : Nat) (m : NlaMapNode), ms[p]? = some m → p ≠ root → ∃ (q : Nat) (k : NlaMapNode) (i : Fin 4),
    m.pParent = some q ∧ ms[q]? = some k ∧ k.apChilds i = some p

/-- The shape is a quadtree with all its leaves at one level and lists at the leaves only. -/
theorem shape_iff {L : Int} {ms : List NlaMapNode} {root : Nat} : Shape L ms root ↔ Grid ms root ∧
    ∀ (p : Nat) (m : NlaMapNode), ms[p]? = some m →
      (L ≤ m.iLevel → ∀ i, m.apChilds i = none) ∧ (m.iLevel < L → m.pDataNode = none) := by
  constructor
  · intro h
    refine ⟨⟨h.top, fun p m hm => ?_, h.linked⟩, fun p m hm => ?_⟩
    · exact ⟨(h.node p m hm).childs, (h.node p m hm).ok, (h.node p m hm).level⟩
    · exact ⟨(h.node p m hm).leaf, (h.node p m hm).inner⟩
  · rintro ⟨h, hlev⟩
    refine ⟨h.top, fun p m hm => ?_, h.linked⟩
    exact ⟨(h.node p m hm).childs, (hlev p m hm).1, (hlev p m hm).2, (h.node p m hm).ok, (h.node p m hm).level⟩

theorem Shape.grid {L : Int} {ms : List NlaMapNode} {root : Nat} (h : Shape L ms root) : Grid ms root :=
  (shape_iff.mp h).1

theorem shape_init (L : Int) (iHashSize : Nat) (h : 0 < iHashSize) :
    Shape L (initCoreData iHashSize h).mapNodes (initCoreData iHashSize h).pMapRoot where
  top := ⟨_, rfl, rfl, rfl, rfl⟩
  node := by
    intro p m hm
    rw [initCoreData, List.getElem?_singleton] at hm
    split_ifs at hm
    cases hm
    exact ⟨Or.inl fun _ => rfl, fun _ _ => rfl, fun _ => rfl, ok_initRootRect, le_refl _⟩
  linked := by
    intro p m hm hp
    rw [initCoreData, List.getElem?_singleton] at hm
    split_ifs at hm with h0
    exact absurd h0 hp

/-- Two node lists with the same tree: the same nodes up to counts, and lists only where nodes of `ms` may have one. -/
structure SameTree (L : Int) (ms ms' : List NlaMapNode) : Prop where
  fwd : ∀ (p : Nat) (m : NlaMapNode), ms[p]? = some m → ∃ m' : NlaMapNode, ms'[p]? = some m' ∧ m'.rc = m.rc ∧
    m'.apChilds = m.apChilds ∧
    m'.pParent = m.pParent ∧ m'.iLevel = m.iLevel ∧ (m.iLevel < L → m'.pDataNode = m.pDataNode)
  len : ms'.length = ms.length

theorem SameTree.bwd {L : Int} {ms ms' : List NlaMapNode} (h : SameTree L ms ms') {p : Nat} {m' : NlaMapNode}
    (hm : ms'[p]? = some m') : ∃ m : NlaMapNode, ms[p]? = some m ∧ m'.rc = m.rc ∧ m'.apChilds = m.apChilds ∧
      m'.pParent = m.pParent ∧ m'.iLevel = m.iLevel ∧ (m.iLevel < L → m'.pDataNode = m.pDataNode) := by
  have hp : p < ms.length := by
    rw [← h.len]
    exact (List.getElem?_eq_some_iff.mp hm).1
  obtain ⟨k, hk, hrest⟩ := h.fwd p ms[p] (List.getElem?_eq_getElem hp)
  rw [hm] at hk
  cases hk
  exact ⟨ms[p], List.getElem?_eq_getElem hp, hrest⟩

theorem Grid.sameTree {L : Int} {ms ms' : List NlaMapNode} {root : Nat} (h : Grid ms root)
    (ht : SameTree L ms ms') : Grid ms' root where
  top := by
    obtain ⟨m, hm, h1, h2, h3⟩ := h.top
    obtain ⟨m', hm', e1, -, e3, e4, -⟩ := ht.fwd root m hm
    exact ⟨m', hm', by rw [e1, h1], by rw [e4, h2], by rw [e3, h3]⟩
  node := by
    intro p m' hm'
    obtain ⟨m, hm, e1, e2, e3, e4, -⟩ := ht.bwd hm'
    have hn := h.node p m hm
    refine ⟨?_, by rw [e1]; exact hn.ok, by rw [e4]; exact hn.level⟩
    rcases hn.childs with hc | hc
    · exact Or.inl fun i => by rw [e2]; exact hc i
    · refine Or.inr fun i => ?_
      obtain ⟨c, k, g1, g2, g3, g4, g5⟩ := hc i
      obtain ⟨k', f1, f2, -, f4, f5, -⟩ := ht.fwd c k g2
      exact ⟨c, k', by rw [e2, g1], f1, by rw [f5, g3, e4], by rw [f4, g4], by rw [f2, g5, e1]⟩
  linked := by
    intro p m' hm' hp
    obtain ⟨m, hm, -, -, e3, -, -⟩ := ht.bwd hm'
    obtain ⟨q, k, i, g1, g2, g3⟩ := h.linked p m hm hp
    obtain ⟨k', f1, -, f3, -, -, -⟩ := ht.fwd q k g2
    exact ⟨q, k', i, by rw [e3, g1], f1, by rw [f3, g3]⟩

theorem Shape.sameTree {L : Int} {ms ms' : List NlaMapNode} {root : Nat} (h : Shape L ms root)
    (ht : SameTree L ms ms') : Shape L ms' root := by
  refine shape_iff.mpr ⟨h.grid.sameTree ht, fun p m' hm' => ?_⟩
  obtain ⟨m, hm, -, e2, -, e4, e5⟩ := ht.bwd hm'
  have hn := h.node p m hm
  refine ⟨fun hl i => ?_, fun hl => ?_⟩
  · rw [e2]
    exact hn.leaf (by rw [← e4]; exact hl) i
  · rw [e4] at hl
    rw [e5 hl]
    exact hn.inner hl

namespace NlaCoreData

variable {s : NlaCoreData} {p d : Nat} {m : NlaMapNode} {head : Option DataPtr}

theorem sameTree_modifyMap (L : Int) (f : NlaMapNode → NlaMapNode)
    (hf : ∀ m, s.mapNodes[p]? = some m → (f m).rc = m.rc ∧ (f m).apChilds = m.apChilds ∧ (f m).pParent = m.pParent ∧
      (f m).iLevel = m.iLevel ∧ (m.iLevel < L → (f m).pDataNode = m.pDataNode)) :
    SameTree L s.mapNodes (s.modifyMap p f).mapNodes where
  fwd := by
    intro q m hm
    rw [mapNodes_modifyMap]
    split_ifs with hpq
    · subst hpq
      exact ⟨f m, by rw [hm]; rfl, hf m hm⟩
    · exact ⟨m, hm, rfl, rfl, rfl, rfl, fun _ => rfl⟩
  len := length_modifyMap f

theorem sameTree_bump (L : Int) (s : NlaCoreData) (p : Nat) : SameTree L s.mapNodes (s.bump p).mapNodes :=
  sameTree_modifyMap L _ fun _ _ => ⟨rfl, rfl, rfl, rfl, fun _ => rfl⟩

theorem mapNodes_link (s : NlaCoreData) (p : Nat) (head : Option DataPtr) (d : Nat) :
    (s.link p head d).mapNodes = (s.modifyMap p fun m => { m with pDataNode := some d }).mapNodes := by
  cases head <;> rfl

theorem sameTree_link (L : Int) (hm : s.mapNodes[p]? = some m) (hL : L ≤ m.iLevel) (head : Option DataPtr) (d : Nat) :
    SameTree L s.mapNodes (s.link p head d).mapNodes := by
  rw [mapNodes_link]
  refine sameTree_modifyMap L _ fun k hk => ⟨rfl, rfl, rfl, rfl, fun hlt => ?_⟩
  rw [hm] at hk
  cases hk
  omega

/-! ## Growing -/

theorem length_expand (s : NlaCoreData) (p : Nat) (m : NlaMapNode) :
    (s.expand p m).mapNodes.length = s.mapNodes.length + 4 := by
  simp [expand]

theorem expand_self (hm : s.mapNodes[p]? = some m) : (s.expand p m).mapNodes[p]? =
    some { m with apChilds := fun i => some (s.mapNodes.length + i) } := by
  have hp : p < s.mapNodes.length := (List.getElem?_eq_some_iff.mp hm).1
  rw [expand, List.getElem?_append_left (by rwa [List.length_modify]), List.getElem?_modify_eq, hm]
  rfl

theorem expand_old {q : Nat} (hq : q < s.mapNodes.length) (hqp : q ≠ p) :
    (s.expand p m).mapNodes[q]? = s.mapNodes[q]? := by
  rw [expand, List.getElem?_append_left (by rwa [List.length_modify]), List.getElem?_modify_ne _ _ (Ne.symm hqp)]

theorem expand_new (i : Fin 4) : (s.expand p m).mapNodes[s.mapNodes.length + i]? = some (newChild p m i) := by
  rw [expand, List.getElem?_append_right (by rw [List.length_modify]; omega), List.length_modify,
    Nat.add_sub_cancel_left, List.getElem?_ofFn, dif_pos i.isLt]

/-- A node of the grown tree is the parent, an old node or one of the four children. -/
theorem expand_cases (hm : s.mapNodes[p]? = some m) {q : Nat} {k : NlaMapNode}
    (hk : (s.expand p m).mapNodes[q]? = some k) :
    (q = p ∧ k = { m with apChilds := fun i => some (s.mapNodes.length + i) }) ∨
      (q ≠ p ∧ s.mapNodes[q]? = some k) ∨ ∃ i : Fin 4, q = s.mapNodes.length + i ∧ k = newChild p m i := by
  have hlt := (List.getElem?_eq_some_iff.mp hk).1
  rw [length_expand] at hlt
  by_cases hq : q < s.mapNodes.length
  · by_cases hqp : q = p
    · subst hqp
      rw [expand_self hm] at hk
      exact Or.inl ⟨rfl, (Option.some.inj hk).symm⟩
    · rw [expand_old hq hqp] at hk
      exact Or.inr (Or.inl ⟨hqp, hk⟩)
  · have hi : q - s.mapNodes.length < 4 := by omega
    have he : q = s.mapNodes.length + (⟨q - s.mapNodes.length, hi⟩ : Fin 4) := by
      simp only
      omega
    rw [he, expand_new] at hk
    exact Or.inr (Or.inr ⟨_, he, (Option.some.inj hk).symm⟩)

/-- A view of the map nodes that does not read the children, and sees in a new child what it sees where no node is. -/
theorem view_grow {α : Type} (f : Option NlaMapNode → α) (hm : s.mapNodes[p]? = some m)
    (hself : ∀ cs, f (some { m with apChilds := cs }) = f (some m)) (hnew : ∀ i, f (some (newChild p m i)) = f none)
    (q : Nat) : f (s.grow p m).mapNodes[q]? = f s.mapNodes[q]? := by
  unfold grow
  split_ifs
  · cases hk : (s.expand p m).mapNodes[q]? with
    | none =>
        have hlen := List.getElem?_eq_none_iff.mp hk
        rw [length_expand] at hlen
        rw [List.getElem?_eq_none_iff.mpr (by omega : s.mapNodes.length ≤ q)]
    | some k =>
        rcases expand_cases hm hk with ⟨rfl, rfl⟩ | ⟨-, hk⟩ | ⟨i, rfl, rfl⟩
        · rw [hm]
          exact hself _
        · rw [hk]
        · rw [hnew, List.getElem?_eq_none_iff.mpr (by omega : s.mapNodes.length ≤ s.mapNodes.length + i)]
  · rfl

end NlaCoreData

section Keep

variable {L : Int} {s : NlaCoreData} {root p : Nat} {m : NlaMapNode}

theorem Grid.bump (h : Grid s.mapNodes root) (p : Nat) : Grid (s.bump p).mapNodes root :=
  h.sameTree (s.sameTree_bump 0 p)

theorem Grid.link (h : Grid s.mapNodes root) (hm : s.mapNodes[p]? = some m) (head : Option DataPtr) (d : Nat) :
    Grid (s.link p head d).mapNodes root :=
  h.sameTree (NlaCoreData.sameTree_link m.iLevel hm (le_refl _) head d)

theorem Shape.bump (h : Shape L s.mapNodes root) (p : Nat) : Shape L (s.bump p).mapNodes root :=
  h.sameTree (s.sameTree_bump L p)

theorem Shape.link (h : Shape L s.mapNodes root) (hm : s.mapNodes[p]? = some m) (hL : L ≤ m.iLevel)
    (head : Option DataPtr) (d : Nat) : Shape L (s.link p head d).mapNodes root :=
  h.sameTree (NlaCoreData.sameTree_link L hm hL head d)

/-- The nodes of `ms` are still there in `ms'`, with the same rectangle, level, parent and children; new nodes and new
children may have come. -/
def Keeps (ms ms' : List NlaMapNode) : Prop :=
  ∀ (q : Nat) (k : NlaMapNode), ms[q]? = some k → ∃ k' : NlaMapNode, ms'[q]? = some k' ∧ k'.rc = k.rc ∧
    k'.pParent = k.pParent ∧ k'.iLevel = k.iLevel ∧
    ∀ (i : Fin 4) (c : Nat), k.apChilds i = some c → k'.apChilds i = some c

theorem Keeps.refl (ms : List NlaMapNode) : Keeps ms ms :=
  fun _ k hk => ⟨k, hk, rfl, rfl, rfl, fun _ _ hc => hc⟩

theorem Keeps.trans {ms ms' ms'' : List NlaMapNode} (h : Keeps ms ms') (h' : Keeps ms' ms'') : Keeps ms ms'' := by
  intro q k hk
  obtain ⟨k', hk', e1, e2, e3, e4⟩ := h q k hk
  obtain ⟨k'', hk'', f1, f2, f3, f4⟩ := h' q k' hk'
  exact ⟨k'', hk'', by rw [f1, e1], by rw [f2, e2], by rw [f3, e3], fun i c hc => f4 i c (e4 i c hc)⟩

theorem SameTree.keeps {ms ms' : List NlaMapNode} (h : SameTree L ms ms') : Keeps ms ms' := by
  intro q k hk
  obtain ⟨k', hk', e1, e2, e3, e4, -⟩ := h.fwd q k hk
  exact ⟨k', hk', e1, e3, e4, fun i c hc => by rw [e2, hc]⟩

theorem Grid.no_childs (h : Grid s.mapNodes root) (hm : s.mapNodes[p]? = some m) (h0 : m.apChilds 0 = none)
    (i : Fin 4) : m.apChilds i = none := by
  rcases (h.node p m hm).childs with hc | hc
  · exact hc i
  · obtain ⟨c, k, hc, -⟩ := hc 0
    rw [h0] at hc
    cases hc

theorem Grid.keeps_expand (h : Grid s.mapNodes root) (hm : s.mapNodes[p]? = some m) (h0 : m.apChilds 0 = none) :
    Keeps s.mapNodes (s.expand p m).mapNodes := by
  intro q k hk
  by_cases hqp : q = p
  · subst hqp
    rw [hm] at hk
    cases hk
    refine ⟨_, NlaCoreData.expand_self hm, rfl, rfl, rfl, fun i c hc => ?_⟩
    rw [h.no_childs hm h0 i] at hc
    cases hc
  · rw [NlaCoreData.expand_old (List.getElem?_eq_some_iff.mp hk).1 hqp]
    exact ⟨k, hk, rfl, rfl, rfl, fun _ _ hc => hc⟩

theorem Grid.expand (h : Grid s.mapNodes root) (hm : s.mapNodes[p]? = some m) (h0 : m.apChilds 0 = none) :
    Grid (s.expand p m).mapNodes root := by
  have hnode := h.node p m hm
  have hold := h.keeps_expand hm h0
  refine ⟨?_, fun q k hk => ?_, fun q k hk hq => ?_⟩
  · obtain ⟨r, hr, h1, h2, h3⟩ := h.top
    obtain ⟨r', hr', e1, e2, e3, -⟩ := hold root r hr
    exact ⟨r', hr', by rw [e1, h1], by rw [e3, h2], by rw [e2, h3]⟩
  · rcases NlaCoreData.expand_cases hm hk with ⟨rfl, rfl⟩ | ⟨-, hk⟩ | ⟨i, rfl, rfl⟩
    · exact ⟨Or.inr fun i => ⟨_, _, rfl, NlaCoreData.expand_new i, rfl, rfl, rfl⟩, hnode.ok, hnode.level⟩
    · have hn := h.node q k hk
      refine ⟨?_, hn.ok, hn.level⟩
      rcases hn.childs with hc | hc
      · exact Or.inl hc
      · refine Or.inr fun i => ?_
        obtain ⟨c, j, g1, g2, g3, g4, g5⟩ := hc i
        obtain ⟨j', f1, f2, f3, f4, -⟩ := hold c j g2
        exact ⟨c, j', g1, f1, by rw [f4, g3], by rw [f3, g4], by rw [f2, g5]⟩
    · refine ⟨Or.inl fun _ => rfl, ok_childRect hnode.ok i, ?_⟩
      have := hnode.level
      change 0 ≤ m.iLevel + 1
      omega
  · rcases NlaCoreData.expand_cases hm hk with ⟨rfl, rfl⟩ | ⟨-, hk⟩ | ⟨i, rfl, rfl⟩
    · obtain ⟨r, j, i, g1, g2, g3⟩ := h.linked q m hm hq
      obtain ⟨j', f1, -, -, -, f5⟩ := hold r j g2
      exact ⟨r, j', i, g1, f1, f5 i q g3⟩
    · obtain ⟨r, j, i, g1, g2, g3⟩ := h.linked q k hk hq
      obtain ⟨j', f1, -, -, -, f5⟩ := hold r j g2
      exact ⟨r, j', i, g1, f1, f5 i q g3⟩
    · exact ⟨p, _, i, rfl, NlaCoreData.expand_self hm, rfl⟩

theorem Shape.expand (h : Shape L s.mapNodes root) (hm : s.mapNodes[p]? = some m) (h0 : m.apChilds 0 = none)
    (hL : m.iLevel < L) : Shape L (s.expand p m).mapNodes root := by
  refine shape_iff.mpr ⟨h.grid.expand hm h0, fun q k hk => ?_⟩
  rcases NlaCoreData.expand_cases hm hk with ⟨rfl, rfl⟩ | ⟨-, hk⟩ | ⟨i, rfl, rfl⟩
  · exact ⟨fun hle => absurd hle (not_le.mpr hL), (h.node q m hm).inner⟩
  · exact ⟨(h.node q k hk).leaf, (h.node q k hk).inner⟩
  · exact ⟨fun _ _ => rfl, fun _ => rfl⟩

theorem Grid.grow (h : Grid s.mapNodes root) (hm : s.mapNodes[p]? = some m) : Grid (s.grow p m).mapNodes root := by
  unfold NlaCoreData.grow
  split_ifs with h0
  · exact h.expand hm h0
  · exact h

theorem Shape.grow (h : Shape L s.mapNodes root) (hm : s.mapNodes[p]? = some m) (hL : m.iLevel < L) :
    Shape L (s.grow p m).mapNodes root := by
  unfold NlaCoreData.grow
  split_ifs with h0
  · exact h.expand hm h0 hL
  · exact h

theorem Grid.keeps_grow (h : Grid s.mapNodes root) (hm : s.mapNodes[p]? = some m) :
    Keeps s.mapNodes (s.grow p m).mapNodes := by
  unfold NlaCoreData.grow
  split_ifs with h0
  · exact h.keeps_expand hm h0
  · exact Keeps.refl _

/-- A node has all four children once it has grown. -/
theorem Grid.grow_child (h : Grid s.mapNodes root) (hm : s.mapNodes[p]? = some m) (i : Fin 4) :
    ∃ (m' : NlaMapNode) (c : Nat) (k : NlaMapNode), (s.grow p m).mapNodes[p]? = some m' ∧ m'.rc = m.rc ∧
      m'.iLevel = m.iLevel ∧ m'.apChilds i = some c ∧ (s.grow p m).mapNodes[c]? = some k ∧ k.iLevel = m.iLevel + 1 ∧
      k.pParent = some p ∧ k.rc = childRect m.rc i := by
  unfold NlaCoreData.grow
  split_ifs with h0
  · exact ⟨_, _, _, NlaCoreData.expand_self hm, rfl, rfl, rfl, NlaCoreData.expand_new i, rfl, rfl, rfl⟩
  · rcases (h.node p m hm).childs with hc | hc
    · exact absurd (hc 0) h0
    · obtain ⟨c, k, g1, g2, g3, g4, g5⟩ := hc i
      exact ⟨m, c, k, hm, rfl, rfl, g1, g2, g3, g4, g5⟩

end Keep

/-! ## Cells -/

section Cells

variable {L : Int} {ms : List NlaMapNode} {root p q : Nat} {m k : NlaMapNode} {loc : Nla2dloc}

/-- A child of a node is its quadrant, one level down. -/
theorem Grid.child (h : Grid ms root) {i : Fin 4} {c : Nat} (hm : ms[p]? = some m) (hc : m.apChilds i = some c) :
    ∃ k, ms[c]? = some k ∧ k.iLevel = m.iLevel + 1 ∧ k.pParent = some p ∧ k.rc = childRect m.rc i := by
  rcases (h.node p m hm).childs with hn | hcs
  · rw [hn i] at hc
    cases hc
  · obtain ⟨c', k, hc', hk⟩ := hcs i
    obtain rfl := Option.some.inj (hc.symm.trans hc')
    exact ⟨k, hk⟩

/-- A node other than the root is a quadrant of a node one level up. -/
theorem Grid.parent (h : Grid ms root) (hm : ms[p]? = some m) (hp : p ≠ root) :
    ∃ (q : Nat) (k : NlaMapNode) (i : Fin 4), ms[q]? = some k ∧ k.apChilds i = some p ∧ m.pParent = some q ∧
      m.iLevel = k.iLevel + 1 ∧ m.rc = childRect k.rc i := by
  obtain ⟨q, k, i, h1, h2, h3⟩ := h.linked p m hm hp
  obtain ⟨m', hm', hlev, -, hrc⟩ := h.child h2 h3
  obtain rfl := Option.some.inj (hm.symm.trans hm')
  exact ⟨q, k, i, h2, h3, h1, hlev, hrc⟩

/-- A node with a child is above the leaf level. -/
theorem Shape.level_lt (h : Shape L ms root) {i : Fin 4} {c : Nat} (hk : ms[q]? = some k)
    (hc : k.apChilds i = some c) : k.iLevel < L := by
  by_contra hlt
  rw [(h.node q k hk).leaf (not_lt.mp hlt) i] at hc
  cases hc

/-- A node at level 0 is the root. -/
theorem Grid.eq_root (h : Grid ms root) (hm : ms[p]? = some m) (h0 : m.iLevel = 0) : p = root := by
  by_contra hp
  obtain ⟨q, k, i, hk, -, -, hlev, -⟩ := h.parent hm hp
  have := (h.node q k hk).level
  omega

/-- A node below level 0 is not the root. -/
theorem Grid.ne_root (h : Grid ms root) (hm : ms[p]? = some m) (h0 : 0 < m.iLevel) : p ≠ root := by
  rintro rfl
  obtain ⟨r, hr, -, hlev, -⟩ := h.top
  rw [hm] at hr
  cases hr
  omega

/-- Two nodes of one level with a common location are the same node. -/
theorem Grid.level_unique (h : Grid ms root) {n : Nat} (hp : ms[p]? = some m) (hq : ms[q]? = some k)
    (hpn : m.iLevel = n) (hqn : k.iLevel = n) (hpl : isLocInRC m.rc loc = true) (hql : isLocInRC k.rc loc = true) :
    p = q := by
  induction n generalizing p q m k with
  | zero => rw [h.eq_root hp (by simpa using hpn), h.eq_root hq (by simpa using hqn)]
  | succ n ih =>
      obtain ⟨p', m', i, hm', hi, -, hlm, hrm⟩ := h.parent hp (h.ne_root hp (by omega))
      obtain ⟨q', k', j, hk', hj, -, hlk, hrk⟩ := h.parent hq (h.ne_root hq (by omega))
      rw [hrm] at hpl
      rw [hrk] at hql
      have hm'ok := (h.node p' m' hm').ok
      have hpq : p' = q' := ih hm' hk' (by push_cast at hpn; omega) (by push_cast at hqn; omega)
        (isLocInRC_of_childRect hm'ok hpl) (isLocInRC_of_childRect (h.node q' k' hk').ok hql)
      subst hpq
      rw [hm'] at hk'
      cases hk'
      rw [childRect_disjoint hm'ok hpl hql, hj] at hi
      exact (Option.some.inj hi).symm

/-- A node has an ancestor at every level above it. -/
theorem Grid.ancestor (h : Grid ms root) {n : Nat} (hm : ms[p]? = some m) (hn : (n : Int) ≤ m.iLevel) :
    ∃ (a : Nat) (k : NlaMapNode), ms[a]? = some k ∧ k.iLevel = n ∧
      ∀ loc, isLocInRC m.rc loc = true → isLocInRC k.rc loc = true := by
  obtain ⟨j, hj⟩ : ∃ j : Nat, m.iLevel = n + j := ⟨(m.iLevel - n).toNat, by omega⟩
  induction j generalizing p m with
  | zero => exact ⟨p, m, hm, by simpa using hj, fun _ hl => hl⟩
  | succ j ih =>
      obtain ⟨p', m', i, hm', -, -, hlev, hrc⟩ := h.parent hm (h.ne_root hm (by omega))
      obtain ⟨a, k, hk, hkn, hsub⟩ := ih hm' (by omega) (by omega)
      refine ⟨a, k, hk, hkn, fun loc hl => hsub loc ?_⟩
      rw [hrc] at hl
      exact isLocInRC_of_childRect (h.node p' m' hm').ok hl

/-- A node whose rectangle has a location of a lower one contains the lower one's rectangle. -/
theorem Grid.rc_subset (h : Grid ms root) (hm : ms[p]? = some m) (hk : ms[q]? = some k) (hle : k.iLevel ≤ m.iLevel)
    (hml : isLocInRC m.rc loc = true) (hkl : isLocInRC k.rc loc = true) {loc' : Nla2dloc}
    (hl' : isLocInRC m.rc loc' = true) : isLocInRC k.rc loc' = true := by
  have h0 := (h.node q k hk).level
  obtain ⟨a, k', hk', hlev, hsub⟩ := h.ancestor (n := k.iLevel.toNat) hm (by omega)
  have haq := h.level_unique hk' hk hlev (by omega) (hsub loc hml) hkl
  subst haq
  obtain rfl := Option.some.inj (hk'.symm.trans hk)
  exact hsub loc' hl'

/-- Leaves are at level `L`, or the root is the only one. -/
theorem Shape.leaf_level (h : Shape L ms root) (hm : ms[p]? = some m) (hL : L ≤ m.iLevel) : m.iLevel = max L 0 := by
  by_cases hp : p = root
  · subst hp
    obtain ⟨r, hr, -, h0, -⟩ := h.top
    rw [hm] at hr
    cases hr
    omega
  · obtain ⟨q, k, i, hk, hc, -, hlev, -⟩ := h.grid.parent hm hp
    have hlt := h.level_lt hk hc
    have := (h.node q k hk).level
    omega

/-- A location is in at most one leaf. -/
theorem Shape.leaf_unique (h : Shape L ms root) (hp : ms[p]? = some m) (hq : ms[q]? = some k) (hpL : L ≤ m.iLevel)
    (hqL : L ≤ k.iLevel) (hpl : isLocInRC m.rc loc = true) (hql : isLocInRC k.rc loc = true) : p = q := by
  have hlp := h.leaf_level hp hpL
  have hlq := h.leaf_level hq hqL
  exact h.grid.level_unique (n := (max L 0).toNat) hp hq (by omega) (by omega) hpl hql

theorem Shape.level_le (h : Shape L ms root) (hm : ms[p]? = some m) (hk : ms[q]? = some k) (hL : L ≤ m.iLevel) :
    k.iLevel ≤ m.iLevel := by
  have hlm := h.leaf_level hm hL
  by_cases hkL : L ≤ k.iLevel
  · have := h.leaf_level hk hkL
    omega
  · omega

/-- Every node lies inside the root rectangle. -/
theorem Grid.isLocInRC_root (h : Grid ms root) (hm : ms[p]? = some m) (hl : isLocInRC m.rc loc = true) :
    isLocInRC initRootRect loc = true :=
  isLocInRC_root_of_ok (h.node p m hm).ok hl

end Cells

end Lookaround
