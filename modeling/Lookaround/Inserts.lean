import Lookaround.Index
import Lookaround.Readers

/-!
# Workers that only insert

Runs in which no call finds its id in the map: every call inserts a new item. What holds of the shared data then, also in
the middle of a section.

* `Growing` : the tree, some of whose nodes may still lack children;
* `Lists` : the lists of its leaves, and counts that do not hide an item;
* `Later` : what a query has read of the tree and of the lists stays;
* `Descending` : what a section has done so far;
* `FirstTime`, `Inserting` : the runs, and what every step of theirs keeps.
-/

namespace Lookaround

open NlaCoreData Library

variable {conf : Conf} {op : SetItem} {s s' : NlaCoreData} {L : Int} {p q r d e N : Nat} {m k : NlaMapNode} {i : Fin 4}

/-! ## The tree -/

/-- A tree in the making: the children that are there are quadrants, every node but the root is a child, lists are at the
level `L` or below it, and there are no children there. -/
structure Growing (L : Int) (s : NlaCoreData) : Prop where
  top : ∃ m, s.mapNodes[s.pMapRoot]? = some m ∧ m.iLevel = 0
  child : ∀ (p c : Nat) (m : NlaMapNode) (i : Fin 4), s.mapNodes[p]? = some m → m.apChilds i = some c →
    ∃ k, s.mapNodes[c]? = some k ∧ k.iLevel = m.iLevel + 1 ∧ k.pParent = some p ∧ k.rc = childRect m.rc i
  parent : ∀ (c : Nat) (k : NlaMapNode), s.mapNodes[c]? = some k → c ≠ s.pMapRoot →
    ∃ (p : Nat) (m : NlaMapNode) (i : Fin 4), s.mapNodes[p]? = some m ∧ m.apChilds i = some c
  ok : ∀ (p : Nat) (m : NlaMapNode), s.mapNodes[p]? = some m → m.rc.Ok ∧ 0 ≤ m.iLevel
  inner : ∀ (p : Nat) (m : NlaMapNode), s.mapNodes[p]? = some m → m.iLevel < L → m.pDataNode = none
  leaf : ∀ (p : Nat) (m : NlaMapNode), s.mapNodes[p]? = some m → L ≤ m.iLevel → ∀ i, m.apChilds i = none

theorem Shape.growing (h : Shape L s.mapNodes s.pMapRoot) : Growing L s where
  top := by
    obtain ⟨m, hm, -, h0, -⟩ := h.top
    exact ⟨m, hm, h0⟩
  child := fun _ _ _ _ hm hc => h.grid.child hm hc
  parent := by
    intro c k hk hne
    obtain ⟨p, m, i, hm, hc, -⟩ := h.grid.parent hk hne
    exact ⟨p, m, i, hm, hc⟩
  ok := fun p m hm => ⟨(h.node p m hm).ok, (h.node p m hm).level⟩
  inner := fun p m hm => (h.node p m hm).inner
  leaf := fun p m hm => (h.node p m hm).leaf

/-- A write to a node that leaves the tree. -/
theorem Growing.sameTree (h : Growing L s) (ht : SameTree L s.mapNodes s'.mapNodes) (hroot : s'.pMapRoot = s.pMapRoot) :
    Growing L s' where
  top := by
    obtain ⟨m, hm, h0⟩ := h.top
    obtain ⟨m', hm', -, -, -, hlev, -⟩ := ht.fwd _ m hm
    exact ⟨m', by rw [hroot, hm'], by rw [hlev, h0]⟩
  child := by
    intro p c m' i hm' hc
    obtain ⟨m, hm, hrc, hcs, -, hlev, -⟩ := ht.bwd hm'
    obtain ⟨k, hk, h1, h2, h3⟩ := h.child p c m i hm (by rw [← hcs, hc])
    obtain ⟨k', hk', e1, -, e3, e4, -⟩ := ht.fwd c k hk
    exact ⟨k', hk', by rw [e4, h1, hlev], by rw [e3, h2], by rw [e1, h3, hrc]⟩
  parent := by
    intro c k' hk' hne
    rw [hroot] at hne
    obtain ⟨k, hk, -⟩ := ht.bwd hk'
    obtain ⟨p, m, i, hm, hc⟩ := h.parent c k hk hne
    obtain ⟨m', hm', -, hcs, -⟩ := ht.fwd p m hm
    exact ⟨p, m', i, hm', by rw [hcs, hc]⟩
  ok := by
    intro p m' hm'
    obtain ⟨m, hm, hrc, -, -, hlev, -⟩ := ht.bwd hm'
    rw [hrc, hlev]
    exact h.ok p m hm
  inner := by
    intro p m' hm' hlt
    obtain ⟨m, hm, -, -, -, hlev, hhead⟩ := ht.bwd hm'
    rw [hlev] at hlt
    rw [hhead hlt]
    exact h.inner p m hm hlt
  leaf := by
    intro p m' hm' hle i
    obtain ⟨m, hm, -, hcs, -, hlev, -⟩ := ht.bwd hm'
    rw [hlev] at hle
    rw [hcs]
    exact h.leaf p m hm hle i

theorem keeps_withChild (hm : s.mapNodes[p]? = some m) (hi : m.apChilds i = none) :
    Keeps s.mapNodes (s.withChild p m i).mapNodes := by
  intro r k hk
  rw [getElem?_withChild hm]
  by_cases hrp : r = p
  · subst hrp
    obtain rfl := Option.some.inj (hm.symm.trans hk)
    refine ⟨_, if_pos rfl, rfl, rfl, rfl, fun j c hc => ?_⟩
    change Function.update m.apChilds i _ j = some c
    rw [Function.update_of_ne, hc]
    rintro rfl
    rw [hi] at hc
    cases hc
  · have hlt := (List.getElem?_eq_some_iff.mp hk).1
    rw [if_neg hrp, if_neg (by omega)]
    exact ⟨k, hk, rfl, rfl, rfl, fun _ _ hc => hc⟩

/-- A round of `create_child_mapnode`. -/
theorem Growing.withChild (h : Growing L s) (hm : s.mapNodes[p]? = some m) (hL : m.iLevel < L) (hi : m.apChilds i = none) :
    Growing L (s.withChild p m i) := by
  have hp : p < s.mapNodes.length := (List.getElem?_eq_some_iff.mp hm).1
  have hkeeps := keeps_withChild hm hi
  have hnew : (s.withChild p m i).mapNodes[s.mapNodes.length]? = some (newChild p m i) := by
    rw [getElem?_withChild hm, if_neg (by omega), if_pos rfl]
  have hself : (s.withChild p m i).mapNodes[p]? =
      some { m with apChilds := Function.update m.apChilds i (some s.mapNodes.length) } := by
    rw [getElem?_withChild hm, if_pos rfl]
  obtain ⟨hok, hlevel⟩ := h.ok p m hm
  -- a child that was there before is still there
  have hold : ∀ (q c : Nat) (k0 k : NlaMapNode) (j : Fin 4), s.mapNodes[q]? = some k0 → k0.apChilds j = some c →
      k0.iLevel = k.iLevel → k0.rc = k.rc →
      ∃ k', (s.withChild p m i).mapNodes[c]? = some k' ∧ k'.iLevel = k.iLevel + 1 ∧ k'.pParent = some q ∧
        k'.rc = childRect k.rc j := by
    intro q c k0 k j hk hc hlev hrc
    obtain ⟨k1, hk1, h1, h2, h3⟩ := h.child q c k0 j hk hc
    obtain ⟨k', hk', e1, e2, e3, -⟩ := hkeeps c k1 hk1
    exact ⟨k', hk', by rw [e3, h1, hlev], by rw [e2, h2], by rw [e1, h3, hrc]⟩
  refine ⟨?_, fun q c k j hk hc => ?_, fun c k hk hne => ?_, fun q k hk => ?_, fun q k hk hlt => ?_, fun q k hk hle => ?_⟩
  · obtain ⟨m0, hm0, h0⟩ := h.top
    obtain ⟨m', hm', -, -, hlev, -⟩ := hkeeps _ m0 hm0
    exact ⟨m', hm', by rw [hlev, h0]⟩
  · rcases withChild_cases hm hk with ⟨rfl, rfl⟩ | ⟨-, hk⟩ | ⟨-, rfl⟩
    · change Function.update m.apChilds i _ j = some c at hc
      by_cases hji : j = i
      · subst hji
        rw [Function.update_self] at hc
        cases hc
        exact ⟨_, hnew, rfl, rfl, rfl⟩
      · rw [Function.update_of_ne hji] at hc
        exact hold q c m _ j hm hc rfl rfl
    · exact hold q c k k j hk hc rfl rfl
    · cases hc
  · have hchild : ∀ k0, s.mapNodes[c]? = some k0 → ∃ (q : Nat) (k' : NlaMapNode) (j : Fin 4),
        (s.withChild p m i).mapNodes[q]? = some k' ∧ k'.apChilds j = some c := by
      intro k0 hk0
      obtain ⟨q, k1, j, hk1, hc⟩ := h.parent c k0 hk0 hne
      obtain ⟨k', hk', -, -, -, hcs⟩ := hkeeps q k1 hk1
      exact ⟨q, k', j, hk', hcs j c hc⟩
    rcases withChild_cases hm hk with ⟨rfl, -⟩ | ⟨-, hk⟩ | ⟨rfl, -⟩
    · exact hchild m hm
    · exact hchild k hk
    · exact ⟨p, _, i, hself, Function.update_self _ _ _⟩
  · rcases withChild_cases hm hk with ⟨-, rfl⟩ | ⟨-, hk⟩ | ⟨-, rfl⟩
    · exact ⟨hok, hlevel⟩
    · exact h.ok q k hk
    · refine ⟨ok_childRect hok i, ?_⟩
      change 0 ≤ m.iLevel + 1
      omega
  · rcases withChild_cases hm hk with ⟨-, rfl⟩ | ⟨-, hk⟩ | ⟨-, rfl⟩
    · exact h.inner p m hm hlt
    · exact h.inner q k hk hlt
    · rfl
  · rcases withChild_cases hm hk with ⟨-, rfl⟩ | ⟨-, hk⟩ | ⟨-, rfl⟩
    · exact absurd hL (not_lt.mpr hle)
    · exact h.leaf q k hk hle
    · exact fun _ => rfl

/-- A node is the child of one node only. -/
theorem Growing.parent_unique {p' : Nat} {m' : NlaMapNode} {j : Fin 4} {c : Nat} (h : Growing L s)
    (hm : s.mapNodes[p]? = some m) (hc : m.apChilds i = some c) (hm' : s.mapNodes[p']? = some m')
    (hc' : m'.apChilds j = some c) : p' = p := by
  obtain ⟨k, hk, -, hp, -⟩ := h.child p c m i hm hc
  obtain ⟨k', hk', -, hp', -⟩ := h.child p' c m' j hm' hc'
  obtain rfl := Option.some.inj (hk.symm.trans hk')
  exact Option.some.inj (hp'.symm.trans hp)

/-- A child is not the root. -/
theorem Growing.child_ne_root {c : Nat} (h : Growing L s) (hm : s.mapNodes[p]? = some m) (hc : m.apChilds i = some c) :
    c ≠ s.pMapRoot := by
  rintro rfl
  obtain ⟨k, hk, hlev, -⟩ := h.child p _ m i hm hc
  obtain ⟨m0, hm0, h0⟩ := h.top
  obtain rfl := Option.some.inj (hk.symm.trans hm0)
  have := (h.ok p m hm).2
  omega

/-- Every node is beneath the root. The induction is on its level. -/
theorem Growing.under_root (h : Growing L s) (hm : s.mapNodes[p]? = some m) : Under s s.pMapRoot p := by
  obtain ⟨n, hn⟩ : ∃ n : Nat, m.iLevel = n := ⟨m.iLevel.toNat, by have := (h.ok p m hm).2; omega⟩
  induction n generalizing p m with
  | zero =>
      by_cases hp : p = s.pMapRoot
      · rw [hp]
        exact .self
      · obtain ⟨q, k, j, hk, hc⟩ := h.parent p m hm hp
        obtain ⟨m', hm', hlev, -⟩ := h.child q p k j hk hc
        obtain rfl := Option.some.inj (hm.symm.trans hm')
        have := (h.ok q k hk).2
        omega
  | succ n ih =>
      have hp : p ≠ s.pMapRoot := by
        rintro rfl
        obtain ⟨m0, hm0, h0⟩ := h.top
        obtain rfl := Option.some.inj (hm.symm.trans hm0)
        omega
      obtain ⟨q, k, j, hk, hc⟩ := h.parent p m hm hp
      obtain ⟨m', hm', hlev, -⟩ := h.child q p k j hk hc
      obtain rfl := Option.some.inj (hm.symm.trans hm')
      exact .child (ih hk (by omega)) hk hc

/-- The nodes beneath a node have its locations. -/
theorem Growing.rc_under {loc : Nla2dloc} (h : Growing L s) (hu : Under s p q) (hm : s.mapNodes[p]? = some m)
    (hk : s.mapNodes[q]? = some k) (hl : isLocInRC k.rc loc = true) : isLocInRC m.rc loc = true := by
  induction hu generalizing k with
  | self =>
      obtain rfl := Option.some.inj (hm.symm.trans hk)
      exact hl
  | @child q c m' i _ hm' hc ih =>
      obtain ⟨k', hk', -, -, hrc⟩ := h.child q c m' i hm' hc
      obtain rfl := Option.some.inj (hk.symm.trans hk')
      rw [hrc] at hl
      exact ih hm' (isLocInRC_of_childRect (h.ok q m' hm').1 hl)

/-! ## The lists -/

/-- The lists end, an item in one names its node, which has its location unless it is the root, and a node with items
beneath it has a count. -/
structure Lists (s : NlaCoreData) : Prop where
  ends : ∀ q : Nat, ∃ l, Chain s.next (s.head q) l
  cell : ∀ d q : Nat, Reaches s.next d (s.head q) → s.cell d = some q
  item : ∀ d q : Nat, Reaches s.next d (s.head q) → ∃ k data, s.mapNodes[q]? = some k ∧ s.item d = some data ∧
    (q ≠ s.pMapRoot → isLocInRC k.rc data.loc = true)
  pruned : Pruned s

/-- Two records that a query does not tell apart. -/
structure SameTests (data data' : NlaDataItem) : Prop where
  loc : data'.loc = data.loc
  iStatus : data'.iStatus = data.iStatus
  iType : data'.iType = data.iType

theorem SameTests.refl (data : NlaDataItem) : SameTests data data := ⟨rfl, rfl, rfl⟩

theorem SameTests.passes {data data' : NlaDataItem} (h : SameTests data data') (rc : NlaRect) (iStatus iType : Int32) :
    passes rc iStatus iType data' = passes rc iStatus iType data := by
  unfold Lookaround.passes
  rw [h.loc, h.iStatus, h.iType]

/-- What stays of the tree, the lists and the records when items are inserted. -/
structure Later (s s' : NlaCoreData) : Prop where
  root : s'.pMapRoot = s.pMapRoot
  keeps : Keeps s.mapNodes s'.mapNodes
  reach : ∀ d q : Nat, Reaches s.next d (s.head q) → Reaches s'.next d (s'.head q)
  next : ∀ d q : Nat, Reaches s.next d (s.head q) → s'.next d = s.next d
  item : ∀ (d : Nat) (data : NlaDataItem), s.item d = some data → ∃ data', s'.item d = some data' ∧ SameTests data data'

theorem Later.refl (s : NlaCoreData) : Later s s :=
  ⟨rfl, Keeps.refl _, fun _ _ h => h, fun _ _ _ => rfl, fun _ data h => ⟨data, h, SameTests.refl data⟩⟩

/-- A write beside the lists. -/
theorem Later.beside (hroot : s'.pMapRoot = s.pMapRoot) (hkeeps : Keeps s.mapNodes s'.mapNodes) (hhead : s'.head = s.head)
    (hnext : s'.next = s.next)
    (hitem : ∀ (d : Nat) (data : NlaDataItem), s.item d = some data →
      ∃ data', s'.item d = some data' ∧ SameTests data data') :
    Later s s' := by
  refine ⟨hroot, hkeeps, fun d q h => ?_, fun d q _ => ?_, hitem⟩
  · rw [hnext, hhead]
    exact h
  · rw [hnext]

theorem Lists.beside (h : Lists s) (hl : Later s s') (hhead : s'.head = s.head) (hnext : s'.next = s.next)
    (hcell : s'.cell = s.cell) (hp : Pruned s') : Lists s' := by
  refine ⟨?_, ?_, fun d q hr => ?_, hp⟩
  · rw [hhead, hnext]
    exact h.ends
  · rw [hhead, hnext, hcell]
    exact h.cell
  · rw [hhead, hnext] at hr
    obtain ⟨k, data, hk, hdata, hin⟩ := h.item d q hr
    obtain ⟨k', hk', hrc, -⟩ := hl.keeps q k hk
    obtain ⟨data', hdata', hsame⟩ := hl.item d data hdata
    refine ⟨k', data', hk', hdata', fun hne => ?_⟩
    rw [hrc, hsame.loc]
    exact hin (by rw [← hl.root]; exact hne)

theorem countAt_bump_self (hm : s.mapNodes[p]? = some m) (hmax : (s.countAt p).toNat + 1 < 2 ^ 32) :
    (s.bump p).countAt p ≠ 0 := by
  intro h0
  have hnat := congrArg UInt32.toNat h0
  rw [countAt_bump hm, if_pos rfl, UInt32.toNat_add, UInt32.toNat_one, UInt32.toNat_zero, Nat.mod_eq_of_lt hmax] at hnat
  omega

/-- A count goes up, with that of the parent before it. -/
theorem Pruned.bump (h : Pruned s) (hm : s.mapNodes[p]? = some m) (hmax : (s.countAt p).toNat + 1 < 2 ^ 32)
    (habove : ∀ (r : Nat) (k : NlaMapNode) (i : Fin 4), s.mapNodes[r]? = some k → k.apChilds i = some p → s.countAt r ≠ 0) :
    Pruned (s.bump p) := by
  have hp := countAt_bump_self hm hmax
  have hzero : ∀ q : Nat, (s.bump p).countAt q = 0 → q ≠ p ∧ s.countAt q = 0 := by
    intro q hq
    by_cases hqp : q = p
    · rw [hqp] at hq
      exact absurd hq hp
    · rw [countAt_bump hm, if_neg hqp, UInt32.add_zero] at hq
      exact ⟨hqp, hq⟩
  refine ⟨fun q hq => ?_, fun q k i c hk hc hq => ?_⟩
  · rw [head_bump]
    exact h.list q (hzero q hq).2
  · have hq0 := (hzero q hq).2
    obtain ⟨k0, hk0, -, hcs, -⟩ := (sameTree_bump 0 s p).bwd hk
    rw [hcs] at hc
    have hcp : c ≠ p := by
      rintro rfl
      exact habove q k0 i hk0 hc hq0
    rw [countAt_bump hm, if_neg hcp, h.childs q k0 i c hk0 hc hq0, UInt32.add_zero]

theorem countAt_withChild (hm : s.mapNodes[p]? = some m) (q : Nat) : (s.withChild p m i).countAt q = s.countAt q := by
  rw [countAt, getElem?_withChild hm, countAt]
  split_ifs with hqp hq
  · rw [hqp, hm]
    rfl
  · rw [hq, List.getElem?_eq_none_iff.mpr (le_refl _)]
    rfl
  · rfl

theorem head_withChild (hm : s.mapNodes[p]? = some m) : (s.withChild p m i).head = s.head := by
  funext q
  rw [head, getElem?_withChild hm, head]
  split_ifs with hqp hq
  · rw [hqp, hm]
    rfl
  · rw [hq, List.getElem?_eq_none_iff.mpr (le_refl _)]
    rfl
  · rfl

/-- A new child has no count yet. -/
theorem Pruned.withChild (h : Pruned s) (hm : s.mapNodes[p]? = some m) : Pruned (s.withChild p m i) := by
  refine ⟨fun q hq => ?_, fun q k j c hk hc hq => ?_⟩
  · rw [countAt_withChild hm] at hq
    rw [head_withChild hm]
    exact h.list q hq
  · rw [countAt_withChild hm] at hq ⊢
    rcases withChild_cases hm hk with ⟨rfl, rfl⟩ | ⟨-, hk⟩ | ⟨-, rfl⟩
    · change Function.update m.apChilds i _ j = some c at hc
      rw [Function.update_apply] at hc
      split_ifs at hc
      · cases hc
        rw [countAt, List.getElem?_eq_none_iff.mpr (le_refl _)]
        rfl
      · exact h.childs q m j c hm hc hq
    · exact h.childs q k j c hk hc hq
    · cases hc

/-- A list where there is a count. -/
theorem Pruned.link (h : Pruned s) (hm : s.mapNodes[p]? = some m) (hcount : s.countAt p ≠ 0) :
    Pruned (s.link p m.pDataNode d) := by
  refine ⟨fun q hq => ?_, fun q k i c hk hc hq => ?_⟩
  · rw [countAt_link] at hq
    rw [head_link hm, if_neg (by rintro rfl; exact hcount hq)]
    exact h.list q hq
  · rw [countAt_link] at hq ⊢
    rw [mapNodes_link] at hk
    obtain ⟨k0, hk0, heq⟩ := modifyMap_cases hk fun _ => rfl
    rw [heq] at hc
    exact h.childs q k0 i c hk0 hc hq

/-! ## A new head -/

/-- A node without a cell is in no list. -/
theorem Lists.not_reaches (h : Lists s) (hfree : s.cell d = none) (r : Nat) : ¬ Reaches s.next d (s.head r) := by
  intro hr
  have hcell := h.cell d r hr
  rw [hfree] at hcell
  cases hcell

section Link

variable (h : Lists s) (hm : s.mapNodes[p]? = some m) (hd : d < s.dataNodes.length) (hfree : s.cell d = none)

include h hm hd hfree

/-- Who is in which list. -/
theorem Lists.reaches_link (e r : Nat) : Reaches (s.link p m.pDataNode d).next e ((s.link p m.pDataNode d).head r) ↔
    Reaches s.next e (s.head r) ∨ r = p ∧ e = d := by
  obtain ⟨hnext, -, -⟩ := views_link (p := p) m.pDataNode hd
  obtain ⟨l, hl⟩ := h.ends r
  have hdl : d ∉ l := fun hmem => h.not_reaches hfree r (hl.mem_iff_reaches.mp hmem)
  rw [head_link hm, hnext]
  by_cases hpr : p = r
  · subst hpr
    rw [head_eq hm] at hl
    rw [if_pos rfl, hl.reaches_push hdl, head_eq hm]
    constructor
    · rintro (rfl | hr)
      · exact Or.inr ⟨rfl, rfl⟩
      · exact Or.inl hr
    · rintro (hr | ⟨-, rfl⟩)
      · exact Or.inr hr
      · exact Or.inl rfl
  · rw [if_neg hpr, ← (hl.update hdl).mem_iff_reaches, hl.mem_iff_reaches]
    exact ⟨Or.inl, fun hor => hor.resolve_right fun hc => hpr hc.1.symm⟩

theorem Lists.later_link : Later s (s.link p m.pDataNode d) where
  root := by cases m.pDataNode <;> rfl
  keeps := (sameTree_link m.iLevel hm (le_refl _) m.pDataNode d).keeps
  reach := fun e r hr => (h.reaches_link hm hd hfree e r).mpr (Or.inl hr)
  next := by
    intro e r hr
    rw [(views_link (p := p) m.pDataNode hd).1, Function.update_of_ne]
    rintro rfl
    exact h.not_reaches hfree r hr
  item := by
    intro e data he
    rw [(views_link (p := p) m.pDataNode hd).2.2]
    exact ⟨data, he, SameTests.refl data⟩

theorem Lists.link {data : NlaDataItem} (hdata : s.item d = some data)
    (hin : p ≠ s.pMapRoot → isLocInRC m.rc data.loc = true) (hcount : s.countAt p ≠ 0) :
    Lists (s.link p m.pDataNode d) := by
  obtain ⟨hnext, hcell, hitem⟩ := views_link (p := p) m.pDataNode hd
  have hl := h.later_link hm hd hfree
  refine ⟨fun r => ?_, fun e r hr => ?_, fun e r hr => ?_, h.pruned.link hm hcount⟩
  · obtain ⟨l, hl⟩ := h.ends r
    obtain ⟨l0, hl0⟩ := h.ends p
    have hdl : ∀ r l, Chain s.next (s.head r) l → d ∉ l := fun r l hl hmem =>
      h.not_reaches hfree r (hl.mem_iff_reaches.mp hmem)
    rw [head_link hm, hnext]
    split_ifs with hpr
    · rw [head_eq hm] at hl0
      exact ⟨d :: l0, hl0.push (hdl p l0 (by rw [head_eq hm]; exact hl0))⟩
    · exact ⟨l, hl.update (hdl r l hl)⟩
  · rw [hcell]
    rcases (h.reaches_link hm hd hfree e r).mp hr with hold | ⟨rfl, rfl⟩
    · rw [Function.update_of_ne]
      · exact h.cell e r hold
      · rintro rfl
        exact h.not_reaches hfree r hold
    · rw [Function.update_self]
  · rw [hitem, hl.root]
    rcases (h.reaches_link hm hd hfree e r).mp hr with hold | ⟨rfl, rfl⟩
    · obtain ⟨k, data', hk, hdata', hin'⟩ := h.item e r hold
      obtain ⟨k', hk', hrc, -⟩ := hl.keeps r k hk
      exact ⟨k', data', hk', hdata', by rw [hrc]; exact hin'⟩
    · obtain ⟨k', hk', hrc, -⟩ := hl.keeps r m hm
      exact ⟨k', data, hk', hdata, by rw [hrc]; exact hin⟩

end Link

/-! ## A section -/

/-- The counts are at most `N`, but for one more above the level `lev`. -/
structure Counted (N : Nat) (lev : Int) (s : NlaCoreData) : Prop where
  all : ∀ q : Nat, (s.countAt q).toNat ≤ N + 1
  below : ∀ (q : Nat) (k : NlaMapNode), s.mapNodes[q]? = some k → lev ≤ k.iLevel → (s.countAt q).toNat ≤ N

variable {lev : Int}

theorem Counted.same (h : Counted N lev s) (hcount : ∀ q : Nat, s'.countAt q = s.countAt q)
    (hlevel : ∀ (q : Nat) (k' : NlaMapNode), s'.mapNodes[q]? = some k' →
      s.countAt q = 0 ∨ ∃ k, s.mapNodes[q]? = some k ∧ k'.iLevel = k.iLevel) : Counted N lev s' := by
  refine ⟨fun q => ?_, fun q k' hk' hle => ?_⟩
  · rw [hcount]
    exact h.all q
  · rw [hcount]
    rcases hlevel q k' hk' with h0 | ⟨k, hk, heq⟩
    · rw [h0]
      exact Nat.zero_le N
    · rw [heq] at hle
      exact h.below q k hk hle

/-- The node of a visit is one of those with at most `N`. -/
theorem Counted.bump (h : Counted N m.iLevel s) (hm : s.mapNodes[p]? = some m) : Counted N (m.iLevel + 1) (s.bump p) := by
  refine ⟨fun q => ?_, fun q k hk hle => ?_⟩
  · rw [countAt_bump hm]
    by_cases hqp : q = p
    · have := h.below p m hm (le_refl _)
      rw [if_pos hqp, hqp, UInt32.toNat_add, UInt32.toNat_one]
      exact (Nat.mod_le _ _).trans (Nat.succ_le_succ this)
    · rw [if_neg hqp, UInt32.add_zero]
      exact h.all q
  · obtain ⟨k0, hk0, -, -, -, hlev, -⟩ := (sameTree_bump 0 s p).bwd hk
    rw [hlev] at hle
    have hqp : q ≠ p := by
      rintro rfl
      obtain rfl := Option.some.inj (hm.symm.trans hk0)
      omega
    rw [countAt_bump hm, if_neg hqp, UInt32.add_zero]
    exact h.below q k0 hk0 (by omega)

/-- The section for `d` has come to the node `p`, which is `m`, and has counted itself there. -/
structure Entered (N : Nat) (s : NlaCoreData) (d : DataPtr) (p : MapPtr) (m : NlaMapNode) : Prop where
  node : s.mapNodes[p]? = some m
  item : ∃ data, s.item d = some data ∧ (p ≠ s.pMapRoot → isLocInRC m.rc data.loc = true)
  counted : Counted N (m.iLevel + 1) s
  count : s.countAt p ≠ 0

/-- What the section for `d` has done when `N` sections were done before it; lists are at the level `L`. -/
def Descending (L : Int) (N : Nat) (s : NlaCoreData) (d : DataPtr) : Option Stage → Prop
  | none => ∀ q : Nat, (s.countAt q).toNat ≤ N + 1
  | some .put => Counted N 0 s ∧ ∃ data, s.item d = some data
  | some .remove => False
  | some .setLoc => False
  | some (.visit p) => ∃ m data, s.mapNodes[p]? = some m ∧ s.item d = some data ∧
      (p ≠ s.pMapRoot → isLocInRC m.rc data.loc = true) ∧ Counted N m.iLevel s ∧
      ∀ (r : Nat) (k : NlaMapNode) (i : Fin 4), s.mapNodes[r]? = some k → k.apChilds i = some p → s.countAt r ≠ 0
  | some (.grow p _) => ∃ m, Entered N s d p m ∧ m.iLevel < L
  | some (.choose p) => ∃ m, Entered N s d p m ∧ m.iLevel < L
  | some (.link p) => ∃ m, Entered N s d p m ∧ L ≤ m.iLevel

/-- What a step of a section leaves behind. -/
structure Advanced (L : Int) (N : Nat) (s : NlaCoreData) (d : DataPtr) (s' : NlaCoreData) (o : Option Stage) : Prop where
  growing : Growing L s'
  lists : Lists s'
  later : Later s s'
  descending : Descending L N s' d o
  free : ∀ c, o = some c → s'.cell d = none

variable {c : Stage} {o : Option Stage}

/-- A visit. -/
theorem Descending.visit (h : Descending conf.nMapMaxLevel N s d (some (.visit p))) (hg : Growing conf.nMapMaxLevel s)
    (hl : Lists s) (hfree : s.cell d = none) (hN : N + 1 < 2 ^ 32) (hm : s.mapNodes[p]? = some m) :
    Advanced conf.nMapMaxLevel N s d (s.bump p) (some (afterVisit conf p m)) := by
  obtain ⟨m', data, hm', hdata, hin, hcount, habove⟩ := h
  obtain rfl := Option.some.inj (hm.symm.trans hm')
  have hmax : (s.countAt p).toNat + 1 < 2 ^ 32 := by
    have := hcount.below p m hm (le_refl _)
    omega
  have htree := sameTree_bump conf.nMapMaxLevel s p
  have hhead : (s.bump p).head = s.head := funext fun q => s.head_bump p q
  have hlater : Later s (s.bump p) :=
    .beside rfl htree.keeps hhead rfl fun _ data hd => ⟨data, hd, SameTests.refl data⟩
  have hent : Entered N (s.bump p) d p { m with iItemCount := m.iItemCount + 1 } :=
    ⟨bump_self hm, ⟨data, hdata, hin⟩, hcount.bump hm, countAt_bump_self hm hmax⟩
  refine ⟨hg.sameTree htree rfl, hl.beside hlater hhead rfl rfl (hl.pruned.bump hm hmax habove), hlater, ?_,
    fun _ _ => hfree⟩
  unfold afterVisit
  split_ifs with hL h0
  · exact ⟨_, hent, hL⟩
  · exact ⟨_, hent, not_le.mp hL⟩
  · exact ⟨_, hent, not_le.mp hL⟩

/-- A round of `create_child_mapnode`. -/
theorem Entered.withChild (h : Entered N s d p m) (hm : s.mapNodes[p]? = some m) :
    Entered N (s.withChild p m i) d p { m with apChilds := Function.update m.apChilds i (some s.mapNodes.length) } := by
  refine ⟨?_, h.item, h.counted.same (fun q => countAt_withChild hm q) fun q k' hk' => ?_, ?_⟩
  · rw [getElem?_withChild hm, if_pos rfl]
  · rcases withChild_cases hm hk' with ⟨rfl, rfl⟩ | ⟨-, hk⟩ | ⟨rfl, -⟩
    · exact Or.inr ⟨m, hm, rfl⟩
    · exact Or.inr ⟨k', hk, rfl⟩
    · left
      rw [countAt, List.getElem?_eq_none_iff.mpr (le_refl _)]
      rfl
  · rw [countAt_withChild hm]
    exact h.count

/-- The child the location is in. -/
theorem Entered.down {n : NlaDataNode} {child : Nat} (h : Entered N s d p m) (hg : Growing L s)
    (hn : s.dataNodes[d]? = some n) (hi : getChildRcIdx m.rc n.data.loc = some i) (hc : m.apChilds i = some child) :
    Descending L N s d (some (.visit child)) := by
  obtain ⟨k, hk, hlev, -, hrc⟩ := hg.child p child m i h.node hc
  refine ⟨k, n.data, hk, item_of_getElem? hn, fun _ => ?_, ?_, fun r k' j hk' hc' => ?_⟩
  · rw [hrc, isLocInRC_childRect_iff (hg.ok p m h.node).1, hi]
  · rw [hlev]
    exact h.counted
  · rw [hg.parent_unique h.node hc hk' hc']
    exact h.count

/-- **A step of a section that inserts.** -/
theorem MicroStep.inserts (hs : MicroStep conf op d s c s' o) (hg : Growing conf.nMapMaxLevel s) (hl : Lists s)
    (hpart : Partial (some c) s.mapNodes) (hdesc : Descending conf.nMapMaxLevel N s d (some c))
    (hfree : s.cell d = none) (hN : N + 1 < 2 ^ 32) : Advanced conf.nMapMaxLevel N s d s' o := by
  cases hs with
  | put =>
      obtain ⟨hcount, data, hdata⟩ := hdesc
      obtain ⟨m, hm, h0⟩ := hg.top
      refine ⟨⟨hg.top, hg.child, hg.parent, hg.ok, hg.inner, hg.leaf⟩,
        ⟨hl.ends, hl.cell, hl.item, hl.pruned.list, hl.pruned.childs⟩,
        .beside rfl (Keeps.refl _) rfl rfl fun _ data hd => ⟨data, hd, SameTests.refl data⟩, ?_, fun _ _ => hfree⟩
      refine ⟨m, data, hm, hdata, fun hne => absurd rfl hne, ⟨hcount.all, ?_⟩, fun r k i hk hc => ?_⟩
      · rw [h0]
        exact hcount.below
      · exact absurd rfl (hg.child_ne_root hk hc)
  | remove => exact absurd hdesc id
  | setLoc _ => exact absurd hdesc id
  | visit hm => exact hdesc.visit hg hl hfree hN hm
  | grown => exact ⟨hg, hl, Later.refl s, hdesc, fun _ _ => hfree⟩
  | @grow p m i childs hm =>
      obtain ⟨m', hent, hL⟩ := hdesc
      obtain rfl := Option.some.inj (hm.symm.trans hent.node)
      have hi : m.apChilds i = none := ((hpart.left p (i :: childs) rfl).2 m i hm).mp List.mem_cons_self
      have hhead : (s.withChild p m i).head = s.head := head_withChild hm
      have hlater : Later s (s.withChild p m i) :=
        .beside rfl (keeps_withChild hm hi) hhead rfl fun _ data hd => ⟨data, hd, SameTests.refl data⟩
      exact ⟨hg.withChild hm hL hi, hl.beside hlater hhead rfl rfl (hl.pruned.withChild hm), hlater,
        ⟨_, hent.withChild hm, hL⟩, fun _ _ => hfree⟩
  | out _ _ _ =>
      obtain ⟨m', hent, -⟩ := hdesc
      exact ⟨hg, hl, Later.refl s, hent.counted.all, fun _ hc => by cases hc⟩
  | down hm hn hi hc =>
      obtain ⟨m', hent, -⟩ := hdesc
      obtain rfl := Option.some.inj (hm.symm.trans hent.node)
      exact ⟨hg, hl, Later.refl s, hent.down hg hn hi hc, fun _ _ => hfree⟩
  | @link p m hm hd hh =>
      obtain ⟨m', hent, hL⟩ := hdesc
      obtain rfl := Option.some.inj (hm.symm.trans hent.node)
      obtain ⟨data, hdata, hin⟩ := hent.item
      have hlater := hl.later_link hm hd hfree
      refine ⟨hg.sameTree (sameTree_link _ hm hL _ d) hlater.root, hl.link hm hd hfree hdata hin hent.count, hlater,
        fun q => ?_, fun _ hc => by cases hc⟩
      rw [countAt_link]
      exact hent.counted.all q

/-- A step writes the cell of no other node. -/
theorem MicroStep.cell_of_ne (hs : MicroStep conf op d s c s' o) (he : e ≠ d) : s'.cell e = s.cell e := by
  by_cases hc : c = .put
  · subst hc
    cases hs
    rfl
  · exact (hs.kept hc).1.cell e he

/-! ## Writes outside the lock -/

/-- The write is not to a location. -/
def Touch.Quiet (u : Touch) : Prop := ∀ e l, u ≠ .loc e l

variable {u : Touch}

theorem Touch.Quiet.item (hu : u.Quiet) {data : NlaDataItem} (hd : s.item d = some data) :
    ∃ data', (u.apply s).item d = some data' ∧ SameTests data data' := by
  cases u with
  | nothing => exact ⟨data, hd, SameTests.refl data⟩
  | alloc op =>
      refine ⟨data, ?_, SameTests.refl data⟩
      rw [show (Touch.apply (.alloc op) s).item = _ from (views_withItem s op).2.2, Function.update_of_ne, hd]
      exact (lt_of_item hd).ne
  | loc e l => exact absurd rfl (hu e l)
  | time e now =>
      by_cases hed : d = e
      · subst hed
        refine ⟨{ data with lastUpdateTime := now }, ?_, ⟨rfl, rfl, rfl⟩⟩
        rw [show (Touch.apply (.time d now) s).item = _ from (views_setTime hd now).2.2, Function.update_self]
      · refine ⟨data, ?_, SameTests.refl data⟩
        change ((s.modifyData e _).dataNodes[d]?).map NlaDataNode.data = _
        rw [dataNodes_modifyData, if_neg (Ne.symm hed)]
        exact hd

theorem Touch.head_apply (u : Touch) (s : NlaCoreData) : (u.apply s).head = s.head := by
  cases u <;> rfl

theorem Touch.countAt_apply (u : Touch) (s : NlaCoreData) : (u.apply s).countAt = s.countAt := by
  cases u <;> rfl

theorem Growing.apply (h : Growing L s) (u : Touch) : Growing L (u.apply s) := by
  refine ⟨?_, ?_, ?_, ?_, ?_, ?_⟩ <;> simp only [u.mapNodes_apply, u.pMapRoot_apply]
  · exact h.top
  · exact h.child
  · exact h.parent
  · exact h.ok
  · exact h.inner
  · exact h.leaf

theorem Pruned.apply (h : Pruned s) (u : Touch) : Pruned (u.apply s) := by
  refine ⟨?_, ?_⟩ <;> simp only [u.mapNodes_apply, u.head_apply, u.countAt_apply]
  · exact h.list
  · exact h.childs

theorem Later.apply (hu : u.Quiet) : Later s (u.apply s) := by
  refine .beside (u.pMapRoot_apply s) ?_ (u.head_apply s) (u.next_apply s) fun d data hd => hu.item hd
  rw [u.mapNodes_apply]
  exact Keeps.refl _

theorem Lists.apply (h : Lists s) (hu : u.Quiet) : Lists (u.apply s) :=
  h.beside (Later.apply hu) (u.head_apply s) (u.next_apply s) (u.cell_apply s) (h.pruned.apply u)

theorem Counted.apply (h : Counted N lev s) (u : Touch) : Counted N lev (u.apply s) := by
  refine h.same (fun q => by rw [u.countAt_apply]) fun q k hk => Or.inr ⟨k, ?_, rfl⟩
  rw [← u.mapNodes_apply s, hk]

theorem Entered.apply (h : Entered N s d p m) (hu : u.Quiet) : Entered N (u.apply s) d p m := by
  obtain ⟨data, hdata, hin⟩ := h.item
  obtain ⟨data', hdata', hsame⟩ := hu.item hdata
  refine ⟨?_, ⟨data', hdata', fun hne => ?_⟩, h.counted.apply u, ?_⟩
  · rw [u.mapNodes_apply, h.node]
  · rw [hsame.loc]
    exact hin (by rw [← u.pMapRoot_apply s]; exact hne)
  · rw [u.countAt_apply]
    exact h.count

/-- A section does not notice a write of another worker. -/
theorem Descending.apply (h : Descending L N s d o) (hu : u.Quiet) : Descending L N (u.apply s) d o := by
  cases o with
  | none =>
      intro q
      rw [u.countAt_apply]
      exact h q
  | some c =>
      cases c with
      | put =>
          obtain ⟨hcount, data, hdata⟩ := h
          obtain ⟨data', hdata', -⟩ := hu.item hdata
          exact ⟨hcount.apply u, data', hdata'⟩
      | remove => exact h
      | setLoc => exact h
      | visit p =>
          obtain ⟨m, data, hm, hdata, hin, hcount, habove⟩ := h
          obtain ⟨data', hdata', hsame⟩ := hu.item hdata
          refine ⟨m, data', by rw [u.mapNodes_apply, hm], hdata', fun hne => ?_, hcount.apply u, ?_⟩
          · rw [hsame.loc]
            exact hin (by rw [← u.pMapRoot_apply s]; exact hne)
          · rw [u.mapNodes_apply, u.countAt_apply]
            exact habove
      | grow p l =>
          obtain ⟨m, hent, hL⟩ := h
          exact ⟨m, hent.apply hu, hL⟩
      | choose p =>
          obtain ⟨m, hent, hL⟩ := h
          exact ⟨m, hent.apply hu, hL⟩
      | link p =>
          obtain ⟨m, hent, hL⟩ := h
          exact ⟨m, hent.apply hu, hL⟩

end Lookaround
