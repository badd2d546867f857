import Lookaround.Calls

/-!
# Allocations that fail

Every block of a call comes out of the pool, and the pool may be empty: `Allocs` says which blocks of the call it has.

* `adddatanode_succeed` : a call that returns did what it does with a full pool;
* `ChildsGranted` : the pool has the child map nodes that a descent needs, and `adddatanode_alloc`, that the descent
  returns exactly then;
* `Coherent s op s'` : what a call may leave behind;
* `runServed_memory_iff` : in every run whose new ids got into the id map, the next call leaves something coherent
  exactly when it gets the blocks it needs.
-/

namespace Lookaround

open NlaCoreData

variable {conf : Conf} {alloc : Allocs} {s s' : NlaCoreData} {loc : Nla2dloc} {p q d e root : Nat} {m k : NlaMapNode}
  {op : SetItem} {c : Call}

/-! ## Child map nodes -/

section Childs

/-- The loop of `create_child_mapnode` returns exactly when it gets its blocks. -/
theorem foldlM_createChild (alloc : Allocs) (p : Nat) (m : NlaMapNode) (is : List (Fin 4)) (s : NlaCoreData) :
    ((∀ i ∈ is, alloc.child m.iLevel i = true) →
      is.foldlM (createChild alloc p m) s = is.foldlM (createChild .succeed p m) s) ∧
    ((¬ ∀ i ∈ is, alloc.child m.iLevel i = true) → is.foldlM (createChild alloc p m) s = .error .nullDeref) := by
  induction is generalizing s with
  | nil => exact ⟨fun _ => rfl, fun h => absurd (fun i hi => absurd hi List.not_mem_nil) h⟩
  | cons i is ih =>
      rw [List.foldlM_cons, List.foldlM_cons]
      cases hi : alloc.child m.iLevel i with
      | true =>
          have hstep : createChild alloc p m s i = createChild .succeed p m s i := by
            simp only [createChild, hi, Allocs.succeed]
          obtain ⟨s1, hs1⟩ : ∃ s1, createChild .succeed p m s i = .ok s1 := ⟨_, if_pos rfl⟩
          rw [hstep, hs1]
          obtain ⟨h1, h2⟩ := ih s1
          refine ⟨fun h => h1 fun j hj => h j (List.mem_cons_of_mem i hj), fun h => h2 fun hall => h fun j hj => ?_⟩
          rcases List.mem_cons.mp hj with rfl | hj
          · exact hi
          · exact hall j hj
      | false =>
          refine ⟨fun h => ?_, fun _ => ?_⟩
          · rw [h i List.mem_cons_self] at hi
            cases hi
          · have hstep : createChild alloc p m s i = .error .nullDeref := by
              simp only [createChild, hi, Bool.false_eq_true, if_false]
            rw [hstep]
            rfl

theorem createChildMapnode_eq (hm : s.mapNodes[p]? = some m) (h0 : m.apChilds 0 = none) (alloc : Allocs) :
    s.createChildMapnode alloc p = [0, 1, 2, 3].foldlM (createChild alloc p m) s := by
  rw [createChildMapnode, mapAt_ok hm]
  simp only [bind, Except.bind, h0, ne_eq, not_true_eq_false, if_false]

theorem ensureChilds_alloc (hm : s.mapNodes[p]? = some m) (alloc : Allocs) :
    ((m.apChilds 0 = none → ∀ i, alloc.child m.iLevel i = true) →
      (s.bump p).ensureChilds alloc p m = .ok (s.opened p m)) ∧
    (¬ (m.apChilds 0 = none → ∀ i, alloc.child m.iLevel i = true) →
      (s.bump p).ensureChilds alloc p m = .error .nullDeref) := by
  have hbump := bump_self hm
  unfold ensureChilds opened grow
  split_ifs with h0
  · have hall : (∀ i, alloc.child m.iLevel i = true) ↔ ∀ i ∈ [0, 1, 2, 3], alloc.child m.iLevel i = true :=
      ⟨fun h i _ => h i, fun h i => h i (by fin_cases i <;> simp)⟩
    have hfold := foldlM_createChild alloc p { m with iItemCount := m.iItemCount + 1 } [0, 1, 2, 3] (s.bump p)
    rw [← createChildMapnode_eq hbump h0, ← createChildMapnode_eq hbump h0, createChildMapnode_ok hbump h0] at hfold
    exact ⟨fun h => hfold.1 (hall.mp (h h0)), fun h => hfold.2 fun h' => h fun _ => hall.mpr h'⟩
  · exact ⟨fun _ => rfl, fun h => absurd (fun h' => absurd h' h0) h⟩

end Childs

/-- The pool has the child map nodes for a descent to `loc` from the level `lev`: for the node the tree ends in, the
children of every level down to the leaves. -/
def ChildsGranted (conf : Conf) (alloc : Allocs) (loc : Nla2dloc) (lev : Int) (s : NlaCoreData) : Prop :=
  ∀ (p : Nat) (m : NlaMapNode), s.mapNodes[p]? = some m → lev ≤ m.iLevel → m.iLevel < conf.nMapMaxLevel →
    isLocInRC m.rc loc = true → m.apChilds 0 = none →
      ∀ (l : Int) (i : Fin 4), m.iLevel ≤ l → l < conf.nMapMaxLevel → alloc.child l i = true

/-- A node other than `p` stays when `p` is opened. -/
theorem opened_old (hqp : q ≠ p) (hk : s.mapNodes[q]? = some k) (m : NlaMapNode) :
    (s.opened p m).mapNodes[q]? = some k := by
  have hb : (s.bump p).mapNodes[q]? = some k := by rw [bump, mapNodes_modifyMap, if_neg (Ne.symm hqp), hk]
  unfold opened grow
  split_ifs
  · rw [expand_old (List.getElem?_eq_some_iff.mp hb).1 hqp, hb]
  · exact hb

/-- A node after `p` was opened: `p` itself, an old node, or a new child of `p`, which has no children. -/
theorem opened_cases (hm : s.mapNodes[p]? = some m) (hk : (s.opened p m).mapNodes[q]? = some k) :
    (q = p ∧ k.iLevel = m.iLevel) ∨ (q ≠ p ∧ s.mapNodes[q]? = some k) ∨
      (m.apChilds 0 = none ∧ k.iLevel = m.iLevel + 1) := by
  have hold : ∀ {k : NlaMapNode}, q ≠ p → (s.bump p).mapNodes[q]? = some k → s.mapNodes[q]? = some k := by
    intro k hqp hb
    rw [bump, mapNodes_modifyMap, if_neg (Ne.symm hqp)] at hb
    exact hb
  unfold opened grow at hk
  split_ifs at hk with h0
  · rcases expand_cases (bump_self hm) hk with ⟨rfl, rfl⟩ | ⟨hqp, hb⟩ | ⟨i, -, rfl⟩
    · exact Or.inl ⟨rfl, rfl⟩
    · exact Or.inr (Or.inl ⟨hqp, hold hqp hb⟩)
    · exact Or.inr (Or.inr ⟨h0, rfl⟩)
  · by_cases hqp : q = p
    · subst hqp
      rw [bump_self hm] at hk
      cases hk
      exact Or.inl ⟨rfl, rfl⟩
    · exact Or.inr (Or.inl ⟨hqp, hold hqp hk⟩)

/-- The quadrant of a node that had no children has none. -/
theorem opened_bare (hm : s.mapNodes[p]? = some m) (h0 : m.apChilds 0 = none) {m' : NlaMapNode}
    {i : Fin 4} {c : Nat} (hm' : (s.opened p m).mapNodes[p]? = some m') (hc : m'.apChilds i = some c)
    (hk : (s.opened p m).mapNodes[c]? = some k) : k.apChilds 0 = none := by
  unfold opened grow at hm' hk
  rw [if_pos h0] at hm' hk
  rw [expand_self (bump_self hm)] at hm'
  cases hm'
  cases hc
  rw [expand_new] at hk
  cases hk
  rfl

/-- What a descent needs at a node, and what it needs below. -/
theorem childsGranted_opened (h : Grid s.mapNodes root) (hm : s.mapNodes[p]? = some m)
    (hL : m.iLevel < conf.nMapMaxLevel) (hin : isLocInRC m.rc loc = true) :
    ChildsGranted conf alloc loc m.iLevel s ↔ (m.apChilds 0 = none → ∀ i, alloc.child m.iLevel i = true) ∧
      ChildsGranted conf alloc loc (m.iLevel + 1) (s.opened p m) := by
  constructor
  · intro hg
    refine ⟨fun h0 i => hg p m hm (le_refl _) hL hin h0 _ i (le_refl _) hL, fun q k hk hlev hkL hkin hk0 l i hl hlL => ?_⟩
    rcases opened_cases hm hk with ⟨-, heq⟩ | ⟨-, hk'⟩ | ⟨h0, -⟩
    · omega
    · exact hg q k hk' (by omega) hkL hkin hk0 l i hl hlL
    · exact hg p m hm (le_refl _) hL hin h0 l i (by omega) hlL
  · rintro ⟨hself, hbelow⟩ q k hk hlev hkL hkin hk0 l i hl hlL
    by_cases hqp : q = p
    · subst hqp
      obtain rfl := Option.some.inj (hm.symm.trans hk)
      by_cases heq : l = m.iLevel
      · rw [heq]
        exact hself hk0 i
      · -- the quadrant of the location is new, and the descent goes on from it
        obtain ⟨j, hj⟩ := exists_getChildRcIdx hin
        obtain ⟨m', c, kc, hm', -, hc, hkc, hlevc, -, hrc⟩ := h.opened_child hm j
        have hcin : isLocInRC kc.rc loc = true := by
          rw [hrc, isLocInRC_childRect_iff (h.node q m hm).ok]
          exact hj
        exact hbelow c kc hkc (by omega) (by omega) hcin (opened_bare hm hk0 hm' hc hkc) l i (by omega) hlL
    · have hne : k.iLevel ≠ m.iLevel := by
        intro heq
        have h0 := (h.node p m hm).level
        exact hqp (h.level_unique (n := m.iLevel.toNat) hk hm (by omega) (by omega) hkin hin)
      exact hbelow q k (opened_old hqp hk m) (by omega) hkL hkin hk0 l i hl hlL

/-- A descent at a node above the leaves goes on from the quadrant of the location, once the node has its children. -/
theorem adddatanode_down {n : NlaDataNode} (h : Grid s.mapNodes root) (hm : s.mapNodes[p]? = some m)
    (hd : s.dataNodes[d]? = some n) (hL : m.iLevel < conf.nMapMaxLevel) (hin : isLocInRC m.rc n.data.loc = true) :
    ∃ (c : Nat) (k : NlaMapNode), (s.opened p m).mapNodes[c]? = some k ∧ k.iLevel = m.iLevel + 1 ∧
      isLocInRC k.rc n.data.loc = true ∧ ∀ (alloc : Allocs) (fuel : Nat),
        (s.bump p).ensureChilds alloc p m = .ok (s.opened p m) →
          s.adddatanode conf alloc (fuel + 1) p d = (s.opened p m).adddatanode conf alloc fuel c d := by
  obtain ⟨i, hi⟩ := exists_getChildRcIdx hin
  obtain ⟨m', c, k, hm', hrc', hc, hk, hlev, -, hrc⟩ := h.opened_child hm i
  refine ⟨c, k, hk, hlev, ?_, fun alloc fuel hens => ?_⟩
  · rw [hrc, isLocInRC_childRect_iff (h.node p m hm).ok]
    exact hi
  · rw [adddatanode_above hm hL hd hens hm' hrc', hi]
    simp only [hc]

/-- **A descent returns exactly when the pool has its child map nodes.** -/
theorem adddatanode_alloc {n : NlaDataNode} {fuel : Nat} (h : Grid s.mapNodes root) (hm : s.mapNodes[p]? = some m)
    (hd : s.dataNodes[d]? = some n) (hin : isLocInRC m.rc n.data.loc = true)
    (hfuel : (conf.nMapMaxLevel - m.iLevel).toNat < fuel) :
    (ChildsGranted conf alloc n.data.loc m.iLevel s →
      s.adddatanode conf alloc fuel p d = s.adddatanode conf .succeed fuel p d) ∧
    (¬ ChildsGranted conf alloc n.data.loc m.iLevel s → s.adddatanode conf alloc fuel p d = .error .nullDeref) := by
  induction fuel generalizing s p m with
  | zero => exact absurd hfuel (Nat.not_lt_zero _)
  | succ fuel ih =>
      by_cases hL : conf.nMapMaxLevel ≤ m.iLevel
      · refine ⟨fun _ => ?_, fun hng => absurd ?_ hng⟩
        · rw [adddatanode, adddatanode, mapAt_ok hm]
          simp only [bind, Except.bind, ge_iff_le, hL, if_true]
        · intro q k _ hlev hkL
          omega
      have hlt : m.iLevel < conf.nMapMaxLevel := not_le.mp hL
      obtain ⟨c, k, hk, hlev, hkin, hdown⟩ := adddatanode_down h hm hd hlt hin
      obtain ⟨hens, herr⟩ := ensureChilds_alloc hm alloc
      have hd' : (s.opened p m).dataNodes[d]? = some n := by rw [dataNodes_opened]; exact hd
      obtain ⟨ih1, ih2⟩ := ih (h.opened hm) hk hd' hkin (by omega)
      rw [hlev] at ih1 ih2
      rw [childsGranted_opened h hm hlt hin]
      by_cases hself : m.apChilds 0 = none → ∀ i, alloc.child m.iLevel i = true
      · rw [hdown alloc fuel (hens hself), hdown .succeed fuel (ensureChilds_succeed hm)]
        exact ⟨fun hg => ih1 hg.2, fun hng => ih2 fun hg => hng ⟨hself, hg⟩⟩
      · refine ⟨fun hg => absurd hg.1 hself, fun _ => ?_⟩
        rw [adddatanode, mapAt_ok hm]
        change (if m.iLevel ≥ conf.nMapMaxLevel then _ else (s.bump p).ensureChilds alloc p m >>= _) = _
        rw [if_neg hL, herr hself]
        rfl

/-- The same from the root, with the fuel of `setdataloc`. -/
theorem adddatanode_root {n : NlaDataNode} (h : Grid s.mapNodes s.pMapRoot) (hd : s.dataNodes[d]? = some n)
    (hin : isLocInRC initRootRect n.data.loc = true) (conf : Conf) (alloc : Allocs) :
    (ChildsGranted conf alloc n.data.loc 0 s → s.adddatanode conf alloc (conf.nMapMaxLevel.toNat + 1) s.pMapRoot d =
      s.adddatanode conf .succeed (conf.nMapMaxLevel.toNat + 1) s.pMapRoot d) ∧
    (¬ ChildsGranted conf alloc n.data.loc 0 s →
      s.adddatanode conf alloc (conf.nMapMaxLevel.toNat + 1) s.pMapRoot d = .error .nullDeref) := by
  obtain ⟨m, hm, hrc, hlev, -⟩ := h.top
  rw [← hlev]
  exact adddatanode_alloc h hm hd (by rw [hrc]; exact hin) (by omega)

/-- A descent that returns did what it does with a full pool. -/
theorem adddatanode_succeed {fuel : Nat} (h : s.adddatanode conf alloc fuel p d = .ok s') :
    s.adddatanode conf .succeed fuel p d = .ok s' := by
  induction fuel generalizing s p with
  | zero => cases h
  | succ fuel ih =>
      rw [adddatanode] at h ⊢
      obtain ⟨m, hm, h⟩ := Library.bind_eq_ok.mp h
      refine Library.bind_eq_ok.mpr ⟨m, hm, ?_⟩
      split_ifs at h ⊢ with hL
      · exact h
      · obtain ⟨s1, h1, h⟩ := Library.bind_eq_ok.mp h
        obtain ⟨m1, hm1, h⟩ := Library.bind_eq_ok.mp h
        obtain ⟨n, hn, h⟩ := Library.bind_eq_ok.mp h
        have h1' : (s.bump p).ensureChilds .succeed p m = .ok s1 := by
          have hmem := getElem?_of_mapAt hm
          obtain ⟨hens, herr⟩ := ensureChilds_alloc hmem alloc
          have h1 : (s.bump p).ensureChilds alloc p m = .ok s1 := h1
          by_cases hself : m.apChilds 0 = none → ∀ i, alloc.child m.iLevel i = true
          · rw [← h1, hens hself]
            exact ensureChilds_succeed hmem
          · rw [herr hself] at h1
            cases h1
        refine Library.bind_eq_ok.mpr ⟨s1, h1', Library.bind_eq_ok.mpr ⟨m1, hm1, Library.bind_eq_ok.mpr ⟨n, hn, ?_⟩⟩⟩
        split at h
        · exact h
        · split at h
          · cases h
          · exact ih h

/-! ## One call -/

/-- The id map got its blocks when the id is new. -/
def IdGranted (s : NlaCoreData) (c : Call) : Prop :=
  s.getdatanode c.op.id = none → c.alloc.key = true ∧ c.alloc.pairs = true

/-- A call that returns and whose id got into the id map did what it does with a full pool. -/
theorem applyCall_succeed (hid : IdGranted s c) (h : applyCall s c = .ok s') : applySet c.conf s c.op = .ok s' := by
  unfold applyCall setdataloc at h
  unfold applySet setdataloc
  cases hd : s.getdatanode c.op.id with
  | none =>
      obtain ⟨hkey, hpairs⟩ := hid hd
      rw [hd] at h
      simp only [createItem, hkey, hpairs] at h
      split_ifs at h
      · obtain ⟨_, h1, -⟩ := Library.bind_eq_ok.mp h
        cases h1
      · obtain ⟨s1, h1, h⟩ := Library.bind_eq_ok.mp h
        exact Library.bind_eq_ok.mpr ⟨s1, adddatanode_succeed h1, h⟩
  | some d =>
      rw [hd] at h
      obtain ⟨b, hb, h⟩ := Library.bind_eq_ok.mp h
      refine Library.bind_eq_ok.mpr ⟨b, hb, ?_⟩
      split_ifs at h ⊢
      · exact h
      · rw [moveItem] at h ⊢
        obtain ⟨s0, h0, h⟩ := Library.bind_eq_ok.mp h
        obtain ⟨s1, h1, h⟩ := Library.bind_eq_ok.mp h
        exact Library.bind_eq_ok.mpr ⟨s0, h0, Library.bind_eq_ok.mpr ⟨s1, adddatanode_succeed h1, h⟩⟩

/-- What is in a list or may come into one is the node the id map holds for an id. -/
structure Held (s : NlaCoreData) : Prop where
  head : ∀ q e : Nat, s.head q = some e → ∃ id, s.getdatanode id = some e
  next : ∀ d e : Nat, s.next d = some e → ∃ id, s.getdatanode id = some e

theorem held_init (iHashSize : Nat) (h0 : 0 < iHashSize) : Held (initCoreData iHashSize h0) where
  head := fun q e he => absurd ((inv_init ⟨0⟩ iHashSize h0).heads q e he) (Nat.not_lt_zero e)
  next := fun d e he => absurd ((inv_init ⟨0⟩ iHashSize h0).nexts d e he) (Nat.not_lt_zero e)

theorem Held.listed (h : Held s) (hr : Library.Reaches s.next d (s.head q)) : ∃ id, s.getdatanode id = some d := by
  have hall : ∀ o, Library.Reaches s.next d o → (∀ e, o = some e → ∃ id, s.getdatanode id = some e) →
      ∃ id, s.getdatanode id = some d := by
    intro o hr
    induction hr with
    | here => exact fun ho => ho d rfl
    | @step b _ ih => exact fun _ => ih fun e he => h.next b e he
  exact hall _ hr fun e he => h.head q e he

theorem Change.held {data : NlaDataItem} (h : Held s) (hw : Change conf s op s' d data) : Held s' := by
  -- a node that was held still is
  have hkeep : ∀ e, (∃ id, s.getdatanode id = some e) → ∃ id, s'.getdatanode id = some e := by
    rintro e ⟨id, hid⟩
    refine ⟨id, ?_⟩
    rw [hw.get]
    by_cases heq : id = op.id
    · subst heq
      rcases hw.record with ⟨hnone, -⟩ | ⟨hsome, -⟩
      · rw [hnone] at hid
        cases hid
      · rw [Function.update_self, ← hsome, hid]
    · rw [Function.update_of_ne heq, hid]
  refine ⟨fun q e he => ?_, fun f e he => ?_⟩
  · rcases hw.head_cases q with hhead | hhead
    · rw [hhead] at he
      exact hkeep e (h.head q e he)
    · rw [hhead] at he
      cases he
      exact ⟨op.id, hw.get_self⟩
  · rcases hw.next_cases f with hnext | ⟨q, hnext⟩
    · rw [hnext] at he
      exact hkeep e (h.next f e he)
    · rw [hnext] at he
      exact hkeep e (h.head q e he)

/-- The update is in the id map and in the list of a node that has the location. -/
def TookEffect (op : SetItem) (s' : NlaCoreData) : Prop :=
  ∃ (d : Nat) (data : NlaDataItem) (q : Nat) (k : NlaMapNode), s'.getdatanode op.id = some d ∧
    s'.item d = some data ∧ data.loc = op.loc ∧ s'.mapNodes[q]? = some k ∧ isLocInRC k.rc op.loc = true ∧
    Library.Reaches s'.next d (s'.head q)

/-- The same ids in the id map, and the same data nodes in the lists. -/
def SameMembers (s s' : NlaCoreData) : Prop :=
  (∀ id, (s'.getdatanode id).isSome = (s.getdatanode id).isSome) ∧
    ∀ d, (∃ q, Library.Reaches s'.next d (s'.head q)) ↔ ∃ q, Library.Reaches s.next d (s.head q)

/-- What a call may leave behind: its update in both structures, or what was there before; and a data node in the tree is
the one the id map holds for its id. -/
structure Coherent (s : NlaCoreData) (op : SetItem) (s' : NlaCoreData) : Prop where
  effect : TookEffect op s' ∨ SameMembers s s'
  held : ∀ d q : Nat, Library.Reaches s'.next d (s'.head q) → ∃ id data, s'.getdatanode id = some d ∧
    s'.item d = some data ∧ data.achId = strcpyId id

/-- What a call needs of the pool, and of its item: a new id needs its data node and both blocks of the id map; an item
that is there needs a cell; and unless it stays in the cell, the descent needs its child map nodes. -/
structure Granted (s : NlaCoreData) (c : Call) : Prop where
  create : s.getdatanode c.op.id = none → c.alloc.dataNode = true ∧ c.alloc.key = true ∧ c.alloc.pairs = true
  cell : ∀ d, s.getdatanode c.op.id = some d → s.cell d ≠ none
  childs : (∀ (d q : Nat) (k : NlaMapNode), s.getdatanode c.op.id = some d → s.cell d = some q →
    s.mapNodes[q]? = some k → isLocInRC k.rc c.op.loc = false) → ChildsGranted c.conf c.alloc c.op.loc 0 s

/-- A call that took one of its branches, for a location of the map. -/
theorem Change.coherent {data : NlaDataItem} (h : Sound s) (hheld : Held s) (hw : Change conf s op s' d data)
    (hin : isLocInRC initRootRect op.loc = true) : Coherent s op s' := by
  have hsound := hw.sound h
  refine ⟨?_, fun e q hr => ?_⟩
  · rcases hw.lists with ⟨q, k, hid, -, -, -, hmaps, hnext, -⟩ | hr
    · right
      have hget : s'.getdatanode = s.getdatanode := by rw [hw.get, Function.update_eq_self_iff.mpr hid.symm]
      have hhead : s'.head = s.head := funext fun q => by rw [head, hmaps, head]
      rw [SameMembers, hget, hnext, hhead]
      exact ⟨fun _ => rfl, fun _ => Iff.rfl⟩
    · cases hr with
      | leaf q k hk _ hkin hhead hnext hcell =>
          left
          refine ⟨d, data, q, k, hw.get_self, by rw [hw.item, Function.update_self], hw.loc, hk, hkin hin, ?_⟩
          rw [hhead, if_pos rfl]
          exact .here
      | lost _ hout _ _ _ =>
          rw [hin] at hout
          cases hout
  · obtain ⟨id, hid⟩ := (hw.held hheld).listed hr
    obtain ⟨data', hdata', hname⟩ := hsound.names id e hid
    exact ⟨id, data', hid, hdata', hname⟩

/-- The call of an item that leaves its cell. -/
theorem Sound.call_move (h : Sound s) (hheld : Held s) (hin : isLocInRC initRootRect c.op.loc = true)
    (hid : s.getdatanode c.op.id = some d) (hq : s.cell d = some q) (hk : s.mapNodes[q]? = some k)
    (hout : isLocInRC k.rc c.op.loc = false) :
    (∃ s', applyCall s c = .ok s' ∧ Coherent s c.op s') ↔ ChildsGranted c.conf c.alloc c.op.loc 0 s := by
  obtain ⟨data, hdata⟩ := h.item hid
  obtain ⟨n, hn, -⟩ := Option.map_eq_some_iff.mp hdata
  have hn' : (s.setLoc d c.op.loc).dataNodes[d]? = some { n with data := { n.data with loc := c.op.loc } } := by
    rw [setLoc, dataNodes_modifyData, if_pos rfl, hn]
    rfl
  have hcall : applyCall s c = (s.setLoc d c.op.loc).adddatanode c.conf c.alloc (c.conf.nMapMaxLevel.toNat + 1)
      (s.setLoc d c.op.loc).pMapRoot d >>= fun s1 => .ok (s1.setTime d c.op.now) := by
    simp only [applyCall, setdataloc, hid, inCell_eq hq hk, hout, bind, Except.bind, Bool.false_eq_true, if_false,
      moveItem, removeDatanodeFromMap_some]
    rfl
  obtain ⟨hgrant, herr⟩ := adddatanode_root (s := s.setLoc d c.op.loc) h.grid hn' hin c.conf c.alloc
  constructor
  · rintro ⟨s', hs', -⟩
    by_contra hng
    rw [hcall, herr hng] at hs'
    cases hs'
  · intro hg
    obtain ⟨s1, hs1, hadd⟩ := h.adddatanode_setLoc hdata c.conf c.op.loc
    obtain ⟨data', hw⟩ := change_move h hid hadd
    refine ⟨_, ?_, hw.coherent h hheld hin⟩
    rw [hcall, hgrant hg]
    change (s.setLoc d c.op.loc).adddatanode c.conf .succeed _ s.pMapRoot d >>= _ = _
    rw [hs1]
    rfl

/-- The call of an id the map holds. -/
theorem Sound.call_known (h : Sound s) (hheld : Held s) (hin : isLocInRC initRootRect c.op.loc = true)
    (hid : s.getdatanode c.op.id = some d) :
    (∃ s', applyCall s c = .ok s' ∧ Coherent s c.op s') ↔ Granted s c := by
  have hknown : s.getdatanode c.op.id = none → c.alloc.dataNode = true ∧ c.alloc.key = true ∧ c.alloc.pairs = true := by
    rw [hid]
    exact fun hnone => absurd hnone (Option.some_ne_none d)
  cases hq : s.cell d with
  | none =>
      refine iff_of_false ?_ fun hg => hg.cell d hid hq
      rintro ⟨s', hs', -⟩
      obtain ⟨data, hdata⟩ := h.item hid
      obtain ⟨n, hn, -⟩ := Option.map_eq_some_iff.mp hdata
      rw [cell, hn, Option.bind_some] at hq
      simp only [applyCall, setdataloc, hid, inCell, dataAt_ok hn, hq, nonNull, bind, Except.bind] at hs'
      cases hs'
  | some q =>
      obtain ⟨k, hk⟩ := h.cells d q hq
      have hcell : ∀ d', s.getdatanode c.op.id = some d' → s.cell d' ≠ none := by
        intro d' hd'
        obtain rfl := Option.some.inj (hid.symm.trans hd')
        rw [hq]
        exact Option.some_ne_none q
      cases hloc : isLocInRC k.rc c.op.loc with
      | true =>
          obtain ⟨data, hw⟩ := change_inPlace c.conf h hid hq hk hloc
          refine iff_of_true ⟨_, ?_, hw.coherent h hheld hin⟩ ⟨hknown, hcell, fun hleave => ?_⟩
          · simp only [applyCall, setdataloc, hid, inCell_eq hq hk, hloc, bind, Except.bind, if_true]
            rfl
          · rw [hleave d q k hid hq hk] at hloc
            cases hloc
      | false =>
          rw [h.call_move hheld hin hid hq hk hloc]
          refine ⟨fun hg => ⟨hknown, hcell, fun _ => hg⟩, fun hg => hg.childs fun d' q' k' hd' hq' hk' => ?_⟩
          obtain rfl := Option.some.inj (hid.symm.trans hd')
          obtain rfl := Option.some.inj (hq.symm.trans hq')
          obtain rfl := Option.some.inj (hk.symm.trans hk')
          exact hloc

/-- The core data before the descent of a new node, with the id map as the pool allowed. -/
def withNode (s : NlaCoreData) (c : Call) : NlaCoreData :=
  { s with
    dataNodes := s.dataNodes ++ [newDataNode c.op.id c.op.loc c.op.iStatus c.op.iType]
    pId2dataMap := (smPutPtrvalue c.alloc.key c.alloc.pairs s.pId2dataMap c.op.id (some s.dataNodes.length)).2 }

theorem applyCall_new (hid : s.getdatanode c.op.id = none) : applyCall s c =
    if c.alloc.dataNode then (withNode s c).adddatanode c.conf c.alloc (c.conf.nMapMaxLevel.toNat + 1)
      (withNode s c).pMapRoot s.dataNodes.length >>= fun s1 => .ok (s1.setTime s.dataNodes.length c.op.now)
    else .error .nullDeref := by
  simp only [applyCall, setdataloc, hid, createItem]
  cases c.alloc.dataNode with
  | true => rfl
  | false => rfl

/-- A call of a new id that returns puts its node into a list, and the id map is what the pool allowed. -/
theorem Sound.linked_of_new (h : Sound s) (hid : s.getdatanode c.op.id = none)
    (hin : isLocInRC initRootRect c.op.loc = true) (hs' : applyCall s c = .ok s') :
    s'.pId2dataMap = (withNode s c).pId2dataMap ∧ ∃ q : Nat, Library.Reaches s'.next s.dataNodes.length (s'.head q) := by
  rw [applyCall_new hid] at hs'
  split_ifs at hs'
  obtain ⟨s1, hs1, h1⟩ := Library.bind_eq_ok.mp hs'
  cases h1
  have hnew : (withNode s c).dataNodes[s.dataNodes.length]? =
      some (newDataNode c.op.id c.op.loc c.op.iStatus c.op.iType) := List.getElem?_concat_length
  have hheads : (withNode s c).HeadsOk := by
    intro q e he
    exact Nat.lt_of_lt_of_le (h.heads q e he) (by simp [withNode])
  obtain ⟨m, hm, hrc, hlev, -⟩ := h.grid.top
  have hml : isLocInRC m.rc c.op.loc = true := by rw [hrc]; exact hin
  have hfuel : (c.conf.nMapMaxLevel - m.iLevel).toNat < c.conf.nMapMaxLevel.toNat + 1 := by omega
  obtain ⟨s2, hs2, hadd⟩ := adddatanode_added (s := withNode s c) h.grid hheads hm hnew hfuel
  obtain rfl := Except.ok.inj ((adddatanode_succeed hs1).symm.trans hs2)
  obtain ⟨q, hsp⟩ := hadd.spliced h.grid hheads (List.getElem?_eq_some_iff.mp hnew).1 hm (fun _ => hml) fun _ => hml
  refine ⟨hadd.frame.2.1, q, ?_⟩
  change Library.Reaches _ _ (s1.head q)
  rw [hsp.head, if_pos rfl]
  exact .here

/-- A new node without an id is in the tree alone. -/
theorem Sound.not_coherent_of_lost (h : Sound s) (hid : s.getdatanode c.op.id = none)
    (hin : isLocInRC initRootRect c.op.loc = true) (hlost : ¬ (c.alloc.key = true ∧ c.alloc.pairs = true))
    (hs' : applyCall s c = .ok s') : ¬ Coherent s c.op s' := by
  intro hcons
  have hput : (smPutPtrvalue c.alloc.key c.alloc.pairs s.pId2dataMap c.op.id (some s.dataNodes.length)).1 = false := by
    rw [smPutPtrvalue_fst hid]
    simpa using hlost
  have hmap : (withNode s c).pId2dataMap = s.pId2dataMap := smPutPtrvalue_false hput
  -- the node is in a list, but its id is not in the map
  obtain ⟨hframe, q, hr⟩ := h.linked_of_new hid hin hs'
  obtain ⟨id, -, hget, -⟩ := hcons.held s.dataNodes.length q hr
  have hget' : s.getdatanode id = some s.dataNodes.length := by
    rw [getdatanode, hframe, hmap] at hget
    exact hget
  obtain ⟨data, hdata⟩ := h.item hget'
  exact Nat.lt_irrefl _ (lt_of_item hdata)

/-- The call of a new id. -/
theorem Sound.call_new (h : Sound s) (hheld : Held s) (hin : isLocInRC initRootRect c.op.loc = true)
    (hid : s.getdatanode c.op.id = none) :
    (∃ s', applyCall s c = .ok s' ∧ Coherent s c.op s') ↔ Granted s c := by
  have hnew : (withNode s c).dataNodes[s.dataNodes.length]? =
      some (newDataNode c.op.id c.op.loc c.op.iStatus c.op.iType) := List.getElem?_concat_length
  obtain ⟨hgrant, herr⟩ := adddatanode_root (s := withNode s c) h.grid hnew hin c.conf c.alloc
  constructor
  · rintro ⟨s', hs', hcons⟩
    have hids : c.alloc.key = true ∧ c.alloc.pairs = true := by
      by_contra hlost
      exact h.not_coherent_of_lost hid hin hlost hs' hcons
    rw [applyCall_new hid] at hs'
    split_ifs at hs' with hnode
    refine ⟨fun _ => ⟨hnode, hids⟩, fun d hd => ?_, fun _ => ?_⟩
    · rw [hid] at hd
      cases hd
    · by_contra hng
      rw [herr hng] at hs'
      cases hs'
  · intro hg
    obtain ⟨hnode, hkey, hpairs⟩ := hg.create hid
    have hchilds := hg.childs fun d q k hd => by
      rw [hid] at hd
      cases hd
    obtain ⟨s1, hs1, hadd⟩ := h.createItem_ok c.conf c.op
    refine ⟨_, ?_, (change_create h hid hadd).coherent h hheld hin⟩
    rw [applyCall_new hid, if_pos hnode, hgrant hchilds, withNode, hkey, hpairs]
    exact hs1

/-! ## Runs -/

theorem applyCall_change (h : Sound s) (hid : IdGranted s c) (hs' : applyCall s c = .ok s') :
    ∃ (d : Nat) (data : NlaDataItem), Change c.conf s c.op s' d data := by
  rcases applySet_cases h c.conf c.op with ⟨s1, hs1, hstep⟩ | ⟨d, -, -, herr⟩
  · obtain rfl := Except.ok.inj ((applyCall_succeed hid hs').symm.trans hs1)
    exact hstep.change h
  · rw [applyCall_succeed hid hs'] at herr
    cases herr

/-- **When a call survives an empty pool.** In every state that a run of calls reaches whose new ids all got into the id
map, whatever their levels, locations and other blocks, and for every next call with a location in the root rectangle and
every outcome of its allocations: it returns with its update in both structures, or in none, and with every data node of
the tree held by the id map, exactly when the pool has the blocks that the call needs. -/
theorem runServed_memory_iff {iHashSize : Nat} {calls : List Call} (h0 : 0 < iHashSize)
    (hrun : runServed (initCoreData iHashSize h0) calls = .ok s)
    (hids : Library.EveryStep applyCall IdGranted (initCoreData iHashSize h0) calls)
    (hin : isLocInRC initRootRect c.op.loc = true) :
    (∃ s', applyCall s c = .ok s' ∧ Coherent s c.op s') ↔ Granted s c := by
  have hinv : Sound s ∧ Held s := by
    refine Library.run_ok_induction (I := fun s => Sound s ∧ Held s)
      ⟨(inv_init ⟨0⟩ iHashSize h0).sound, held_init iHashSize h0⟩ hids (fun s c s' hI hid hs' => ?_) hrun
    obtain ⟨d, data, hw⟩ := applyCall_change hI.1 hid hs'
    exact ⟨hw.sound hI.1, hw.held hI.2⟩
  cases hd : s.getdatanode c.op.id with
  | none => exact hinv.1.call_new hinv.2 hin hd
  | some d => exact hinv.1.call_known hinv.2 hin hd

/-- Two items, both with a full pool. -/
theorem runServed_memory_two : ∃ s s', runServed (initCoreData 1 Nat.one_pos) [served 1 (setA 5 5)] = .ok s ∧
    applyCall s (served 1 (setB 5 5)) = .ok s' ∧ Coherent s (setB 5 5) s' := by
  obtain ⟨s, hs, hnone⟩ : ∃ s, runServed (initCoreData 1 Nat.one_pos) [served 1 (setA 5 5)] = .ok s ∧
      s.getdatanode (setB 5 5).id = none := ⟨_, rfl, rfl⟩
  have hids : Library.EveryStep applyCall IdGranted (initCoreData 1 Nat.one_pos) [served 1 (setA 5 5)] :=
    ⟨fun _ => ⟨rfl, rfl⟩, fun _ _ => trivial⟩
  have hgranted : Granted s (served 1 (setB 5 5)) := by
    refine ⟨fun _ => ⟨rfl, rfl, rfl⟩, fun d hd => ?_, fun _ _ _ _ _ _ _ _ _ _ _ _ => rfl⟩
    change s.getdatanode (setB 5 5).id = some d at hd
    rw [hnone] at hd
    cases hd
  obtain ⟨s', hs', hcons⟩ := (runServed_memory_iff Nat.one_pos hs hids (by decide)).mpr hgranted
  exact ⟨s, s', hs, hs', hcons⟩

/-- The first call without a data node, and without a child map node, writes through NULL; without the key copy the new
item is in the tree and not in the id map. -/
theorem empty_pool :
    applyCall (initCoreData 1 Nat.one_pos) ⟨⟨1⟩, { Allocs.succeed with dataNode := false }, setA 5 5⟩ = .error .nullDeref ∧
    applyCall (initCoreData 1 Nat.one_pos) ⟨⟨1⟩, { Allocs.succeed with child := fun _ i => i ≠ 3 }, setA 5 5⟩ =
      .error .nullDeref ∧
    ∃ s', applyCall (initCoreData 1 Nat.one_pos) ⟨⟨1⟩, { Allocs.succeed with key := false }, setA 5 5⟩ = .ok s' ∧
      s'.head 4 = some 0 ∧ s'.getdatanode (setA 5 5).id = none ∧
      ¬ Coherent (initCoreData 1 Nat.one_pos) (setA 5 5) s' := by
  refine ⟨rfl, rfl, _, rfl, rfl, rfl, ?_⟩
  exact Sound.not_coherent_of_lost (c := ⟨⟨1⟩, { Allocs.succeed with key := false }, setA 5 5⟩)
    (inv_init ⟨0⟩ 1 Nat.one_pos).sound rfl (by decide) (by decide) rfl

end Lookaround
