import Lookaround.Query
import Lookaround.Step

/-!
# Counts

`adddatanode` counts a data node on its way down, and nothing is ever counted off again.

* `Added.count` : which counts a descent changes, whatever the location;
* `Under s p q` : the node `q` is `p` or a node beneath it;
* `Pruned s` : a node with count 0 has no list, and its children have count 0;
* `addsIn` : how often a run calls `adddatanode` on the root;
* `runSets_pruned` : before the counter of the root can wrap, only empty subtrees have count 0.
-/

namespace Lookaround

open NlaCoreData

variable {conf : Conf} {s s' : NlaCoreData} {op : SetItem} {ops : List SetItem} {iHashSize : Nat} {loc : Nla2dloc}
  {p q d root : Nat} {m k : NlaMapNode}

/-! ## Counts -/

namespace NlaCoreData

/-- The count of a node; a node that is not there has none. -/
def countAt (s : NlaCoreData) (q : MapPtr) : UInt32 := (s.mapNodes[q]?).elim 0 NlaMapNode.iItemCount

theorem countAt_eq (h : s.mapNodes[q]? = some k) : s.countAt q = k.iItemCount := by
  rw [countAt, h, Option.elim_some]

theorem countAt_bump (hm : s.mapNodes[p]? = some m) (q : Nat) :
    (s.bump p).countAt q = s.countAt q + if q = p then 1 else 0 := by
  rw [countAt, bump, mapNodes_modifyMap]
  by_cases hqp : q = p
  · subst hqp
    rw [if_pos rfl, if_pos rfl, countAt, hm]
    rfl
  · rw [if_neg (Ne.symm hqp), if_neg hqp, countAt, UInt32.add_zero]

theorem countAt_grow (hm : s.mapNodes[p]? = some m) (q : Nat) : (s.grow p m).countAt q = s.countAt q :=
  view_grow (fun o => o.elim 0 NlaMapNode.iItemCount) hm (fun _ => rfl) (fun _ => rfl) q

theorem countAt_opened (hm : s.mapNodes[p]? = some m) (q : Nat) :
    (s.opened p m).countAt q = s.countAt q + if q = p then 1 else 0 := by
  rw [opened, countAt_grow (bump_self hm), countAt_bump hm]

theorem countAt_link (s : NlaCoreData) (p : Nat) (h : Option DataPtr) (d q : Nat) :
    (s.link p h d).countAt q = s.countAt q := by
  rw [countAt, mapNodes_link, mapNodes_modifyMap, countAt]
  split_ifs
  · cases s.mapNodes[q]? <;> rfl
  · rfl

end NlaCoreData

/-- A descent of a node at `loc` from `p`, which is `m`, visits `q`, which is `k`: it is the start or, below it and down
to the leaf level, a node whose rectangle has the location. -/
def Visited (conf : Conf) (loc : Nla2dloc) (p : MapPtr) (m : NlaMapNode) (q : MapPtr) (k : NlaMapNode) : Prop :=
  q = p ∨ m.iLevel < k.iLevel ∧ k.iLevel ≤ conf.nMapMaxLevel ∧ isLocInRC k.rc loc = true

instance : Decidable (Visited conf loc p m q k) := inferInstanceAs (Decidable (_ ∨ _))

/-- What a descent from a child visits is beneath the parent. -/
theorem Added.visited_of_child {c : Nat} {kc : NlaMapNode} (rest : Added conf d loc c s s') (h : Grid s.mapNodes root)
    (hkc : s.mapNodes[c]? = some kc) (hkl : isLocInRC kc.rc loc = true) (hlev : kc.iLevel = m.iLevel + 1)
    (hL : m.iLevel < conf.nMapMaxLevel) (hk : s'.mapNodes[q]? = some k) (hvis : Visited conf loc c kc q k) :
    m.iLevel < k.iLevel ∧ k.iLevel ≤ conf.nMapMaxLevel ∧ isLocInRC k.rc loc = true := by
  rcases hvis with rfl | ⟨h1, h2, h3⟩
  · obtain ⟨k', hk', hrc, -, hlev', -⟩ := rest.keeps h q kc hkc
    obtain rfl := Option.some.inj (hk.symm.trans hk')
    exact ⟨by omega, by omega, by rw [hrc]; exact hkl⟩
  · exact ⟨by omega, h2, h3⟩

/-- A descent counts the nodes it visits. -/
theorem Added.count (ha : Added conf d loc p s s') (h : Grid s.mapNodes root) (hm : s.mapNodes[p]? = some m)
    (hin : isLocInRC initRootRect loc = true → isLocInRC m.rc loc = true) (hk : s'.mapNodes[q]? = some k) :
    k.iItemCount = s.countAt q + if Visited conf loc p m q k then 1 else 0 := by
  have hgrid := ha.grid h
  induction ha generalizing m with
  | @leaf p s m' hm' hL =>
      obtain rfl := Option.some.inj (hm.symm.trans hm')
      rw [← countAt_eq hk, countAt_link, countAt_bump hm]
      congr 1
      refine if_congr ⟨Or.inl, fun hor => hor.resolve_right ?_⟩ rfl rfl
      omega
  | @out p s m' hm' hL hout =>
      obtain rfl := Option.some.inj (hm.symm.trans hm')
      rw [← countAt_eq hk, countAt_opened hm]
      congr 1
      refine if_congr ⟨Or.inl, fun hor => hor.resolve_right ?_⟩ rfl rfl
      rintro ⟨-, -, hkl⟩
      rw [hin (hgrid.isLocInRC_root hk hkl)] at hout
      cases hout
  | @down p c s s' m' m'' kc i hm' hL hi hm'' hc hkc hlev hpar hrc rest ih =>
      obtain rfl := Option.some.inj (hm.symm.trans hm')
      have hopen := h.opened hm
      have hkl : isLocInRC kc.rc loc = true := by
        rw [hrc, isLocInRC_childRect_iff (h.node p m hm).ok]
        exact hi
      rw [ih hopen hkc (fun _ => hkl) hk hgrid, countAt_opened hm, UInt32.add_assoc]
      congr 1
      obtain ⟨mp, hmp, -, -, hlevp, -⟩ := (h.keeps_opened hm).trans (rest.keeps hopen) p m hm
      obtain ⟨kc', hkc', hrcc, -, hlevc, -⟩ := rest.keeps hopen c kc hkc
      have hdown : Visited conf loc c kc q k → _ := rest.visited_of_child hopen hkc hkl hlev hL hk
      by_cases hqp : q = p
      · -- the start is above its child, so the rest of the descent leaves it
        subst hqp
        obtain rfl := Option.some.inj (hk.symm.trans hmp)
        have hnot : ¬ Visited conf loc c kc q k := by
          intro hvis
          have := (hdown hvis).1
          omega
        have hvis : Visited conf loc q m q k := Or.inl rfl
        rw [if_pos rfl, if_pos hvis, if_neg hnot, UInt32.add_zero]
      · rw [if_neg hqp, UInt32.zero_add]
        refine if_congr ⟨fun hvis => Or.inr (hdown hvis), fun hvis => ?_⟩ rfl rfl
        obtain ⟨h1, h2, h3⟩ := hvis.resolve_left hqp
        by_cases hlv : k.iLevel = kc.iLevel
        · left
          have h0 := (hgrid.node q k hk).level
          exact hgrid.level_unique (n := k.iLevel.toNat) hk hkc' (by omega) (by omega) h3 (by rw [hrcc]; exact hkl)
        · exact Or.inr ⟨by omega, h2, h3⟩

/-- The list of a node a descent does not visit stays. -/
theorem Added.head_or (ha : Added conf d loc p s s') (h : Grid s.mapNodes root) (hm : s.mapNodes[p]? = some m)
    (q : Nat) : s'.head q = s.head q ∨ ∃ k, s'.mapNodes[q]? = some k ∧ Visited conf loc p m q k := by
  induction ha generalizing m with
  | @leaf p s m' hm' hL =>
      obtain rfl := Option.some.inj (hm.symm.trans hm')
      have hbump := bump_self hm
      by_cases hpq : p = q
      · subst hpq
        obtain ⟨k, hk, -⟩ := (sameTree_link conf.nMapMaxLevel hbump hL m.pDataNode d).fwd p _ hbump
        exact Or.inr ⟨k, hk, Or.inl rfl⟩
      · left
        rw [head_link hbump, if_neg hpq, head_bump]
  | @out p s m' hm' hL hout => exact Or.inl (head_opened hm' q)
  | @down p c s s' m' m'' kc i hm' hL hi hm'' hc hkc hlev hpar hrc rest ih =>
      obtain rfl := Option.some.inj (hm.symm.trans hm')
      have hopen := h.opened hm
      rcases ih hopen hkc with hhead | ⟨k, hk, hvis⟩
      · exact Or.inl (hhead.trans (head_opened hm q))
      · have hkl : isLocInRC kc.rc loc = true := by
          rw [hrc, isLocInRC_childRect_iff (h.node p m hm).ok]
          exact hi
        exact Or.inr ⟨k, hk, Or.inr (rest.visited_of_child hopen hkc hkl hlev hL hk hvis)⟩

/-! ## Empty subtrees -/

/-- `q` is `p` or a node beneath it. -/
inductive Under (s : NlaCoreData) (p : MapPtr) : MapPtr → Prop
  | self : Under s p p
  | child {q c : MapPtr} {m : NlaMapNode} {i : Fin 4} (h : Under s p q) (hm : s.mapNodes[q]? = some m)
      (hc : m.apChilds i = some c) : Under s p c

/-- A node with count 0 has no list, and its children have count 0. -/
structure Pruned (s : NlaCoreData) : Prop where
  list : ∀ q : Nat, s.countAt q = 0 → s.head q = none
  childs : ∀ (q : Nat) (k : NlaMapNode) (i : Fin 4) (c : Nat), s.mapNodes[q]? = some k → k.apChilds i = some c →
    s.countAt q = 0 → s.countAt c = 0

theorem Pruned.under (h : Pruned s) (hp : s.countAt p = 0) (hu : Under s p q) : s.countAt q = 0 := by
  induction hu with
  | self => exact hp
  | child _ hm hc ih => exact h.childs _ _ _ _ hm hc ih

theorem Pruned.congr (h : Pruned s) (hmaps : s'.mapNodes = s.mapNodes) : Pruned s' := by
  have hcount : s'.countAt = s.countAt := funext fun q => by rw [countAt, hmaps, countAt]
  have hhead : s'.head = s.head := funext fun q => by rw [head, hmaps, head]
  refine ⟨?_, ?_⟩
  · rw [hcount, hhead]
    exact h.list
  · rw [hcount, hmaps]
    exact h.childs

theorem pruned_init (iHashSize : Nat) (h0 : 0 < iHashSize) : Pruned (initCoreData iHashSize h0) where
  list := by
    intro q _
    cases hq : (initCoreData iHashSize h0).head q with
    | none => rfl
    | some e => exact absurd ((inv_init ⟨0⟩ iHashSize h0).heads q e hq) (Nat.not_lt_zero e)
  childs := by
    intro q k i c hk hc _
    rw [initCoreData, List.getElem?_singleton] at hk
    split_ifs at hk
    cases hk
    cases hc

/-- A descent from the root adds at most one to a count. -/
theorem Added.countAt_le (ha : Added conf d loc root s s') (h : Grid s.mapNodes root) (q : Nat) :
    (s'.countAt q).toNat ≤ (s.countAt q).toNat + 1 := by
  obtain ⟨m, hm, hrc, -⟩ := h.top
  cases hk : s'.mapNodes[q]? with
  | none =>
      rw [countAt, hk]
      exact Nat.zero_le _
  | some k =>
      rw [countAt_eq hk, ha.count h hm (fun hl => by rw [hrc]; exact hl) hk]
      split_ifs
      · rw [UInt32.toNat_add]
        exact Nat.mod_le _ _
      · rw [UInt32.add_zero]
        omega

/-- Before a counter can wrap, a node that has count 0 after a descent was not visited and had count 0. -/
theorem Added.zero_count (ha : Added conf d loc root s s') (h : Grid s.mapNodes root) (hm : s.mapNodes[root]? = some m)
    (hrc : m.rc = initRootRect) (hbound : (s.countAt q).toNat + 1 < 2 ^ 32) (hz : s'.countAt q = 0) :
    s.countAt q = 0 ∧ ∀ k, s'.mapNodes[q]? = some k → ¬ Visited conf loc root m q k := by
  cases hk : s'.mapNodes[q]? with
  | none =>
      refine ⟨?_, fun k hk' => by cases hk'⟩
      cases hq : s.mapNodes[q]? with
      | none =>
          rw [countAt, hq]
          rfl
      | some k =>
          obtain ⟨k', hk', -⟩ := ha.keeps h q k hq
          rw [hk] at hk'
          cases hk'
  | some k =>
      have hcount := ha.count h hm (fun hl => by rw [hrc]; exact hl) hk
      rw [← countAt_eq hk, hz] at hcount
      by_cases hvis : Visited conf loc root m q k
      · rw [if_pos hvis] at hcount
        have hnat := congrArg UInt32.toNat hcount
        rw [UInt32.toNat_add] at hnat
        change 0 = ((s.countAt q).toNat + 1) % 2 ^ 32 at hnat
        rw [Nat.mod_eq_of_lt hbound] at hnat
        omega
      · rw [if_neg hvis, UInt32.add_zero] at hcount
        refine ⟨hcount.symm, fun k' hk' => ?_⟩
        cases hk'
        exact hvis

/-- A child of the tree after a descent that was there before was a child of the same node. -/
theorem Keeps.child_before {ms ms' : List NlaMapNode} {i : Fin 4} {c : Nat} {kc : NlaMapNode} (hkeeps : Keeps ms ms')
    (h : Grid ms root) (h' : Grid ms' root) (hk : ms'[q]? = some k) (hc : k.apChilds i = some c)
    (hkc : ms[c]? = some kc) : ∃ (k0 : NlaMapNode) (j : Fin 4), ms[q]? = some k0 ∧ k0.apChilds j = some c := by
  obtain ⟨kc', hkc', -, hpar, hlev, -⟩ := hkeeps c kc hkc
  obtain ⟨k', hk', hlev', hpar', -⟩ := h'.child hk hc
  obtain rfl := Option.some.inj (hkc'.symm.trans hk')
  have h0 := (h'.node q k hk).level
  obtain ⟨q0, k0, j, hq0, hk0, hj⟩ := h.linked c kc hkc (h.ne_root hkc (by omega))
  rw [hpar, hq0] at hpar'
  cases hpar'
  exact ⟨k0, j, hk0, hj⟩

theorem Added.pruned (ha : Added conf d loc root s s') (h : Grid s.mapNodes root)
    (hbound : ∀ q : Nat, (s.countAt q).toNat + 1 < 2 ^ 32) (hp : Pruned s) : Pruned s' := by
  obtain ⟨m, hm, hrc, hlev, -⟩ := h.top
  have hgrid := ha.grid h
  have hkeeps := ha.keeps h
  refine ⟨fun q hz => ?_, fun q k i c hk hc hz => ?_⟩
  · obtain ⟨h0, hnot⟩ := ha.zero_count h hm hrc (hbound q) hz
    rcases ha.head_or h hm q with hhead | ⟨k, hk, hvis⟩
    · rw [hhead]
      exact hp.list q h0
    · exact absurd hvis (hnot k hk)
  · obtain ⟨h0, hnot⟩ := ha.zero_count h hm hrc (hbound q) hz
    have hnot := hnot k hk
    have hnode := hgrid.node q k hk
    obtain ⟨kc, hkc, hlevc, -, hrcc⟩ := hgrid.child hk hc
    -- a visited child would have a visited parent
    have hnotc : ¬ Visited conf loc root m c kc := by
      intro hvis
      have hlevel := hnode.level
      obtain ⟨-, hcL, hcin⟩ := hvis.resolve_left (hgrid.ne_root hkc (by omega))
      rw [hrcc] at hcin
      by_cases hk0 : k.iLevel = 0
      · exact hnot (Or.inl (hgrid.eq_root hk hk0))
      · exact hnot (Or.inr ⟨by omega, by omega, isLocInRC_of_childRect hnode.ok hcin⟩)
    rw [countAt_eq hkc, ha.count h hm (fun hl => by rw [hrc]; exact hl) hkc, if_neg hnotc, UInt32.add_zero]
    cases hold : s.mapNodes[c]? with
    | none =>
        rw [countAt, hold]
        rfl
    | some kc0 =>
        obtain ⟨k0, j, hk0, hj⟩ := hkeeps.child_before h hgrid hk hc hold
        exact hp.childs q k0 j c hk0 hj h0

/-! ## Runs -/

/-- How often a `setdataloc` calls `adddatanode` on the root. -/
def addsOf (s : NlaCoreData) (op : SetItem) : Nat :=
  match s.getdatanode op.id with
  | none => 1
  | some d =>
    match s.inCell d op.loc with
    | .ok false => 1
    | _ => 0

/-- How often a run does. -/
def addsIn (conf : Conf) : NlaCoreData → List SetItem → Nat
  | _, [] => 0
  | s, op :: ops =>
    addsOf s op + match applySet conf s op with
      | .ok s' => addsIn conf s' ops
      | .error _ => 0

theorem SetStep.pruned {N : Nat} (h : Inv conf s) (hs : SetStep conf s op s') (hp : Pruned s)
    (hN : ∀ q : Nat, (s.countAt q).toNat ≤ N) (hlt : N + addsOf s op < 2 ^ 32) :
    Pruned s' ∧ ∀ q : Nat, (s'.countAt q).toNat ≤ N + addsOf s op := by
  cases hs with
  | @create s1 hid hadd =>
      have hadds : addsOf s op = 1 := by rw [addsOf, hid]
      have hbound : ∀ q : Nat, ((s.withItem op).countAt q).toNat + 1 < 2 ^ 32 := fun q => by
        have : ((s.withItem op).countAt q).toNat ≤ N := hN q
        omega
      refine ⟨(hadd.pruned h.shape.grid hbound (hp.congr rfl)).congr rfl, fun q => ?_⟩
      have hle : (s1.countAt q).toNat ≤ (s.countAt q).toNat + 1 := hadd.countAt_le h.shape.grid q
      have hold := hN q
      change (s1.countAt q).toNat ≤ _
      omega
  | @inPlace d q k hid hcell hk hin =>
      refine ⟨hp.congr rfl, fun r => ?_⟩
      have : (s.countAt r).toNat ≤ N := hN r
      exact Nat.le_add_right_of_le this
  | @move d q k s1 hid hcell hk hout hadd =>
      have hadds : addsOf s op = 1 := by simp only [addsOf, hid, inCell_eq hcell hk, hout]
      have hbound : ∀ r : Nat, ((s.setLoc d op.loc).countAt r).toNat + 1 < 2 ^ 32 := fun r => by
        have : ((s.setLoc d op.loc).countAt r).toNat ≤ N := hN r
        omega
      refine ⟨(hadd.pruned h.shape.grid hbound (hp.congr rfl)).congr rfl, fun r => ?_⟩
      have hle : (s1.countAt r).toNat ≤ (s.countAt r).toNat + 1 := hadd.countAt_le h.shape.grid r
      have hold := hN r
      change (s1.countAt r).toNat ≤ _
      omega

theorem runSets_pruned_from {N : Nat} (h : Inv conf s) (hp : Pruned s) (hN : ∀ q : Nat, (s.countAt q).toNat ≤ N)
    (hlt : N + addsIn conf s ops < 2 ^ 32) (hrun : runSets conf s ops = .ok s') : Pruned s' := by
  induction ops generalizing s N with
  | nil =>
      cases hrun
      exact hp
  | cons op ops ih =>
      obtain ⟨s1, hs, hrun⟩ := Library.run_cons_eq_ok.mp hrun
      rw [addsIn, hs] at hlt
      obtain ⟨hstep, hinv⟩ := applySet_inv h hs
      obtain ⟨hp1, hN1⟩ := hstep.pruned h hp hN (by omega)
      exact ih hinv hp1 hN1 (by simp only at hlt; omega) hrun

/-- **Count pruning never hides an item.** After every run that calls `adddatanode` on the root fewer than `2 ^ 32`
times, whatever the locations, a node with count 0 has no list, and neither has any node beneath it. -/
theorem runSets_pruned (h0 : 0 < iHashSize) (hrun : runSets conf (initCoreData iHashSize h0) ops = .ok s)
    (hcalls : addsIn conf (initCoreData iHashSize h0) ops < 2 ^ 32) {p : Nat} {m : NlaMapNode}
    (hm : s.mapNodes[p]? = some m) (hz : m.iItemCount = 0) :
    (∀ (q : Nat) (k : NlaMapNode), Under s p q → s.mapNodes[q]? = some k → k.pDataNode = none) ∧
      ∀ d, ¬ Beneath conf.nMapMaxLevel s d p := by
  have hzero : ∀ q : Nat, ((initCoreData iHashSize h0).countAt q).toNat ≤ 0 := by
    intro q
    rw [countAt, initCoreData, List.getElem?_singleton]
    split_ifs <;> exact le_refl _
  have hpruned := runSets_pruned_from (inv_init conf iHashSize h0) (pruned_init iHashSize h0) hzero
    (by rw [Nat.zero_add]; exact hcalls) hrun
  have hempty : ∀ (q : Nat) (k : NlaMapNode), Under s p q → s.mapNodes[q]? = some k → k.pDataNode = none := by
    intro q k hu hk
    rw [← head_eq hk]
    exact hpruned.list q (hpruned.under (by rw [countAt_eq hm, hz]) hu)
  refine ⟨hempty, fun d hd => ?_⟩
  -- an item beneath a node is in the list of a node under it
  suffices hno : ∀ q, Beneath conf.nMapMaxLevel s d q → ¬ Under s p q from hno p hd .self
  intro q hb
  induction hb with
  | list hk hr =>
      intro hu
      rw [hempty _ _ hu hk] at hr
      cases hr
  | child hk _ hc _ ih => exact fun hu => ih (.child hu hk hc)

/-- The call of an item outside the map and one that is moved: the first quadrant is never counted. -/
def countedCalls : List SetItem :=
  [{ id := ⟨[97], CStr.noNul_a⟩, loc := ⟨90000000, 0⟩, iStatus := 0, iType := 0, now := 0 },
   { id := ⟨[98], CStr.noNul_b⟩, loc := ⟨5, 5⟩, iStatus := 0, iType := 0, now := 0 },
   { id := ⟨[98], CStr.noNul_b⟩, loc := ⟨5, -5⟩, iStatus := 0, iType := 0, now := 1 }]

theorem runSets_pruned_three_calls : ∃ s m, runSets ⟨1⟩ (initCoreData 1 Nat.one_pos) countedCalls = .ok s ∧
    addsIn ⟨1⟩ (initCoreData 1 Nat.one_pos) countedCalls = 3 ∧ s.mapNodes[1]? = some m ∧ m.iItemCount = 0 ∧
      ∀ d, ¬ Beneath 1 s d 1 := by
  have hadds : addsIn ⟨1⟩ (initCoreData 1 Nat.one_pos) countedCalls = 3 := rfl
  refine ⟨_, _, rfl, hadds, rfl, rfl, ?_⟩
  refine (runSets_pruned Nat.one_pos (rfl : runSets ⟨1⟩ (initCoreData 1 Nat.one_pos) countedCalls = .ok _) ?_ rfl rfl).2
  rw [hadds]
  decide

end Lookaround
