import Lookaround.Cells
import Lookaround.Library.Branching
import Lookaround.Memory
import Lookaround.Settled

/-!
# How the core data grows

Nothing of the core data is ever given back: `setitem` is the only request that allocates, and there is none that frees.
What the shared memory has to hold is therefore decided by the calls so far.

* `Added.length_le`, `Added.length_mod` : map nodes come in fours, at most four for each level of a descent;
* `Grid.length_le` : a quadtree that ends at a level has room for so many nodes only;
* `runServed_growth` : the nodes after any run of calls.
-/

namespace Lookaround

open NlaCoreData

variable {conf : Conf} {s s' : NlaCoreData} {p d : Nat} {m : NlaMapNode} {loc : Nla2dloc} {op : SetItem} {c : Call}

/-! ## One call -/

theorem length_opened (s : NlaCoreData) (p : Nat) (m : NlaMapNode) : (s.opened p m).mapNodes.length = s.mapNodes.length ∨
    (s.opened p m).mapNodes.length = s.mapNodes.length + 4 := by
  unfold opened grow
  split_ifs
  · right
    rw [length_expand]
    simp [bump]
  · left
    simp [bump]

theorem length_mapNodes_link (s : NlaCoreData) (p : Nat) (head : Option DataPtr) (d : Nat) :
    (s.link p head d).mapNodes.length = s.mapNodes.length := by
  rw [mapNodes_link]
  simp

/-- A write that keeps the levels of the nodes. -/
theorem levels_modifyMap (s : NlaCoreData) (p : Nat) {f : NlaMapNode → NlaMapNode} (hf : ∀ m, (f m).iLevel = m.iLevel) :
    (s.modifyMap p f).levels = s.levels := by
  unfold levels
  apply List.ext_getElem?
  intro q
  rw [List.getElem?_map, List.getElem?_map, mapNodes_modifyMap]
  split_ifs
  · rw [Option.map_map]
    congr 1
    funext m
    exact hf m
  · rfl

theorem levels_bump (s : NlaCoreData) (p : Nat) : (s.bump p).levels = s.levels :=
  levels_modifyMap s p fun _ => rfl

theorem levels_link (s : NlaCoreData) (p : Nat) (head : Option DataPtr) (d : Nat) : (s.link p head d).levels = s.levels := by
  rw [levels, mapNodes_link]
  exact levels_modifyMap s p fun _ => rfl

theorem levels_opened_le {L : Int} (hL : m.iLevel + 1 ≤ L) (h : ∀ l ∈ s.levels, l ≤ L) :
    ∀ l ∈ (s.opened p m).levels, l ≤ L := by
  unfold opened grow
  split_ifs
  · rw [levels_expand, levels_bump]
    intro l hl
    rcases List.mem_append.mp hl with hl | hl
    · exact h l hl
    · rw [List.eq_of_mem_replicate hl]
      exact hL
  · rw [levels_bump]
    exact h

/-- A descent opens at most the nodes on its way, each with four children. -/
theorem Added.length_le (ha : Added conf d loc p s s') (hm : s.mapNodes[p]? = some m) :
    s'.mapNodes.length ≤ s.mapNodes.length + 4 * (conf.nMapMaxLevel - m.iLevel).toNat := by
  induction ha generalizing m with
  | leaf _ _ =>
      rw [length_mapNodes_link]
      simp [bump]
  | @out p s m1 hm1 hL _ =>
      obtain rfl := Option.some.inj (hm1.symm.trans hm)
      have := length_opened s p m1
      omega
  | @down p c s s' m1 m' k i hm1 hL _ _ _ hk hlevel _ _ _ ih =>
      obtain rfl := Option.some.inj (hm1.symm.trans hm)
      have hrest := ih hk
      have := length_opened s p m1
      omega

theorem Added.length_mod (ha : Added conf d loc p s s') : s'.mapNodes.length % 4 = s.mapNodes.length % 4 := by
  induction ha with
  | leaf _ _ =>
      rw [length_mapNodes_link]
      simp [bump]
  | @out p s m _ _ _ =>
      have := length_opened s p m
      omega
  | @down p c s s' m _ _ _ _ _ _ _ _ _ _ _ _ _ ih =>
      have := length_opened s p m
      omega

/-- No node goes below the level of the call. -/
theorem Added.levels_le (ha : Added conf d loc p s s') {L : Int} (hconf : conf.nMapMaxLevel ≤ L)
    (h : ∀ l ∈ s.levels, l ≤ L) : ∀ l ∈ s'.levels, l ≤ L := by
  induction ha with
  | leaf _ _ =>
      rw [levels_link, levels_bump]
      exact h
  | @out p s m hm hL _ => exact levels_opened_le (by omega) h
  | @down p c s s' m _ _ _ hm hL _ _ _ _ _ _ _ _ ih => exact ih (levels_opened_le (by omega) h)

/-! ## The size of a quadtree -/

/-- A quadtree whose nodes are at the levels 0 to `L`. -/
theorem Grid.length_le {ms : List NlaMapNode} {root L : Nat} (h : Grid ms root)
    (hL : ∀ (p : Nat) (m : NlaMapNode), ms[p]? = some m → m.iLevel ≤ L) : 3 * ms.length + 1 ≤ 4 ^ (L + 1) := by
  let level : Fin ms.length → Nat := fun p => ms[p].iLevel.toNat
  let child : Fin ms.length → Finset (Fin ms.length) := fun q =>
    Finset.univ.biUnion fun i : Fin 4 => Finset.univ.filter fun p => ms[q].apChilds i = some p.val
  have hget : ∀ p : Fin ms.length, ms[p.val]? = some ms[p] := fun p => List.getElem?_eq_getElem p.isLt
  have hroot : (Finset.univ.filter fun p => level p = 0).card ≤ 1 := by
    rw [Finset.card_le_one]
    intro p hp q hq
    simp only [Finset.mem_filter, level] at hp hq
    have hp0 := h.eq_root (hget p) (by have := (h.node p _ (hget p)).level; omega)
    have hq0 := h.eq_root (hget q) (by have := (h.node q _ (hget q)).level; omega)
    exact Fin.ext (hp0.trans hq0.symm)
  have hparent : ∀ p ∈ Finset.univ, 0 < level p → ∃ q ∈ Finset.univ, level p = level q + 1 ∧ p ∈ child q := by
    intro p _ hlev
    obtain ⟨q, k, i, hk, hc, -, hlevel, -⟩ := h.parent (hget p) (h.ne_root (hget p) (by simp only [level] at hlev; omega))
    obtain ⟨hq, rfl⟩ := List.getElem?_eq_some_iff.mp hk
    have h0 := (h.node q _ hk).level
    refine ⟨⟨q, hq⟩, Finset.mem_univ _, ?_, ?_⟩
    · show ms[p].iLevel.toNat = ms[q].iLevel.toNat + 1
      omega
    · simp only [child, Finset.mem_biUnion, Finset.mem_univ, Finset.mem_filter, true_and]
      exact ⟨i, hc⟩
  have hchild : ∀ q, (child q).card ≤ 3 + 1 := by
    intro q
    calc (child q).card ≤ (Finset.univ : Finset (Fin 4)).card * 1 := by
          apply Finset.card_biUnion_le_card_mul
          intro i _
          rw [Finset.card_le_one]
          intro p hp p' hp'
          simp only [Finset.mem_filter, Finset.mem_univ, true_and] at hp hp'
          exact Fin.ext (Option.some.inj (hp.symm.trans hp'))
      _ = 3 + 1 := rfl
  have hle : ∀ p ∈ Finset.univ, level p ≤ L := by
    intro p _
    have := hL p _ (hget p)
    show ms[p].iLevel.toNat ≤ L
    omega
  have hcard := Library.card_tree_le hroot hparent hchild hle
  rw [Finset.card_univ, Fintype.card_fin, Nat.mul_comm] at hcard
  exact hcard

/-! ## Runs -/

/-- The map nodes of a call: a descent, or none. -/
structure MapGrowth (conf : Conf) (s s' : NlaCoreData) : Prop where
  le : s'.mapNodes.length ≤ s.mapNodes.length + 4 * conf.nMapMaxLevel.toNat
  mod : s'.mapNodes.length % 4 = s.mapNodes.length % 4
  levels : ∀ L : Int, conf.nMapMaxLevel ≤ L → (∀ l ∈ s.levels, l ≤ L) → ∀ l ∈ s'.levels, l ≤ L

theorem Added.mapGrowth (hgrid : Grid s.mapNodes s.pMapRoot) (ha : Added conf d loc s.pMapRoot s s') :
    MapGrowth conf s s' := by
  obtain ⟨m, hm, -, h0, -⟩ := hgrid.top
  refine ⟨?_, ha.length_mod, fun L => ha.levels_le⟩
  have hle := ha.length_le hm
  rwa [h0, sub_zero] at hle

theorem SetStep.mapGrowth (h : Sound s) (hs : SetStep conf s op s') : MapGrowth conf s s' := by
  cases hs with
  | create hid hadd =>
      have hgrowth := Added.mapGrowth (s := s.withItem op) h.grid hadd
      exact ⟨hgrowth.le, hgrowth.mod, hgrowth.levels⟩
  | inPlace hid hcell hk hin => exact ⟨Nat.le_add_right _ _, rfl, fun _ _ hle => hle⟩
  | move hid hcell hk hout hadd =>
      have hgrowth := Added.mapGrowth (s := s.setLoc _ op.loc) h.grid hadd
      exact ⟨hgrowth.le, hgrowth.mod, hgrowth.levels⟩

/-- What the calls so far have made of the core data. -/
structure Grown (calls : List Call) (s : NlaCoreData) : Prop where
  sound : Sound s
  ids : ∀ id, s.getdatanode id = none ↔ id ∉ calls.map fun c => c.op.id
  dataNodes : s.dataNodes.length = (calls.map fun c => c.op.id).toFinset.card
  le : s.mapNodes.length ≤ 1 + 4 * (calls.map fun c => c.conf.nMapMaxLevel.toNat).sum
  mod : s.mapNodes.length % 4 = 1
  levels : ∀ L : Nat, (∀ c ∈ calls, c.conf.nMapMaxLevel ≤ L) → ∀ l ∈ s.levels, l ≤ (L : Int)

theorem grown_init (iHashSize : Nat) (h0 : 0 < iHashSize) : Grown [] (initCoreData iHashSize h0) where
  sound := (inv_init ⟨0⟩ iHashSize h0).sound
  ids := fun id => iff_of_true (smGetPtrvalue_smNew iHashSize h0 id) List.not_mem_nil
  dataNodes := rfl
  le := le_rfl
  mod := rfl
  levels := by
    intro L _ l hl
    rw [List.mem_singleton.mp hl]
    exact Int.natCast_nonneg L

variable {calls : List Call}

/-- The ids of a call: a new one has a new data node. -/
theorem Grown.ids_step {data : NlaDataItem} (h : Grown calls s) (hw : Wrote s c.op s' d data) :
    (∀ id, s'.getdatanode id = none ↔ id ∉ (calls ++ [c]).map fun c => c.op.id) ∧
      s'.dataNodes.length = ((calls ++ [c]).map fun c => c.op.id).toFinset.card := by
  constructor
  · intro id
    rw [hw.get, List.map_append, List.mem_append, not_or, ← h.ids id, List.map_singleton, List.mem_singleton]
    by_cases hid : id = c.op.id
    · rw [hid, Function.update_self]
      simp
    · rw [Function.update_of_ne hid]
      simp [hid]
  · rw [List.map_append, List.toFinset_append, List.map_singleton, List.toFinset_cons, List.toFinset_nil,
      insert_empty_eq, Finset.union_comm, ← Finset.insert_eq]
    rcases hw.record with ⟨hn, -, hl, -⟩ | ⟨hsome, hl, -⟩
    · have hnew : c.op.id ∉ (calls.map fun c => c.op.id).toFinset := by
        rw [List.mem_toFinset]
        exact (h.ids _).mp hn
      rw [hl, h.dataNodes, Finset.card_insert_of_notMem hnew]
    · have hold : c.op.id ∈ (calls.map fun c => c.op.id).toFinset := by
        rw [List.mem_toFinset]
        by_contra hc
        rw [(h.ids _).mpr hc] at hsome
        cases hsome
      rw [hl, h.dataNodes, Finset.insert_eq_of_mem hold]

theorem Grown.step (h : Grown calls s) (hid : IdGranted s c) (hs' : applyCall s c = .ok s') : Grown (calls ++ [c]) s' := by
  obtain ⟨d, data, hchange⟩ := applyCall_change h.sound hid hs'
  obtain ⟨hids, hnodes⟩ := h.ids_step hchange.toWrote
  have hgrowth : MapGrowth c.conf s s' := by
    rcases applySet_cases h.sound c.conf c.op with ⟨s1, hs1, hstep⟩ | ⟨_, -, -, herr⟩
    · obtain rfl := Except.ok.inj ((applyCall_succeed hid hs').symm.trans hs1)
      exact hstep.mapGrowth h.sound
    · rw [applyCall_succeed hid hs'] at herr
      cases herr
  refine ⟨hchange.sound h.sound, hids, hnodes, ?_, by rw [hgrowth.mod, h.mod], fun L hL => ?_⟩
  · have hle := hgrowth.le
    have hpre := h.le
    rw [List.map_append, List.sum_append, List.map_singleton, List.sum_singleton]
    omega
  · apply hgrowth.levels L (hL c (List.mem_append_right _ List.mem_cons_self))
    exact h.levels L fun c' hc' => hL c' (List.mem_append_left _ hc')

/-- **The core data grows with the ids and the cells only.** After every run of calls that returns and whose new ids got
into the id map, with any locations and moves and each call under its own level: there is one data node for each id that
was ever set, however often it was set; the map nodes are the root and groups of four children; there are at most four of
them for each level of each call; and when no call has a level beyond `L`, there are never more than the nodes of the full
quadtree of depth `L`. -/
theorem runServed_growth {iHashSize L : Nat} (h0 : 0 < iHashSize)
    (hrun : runServed (initCoreData iHashSize h0) calls = .ok s)
    (hids : Library.EveryStep applyCall IdGranted (initCoreData iHashSize h0) calls)
    (hL : ∀ c ∈ calls, c.conf.nMapMaxLevel ≤ L) :
    s.dataNodes.length = (calls.map fun c => c.op.id).toFinset.card ∧ s.mapNodes.length % 4 = 1 ∧
      s.mapNodes.length ≤ 1 + 4 * (calls.map fun c => c.conf.nMapMaxLevel.toNat).sum ∧
      3 * s.mapNodes.length + 1 ≤ 4 ^ (L + 1) := by
  have hgrown : Grown calls s :=
    Library.run_ok_history (grown_init iHashSize h0) hids (fun _ _ _ _ hI hid hs' => hI.step hid hs') hrun
  refine ⟨hgrown.dataNodes, hgrown.mod, hgrown.le, hgrown.sound.grid.length_le fun p m hm => ?_⟩
  exact hgrown.levels L hL _ (List.mem_of_getElem? (getElem?_levels hm))

/-- Two items, one of which moves, under two levels: two data nodes and nine map nodes. -/
theorem runServed_growth_two_levels : ∃ s,
    runServed (initCoreData 1 Nat.one_pos) [served 1 (setA 5 5), served 2 (setB 5 5), served 1 (setB (-5) (-5))] = .ok s ∧
      s.dataNodes.length = 2 ∧ s.mapNodes.length = 9 ∧ 3 * s.mapNodes.length + 1 ≤ 4 ^ (2 + 1) := by
  obtain ⟨s, hs, hmap⟩ : ∃ s, runServed (initCoreData 1 Nat.one_pos)
      [served 1 (setA 5 5), served 2 (setB 5 5), served 1 (setB (-5) (-5))] = .ok s ∧ s.mapNodes.length = 9 :=
    ⟨_, rfl, rfl⟩
  have hgrowth := runServed_growth (L := 2) Nat.one_pos hs
    ⟨fun _ => ⟨rfl, rfl⟩, fun _ _ => ⟨fun _ => ⟨rfl, rfl⟩, fun _ _ => ⟨fun _ => ⟨rfl, rfl⟩, fun _ _ => trivial⟩⟩⟩ (by decide)
  exact ⟨s, hs, hgrowth.1, hmap, hgrowth.2.2.2⟩

end Lookaround
