import Lookaround.Tree
import Mathlib.Algebra.Group.Nat.Defs

/-!
# The cells of the map

The rectangles that `create_child_mapnode` cuts the map into, level by level.

* `createRound`, `createRounds` : `create_child_mapnode` of every node, and `n` rounds of it;
* `descend` : `fn_i_GetChildRcIdx` followed from a node downwards;
* `Full n s` : the tree after `n` rounds, with `4 ^ n` nodes at level `n`;
* `createRounds_partition` : the nodes of level `n` partition the map, and the descent finds the one of a location.
-/

namespace Lookaround

open NlaCoreData

/-- One round: `create_child_mapnode` of every map node. A node that has children keeps them. -/
def createRound (s : NlaCoreData) : Except Fault NlaCoreData :=
  (List.range s.mapNodes.length).foldlM (createChildMapnode .succeed) s

def createRounds (s : NlaCoreData) : Nat → Except Fault NlaCoreData
  | 0 => .ok s
  | n + 1 => do createRound (← createRounds s n)

/-- The node `n` levels below `p` that `fn_i_GetChildRcIdx` leads to; `none` where it answers `-1` or there is no
child. -/
def descend (s : NlaCoreData) (loc : Nla2dloc) : Nat → MapPtr → Option MapPtr
  | 0, p => some p
  | n + 1, p => do
    let m ← s.mapNodes[p]?
    let iChildIdx ← getChildRcIdx m.rc loc
    let child ← m.apChilds iChildIdx
    descend s loc n child

/-- The levels of the map nodes. -/
def NlaCoreData.levels (s : NlaCoreData) : List Int := s.mapNodes.map NlaMapNode.iLevel

variable {s s' : NlaCoreData} {p : Nat} {m : NlaMapNode} {n : Nat} {loc : Nla2dloc}

theorem levels_expand (s : NlaCoreData) (p : Nat) (m : NlaMapNode) :
    (s.expand p m).levels = s.levels ++ List.replicate 4 (m.iLevel + 1) := by
  have hold : (s.mapNodes.modify p fun m => { m with apChilds := fun i => some (s.mapNodes.length + i) }).map
      NlaMapNode.iLevel = s.mapNodes.map NlaMapNode.iLevel := by
    apply List.ext_getElem?
    intro q
    rw [List.getElem?_map, List.getElem?_modify, List.getElem?_map]
    split_ifs
    · cases s.mapNodes[q]? <;> rfl
    · simp
  rw [levels, expand, List.map_append, hold]
  simp [levels, newChild, List.ofFn_succ, List.replicate]

theorem getElem?_levels (hm : s.mapNodes[p]? = some m) : s.levels[p]? = some m.iLevel := by
  rw [levels, List.getElem?_map, hm, Option.map_some]

/-! ## One round -/

/-- The tree after `n` rounds: every node above level `n` has its children, and there are `4 ^ n` nodes at level `n`. -/
structure Full (n : Nat) (s : NlaCoreData) : Prop where
  grid : Grid s.mapNodes s.pMapRoot
  childs : ∀ (p : Nat) (m : NlaMapNode), s.mapNodes[p]? = some m → (m.apChilds 0 ≠ none ↔ m.iLevel < n)
  bound : ∀ l ∈ s.levels, l ≤ n
  count : s.levels.count (n : Int) = 4 ^ n

/-- The tree within a round that started with the levels `ls`, when the first `j` nodes have had their turn. -/
structure Filling (n : Nat) (root : MapPtr) (ls : List Int) (j : Nat) (s : NlaCoreData) : Prop where
  top : s.pMapRoot = root
  grid : Grid s.mapNodes root
  levels : s.levels = ls ++ List.replicate (4 * (ls.take j).count (n : Int)) ((n : Int) + 1)
  childs : ∀ (p : Nat) (m : NlaMapNode), s.mapNodes[p]? = some m →
    (m.apChilds 0 ≠ none ↔ m.iLevel < n ∨ m.iLevel = n ∧ p < j)

variable {root : Nat} {ls : List Int} {j : Nat}

/-- A node at level `n` gets its children. -/
theorem Filling.expand (h : Filling n root ls j s) (hj : j < ls.length) (hm : s.mapNodes[j]? = some m)
    (hlev : m.iLevel = n) : Filling n root ls (j + 1) (s.expand j m) := by
  have hlevel : ls[j]? = some (n : Int) := by
    have hl := getElem?_levels hm
    rw [h.levels, List.getElem?_append_left hj, hlev] at hl
    exact hl
  have h0 : m.apChilds 0 = none := by
    by_contra hne
    have := (h.childs j m hm).mp hne
    omega
  refine ⟨h.top, h.grid.expand hm h0, ?_, fun q k hk => ?_⟩
  · have htake : ls.take (j + 1) = ls.take j ++ [(n : Int)] := by
      rw [List.take_add_one, hlevel, Option.toList_some]
    rw [levels_expand, h.levels, htake, hlev, List.count_append, List.count_singleton_self, Nat.mul_add,
      List.append_assoc, List.replicate_append_replicate, Nat.mul_one]
  · rcases expand_cases hm hk with ⟨rfl, rfl⟩ | ⟨hne, hk⟩ | ⟨i, rfl, rfl⟩
    · simp [hlev]
    · rw [h.childs q k hk]
      have : q ≠ j := hne
      omega
    · have hnew : (newChild j m i).iLevel = n + 1 := by rw [← hlev]; rfl
      have hnone : (newChild j m i).apChilds 0 = none := rfl
      rw [hnew, hnone]
      refine iff_of_false (fun hne => hne rfl) ?_
      omega

/-- A node above level `n` keeps its children. -/
theorem Filling.keep (h : Filling n root ls j s) (hj : j < ls.length) (hm : s.mapNodes[j]? = some m)
    (hlev : m.iLevel < n) : Filling n root ls (j + 1) s := by
  have hlevel : ls[j]? = some m.iLevel := by
    have hl := getElem?_levels hm
    rw [h.levels, List.getElem?_append_left hj] at hl
    exact hl
  refine ⟨h.top, h.grid, ?_, fun q k hk => ?_⟩
  · have htake : ls.take (j + 1) = ls.take j ++ [m.iLevel] := by
      rw [List.take_add_one, hlevel, Option.toList_some]
    rw [h.levels, htake, List.count_append, List.count_singleton, if_neg (by simpa using ne_of_lt hlev), Nat.add_zero]
  · rw [h.childs q k hk]
    by_cases hqj : q = j
    · subst hqj
      obtain rfl := Option.some.inj (hm.symm.trans hk)
      omega
    · omega

theorem Filling.step (h : Filling n root ls j s) (hj : j < ls.length) (hle : ∀ l ∈ ls, l ≤ (n : Int)) :
    ∃ s', s.createChildMapnode .succeed j = .ok s' ∧ Filling n root ls (j + 1) s' := by
  have hlen : j < s.mapNodes.length := by
    have := congrArg List.length h.levels
    rw [NlaCoreData.levels, List.length_map, List.length_append] at this
    omega
  have hm : s.mapNodes[j]? = some s.mapNodes[j] := List.getElem?_eq_getElem hlen
  have hlevel := getElem?_levels hm
  rw [h.levels, List.getElem?_append_left hj] at hlevel
  have hbound := hle _ (List.mem_of_getElem? hlevel)
  by_cases hlev : s.mapNodes[j].iLevel = n
  · have h0 : s.mapNodes[j].apChilds 0 = none := by
      by_contra hne
      have := (h.childs j _ hm).mp hne
      omega
    exact ⟨_, createChildMapnode_ok hm h0, h.expand hj hm hlev⟩
  · have hlt : s.mapNodes[j].iLevel < n := by omega
    have h0 : s.mapNodes[j].apChilds 0 ≠ none := (h.childs j _ hm).mpr (Or.inl hlt)
    refine ⟨s, ?_, h.keep hj hm hlt⟩
    rw [createChildMapnode, mapAt_ok hm]
    simp only [bind, Except.bind, if_pos h0]
    rfl

theorem Full.filling (h : Full n s) : Filling n s.pMapRoot s.levels 0 s := by
  refine ⟨rfl, h.grid, by simp, fun p m hm => ?_⟩
  rw [h.childs p m hm]
  omega

theorem Full.createRound (h : Full n s) : ∃ s', createRound s = .ok s' ∧ Full (n + 1) s' := by
  have hfill : ∀ j ≤ s.levels.length, ∃ s', (List.range j).foldlM (createChildMapnode .succeed) s = .ok s' ∧
      Filling n s.pMapRoot s.levels j s' := by
    intro j
    induction j with
    | zero => exact fun _ => ⟨s, rfl, h.filling⟩
    | succ j ih =>
        intro hj
        obtain ⟨s1, hs1, hf1⟩ := ih (by omega)
        obtain ⟨s2, hs2, hf2⟩ := hf1.step (by omega) h.bound
        refine ⟨s2, ?_, hf2⟩
        rw [List.range_succ, List.foldlM_append, hs1]
        simp only [bind, Except.bind, List.foldlM_cons, hs2]
        rfl
  have hlen : s.levels.length = s.mapNodes.length := List.length_map _
  obtain ⟨s', hs', hf⟩ := hfill s.levels.length (le_refl _)
  rw [hlen] at hs'
  have hlevels := hf.levels
  rw [List.take_length, h.count] at hlevels
  have hnot : s.levels.count ((n : Int) + 1) = 0 := by
    rw [List.count_eq_zero]
    intro hmem
    have := h.bound _ hmem
    omega
  refine ⟨s', hs', by rw [hf.top]; exact hf.grid, fun p m hm => ?_, fun l hl => ?_, ?_⟩
  · rw [hf.childs p m hm]
    have hl := getElem?_levels hm
    rw [hlevels] at hl
    by_cases hp : p < s.levels.length
    · rw [List.getElem?_append_left hp] at hl
      have := h.bound _ (List.mem_of_getElem? hl)
      omega
    · rw [List.getElem?_append_right (by omega)] at hl
      have := List.eq_of_mem_replicate (List.mem_of_getElem? hl)
      omega
  · rw [hlevels, List.mem_append] at hl
    rcases hl with hl | hl
    · have := h.bound l hl
      omega
    · have := List.eq_of_mem_replicate hl
      omega
  · have hcast : ((n + 1 : Nat) : Int) = (n : Int) + 1 := by omega
    rw [hlevels, hcast, List.count_append, hnot, List.count_replicate_self, Nat.zero_add,
      Nat.pow_succ, Nat.mul_comm]

theorem full_init (iHashSize : Nat) (h0 : 0 < iHashSize) : Full 0 (initCoreData iHashSize h0) where
  grid := (shape_init 0 iHashSize h0).grid
  childs := by
    intro p m hm
    rw [initCoreData, List.getElem?_singleton] at hm
    split_ifs at hm
    cases hm
    simp
  bound := by simp [levels, initCoreData]
  count := by simp [levels, initCoreData]

theorem createRounds_full (iHashSize : Nat) (h0 : 0 < iHashSize) (n : Nat) :
    ∃ s, createRounds (initCoreData iHashSize h0) n = .ok s ∧ Full n s := by
  induction n with
  | zero => exact ⟨_, rfl, full_init iHashSize h0⟩
  | succ n ih =>
      obtain ⟨s, hs, hfull⟩ := ih
      obtain ⟨s', hs', hfull'⟩ := hfull.createRound
      refine ⟨s', ?_, hfull'⟩
      rw [createRounds, hs]
      exact hs'

/-! ## The descent -/

/-- From a node with the location, the descent goes down as long as there are children. -/
theorem Full.descend (h : Full n s) {j : Nat} (hm : s.mapNodes[p]? = some m) (hin : isLocInRC m.rc loc = true)
    (hj : m.iLevel + j ≤ n) : ∃ (q : Nat) (k : NlaMapNode), Lookaround.descend s loc j p = some q ∧
      s.mapNodes[q]? = some k ∧ k.iLevel = m.iLevel + j ∧ isLocInRC k.rc loc = true := by
  induction j generalizing p m with
  | zero => exact ⟨p, m, rfl, hm, by simp, hin⟩
  | succ j ih =>
      have hnode := h.grid.node p m hm
      obtain ⟨i, hi⟩ := exists_getChildRcIdx hin
      rcases hnode.childs with hn | hc
      · exact absurd (hn 0) ((h.childs p m hm).mpr (by omega))
      · obtain ⟨c, k, hci, hk, hlev, -, hrc⟩ := hc i
        have hkin : isLocInRC k.rc loc = true := by
          rw [hrc, isLocInRC_childRect_iff hnode.ok]
          exact hi
        obtain ⟨q, kq, hq, hkq, hlevq, hinq⟩ := ih hk hkin (by omega)
        refine ⟨q, kq, ?_, hkq, by omega, hinq⟩
        simp only [Lookaround.descend, hm, hi, hci, bind, Option.bind]
        exact hq

/-- **Cells partition the map and the descent finds the cell.** After `n` rounds of `create_child_mapnode` from the
initial tree there are `4 ^ n` nodes at level `n`. A location of the root rectangle is in exactly one of them, the one
`fn_i_GetChildRcIdx` leads to, and on the way it never answers `-1`; any other location is in none. -/
theorem createRounds_partition (iHashSize : Nat) (h0 : 0 < iHashSize) (n : Nat) :
    ∃ s, createRounds (initCoreData iHashSize h0) n = .ok s ∧ (s.mapNodes.filter fun m => m.iLevel = (n : Int)).length = 4 ^ n ∧
      ∀ loc, (isLocInRC initRootRect loc = true →
          (∃ (p : Nat) (m : NlaMapNode), descend s loc n s.pMapRoot = some p ∧ s.mapNodes[p]? = some m ∧
            m.iLevel = n ∧ isLocInRC m.rc loc = true ∧ ∀ (q : Nat) (k : NlaMapNode), s.mapNodes[q]? = some k →
              k.iLevel = n → isLocInRC k.rc loc = true → q = p) ∧
          ∀ j ≤ n, ∃ (p : Nat) (m : NlaMapNode), descend s loc j s.pMapRoot = some p ∧ s.mapNodes[p]? = some m ∧
            getChildRcIdx m.rc loc ≠ none) ∧
        (isLocInRC initRootRect loc = false → ∀ (q : Nat) (k : NlaMapNode), s.mapNodes[q]? = some k →
          isLocInRC k.rc loc = false) := by
  obtain ⟨s, hs, hfull⟩ := createRounds_full iHashSize h0 n
  refine ⟨s, hs, ?_, fun loc => ⟨fun hroot => ⟨?_, fun j hj => ?_⟩, fun hout q k hk => ?_⟩⟩
  · have hcount := hfull.count
    rw [levels, List.count_eq_countP, List.countP_map, List.countP_eq_length_filter] at hcount
    rw [← hcount]
    congr 2
  · obtain ⟨mr, hmr, hrc, hlev, -⟩ := hfull.grid.top
    rw [← hrc] at hroot
    obtain ⟨p, m, hp, hm, hlevm, hin⟩ := hfull.descend (j := n) hmr hroot (by omega)
    refine ⟨p, m, hp, hm, by omega, hin, fun q k hk hlevk hink => ?_⟩
    exact hfull.grid.level_unique hk hm hlevk (by omega) hink hin
  · obtain ⟨mr, hmr, hrc, hlev, -⟩ := hfull.grid.top
    rw [← hrc] at hroot
    obtain ⟨p, m, hp, hm, -, hin⟩ := hfull.descend (j := j) hmr hroot (by omega)
    exact ⟨p, m, hp, hm, Option.ne_none_iff_exists'.mpr (exists_getChildRcIdx hin)⟩
  · by_contra hin
    rw [Bool.not_eq_false] at hin
    rw [hfull.grid.isLocInRC_root hk hin] at hout
    cases hout

/-- Forty levels down the cells have no width in some direction. -/
theorem createRounds_partition_forty : ∃ s, createRounds (initCoreData 1 Nat.one_pos) 40 = .ok s ∧
    (s.mapNodes.filter fun m => m.iLevel = 40).length = 4 ^ 40 ∧ ∃ p, descend s ⟨-5, 7⟩ 40 s.pMapRoot = some p := by
  obtain ⟨s, hs, hcard, hall⟩ := createRounds_partition 1 Nat.one_pos 40
  obtain ⟨⟨p, -, hp, -⟩, -⟩ := (hall ⟨-5, 7⟩).1 (by decide)
  exact ⟨s, hs, hcard, p, hp⟩

end Lookaround
