import Lookaround.Found
import Lookaround.Calls

/-!
# One index under several levels

Insertion and query both compare `i_level` with the level of the location they are served under, and the tree is one for
all locations.

* `Index.createItem` : a new item keeps the index well-formed, whatever the level;
* `Filed calls s` : what first-time calls leave behind, each in a list at the level of its call;
* `runServed_found_iff` : a query emits all stored items that pass exactly when each of them was stored under its level.
-/

namespace Lookaround

open NlaCoreData

variable {conf : Conf} {s s' : NlaCoreData} {op : SetItem} {calls : List Call} {c : Call} {d i : Nat}

/-! ## A new item -/

/-- The new node is in no list yet. -/
theorem Index.withItem (hI : Index s) (op : SetItem) : Index (s.withItem op) := by
  obtain ⟨hnext, hcell, hitem⟩ := views_withItem s op
  have hprev : (s.withItem op).prev = s.prev := by
    funext e
    rw [prev, getElem?_withItem, prev]
    split_ifs with he
    · rw [he, List.getElem?_eq_none_iff.mpr (le_refl _)]
      rfl
    · rfl
  refine hI.congr rfl rfl hnext hprev fun e r k hr hk => ?_
  obtain ⟨-, k', data, hk', hdata, hin⟩ := hI.listed hr
  obtain rfl := Option.some.inj (hk.symm.trans hk')
  rw [hcell, hitem, Function.update_of_ne (Nat.ne_of_lt (lt_of_item hdata))]
  exact ⟨rfl, data, hdata, hin⟩

theorem Index.free_withItem (hI : Index s) (op : SetItem) (q : Nat) :
    ¬ Library.Reaches (s.withItem op).next s.dataNodes.length ((s.withItem op).head q) := by
  rw [(views_withItem s op).1]
  intro hr
  obtain ⟨-, -, data, -, hdata, -⟩ := hI.listed (d := s.dataNodes.length) (q := q) hr
  exact Nat.lt_irrefl _ (lt_of_item hdata)

/-- The branch for a new id. -/
theorem Index.createItem (hI : Index s) (conf : Conf) (hin : isLocInRC initRootRect op.loc = true) :
    ∃ s1 q, s.createItem conf .succeed op.id op.loc op.iStatus op.iType op.now =
        .ok (s1.setTime s.dataNodes.length op.now) ∧
      Index (s1.setTime s.dataNodes.length op.now) ∧
      Added conf s.dataNodes.length op.loc s.pMapRoot (s.withItem op) s1 ∧
      Spliced conf s.dataNodes.length op.loc 0 q (s.withItem op) s1 := by
  have hI0 := hI.withItem op
  have hnew : (s.withItem op).dataNodes[s.dataNodes.length]? =
      some (newDataNode op.id op.loc op.iStatus op.iType) := by
    rw [getElem?_withItem, if_pos rfl]
  obtain ⟨s1, q, hs1, ha, hsp⟩ := adddatanode_spliced hI0 hnew hin conf
  have hI1 := hI0.of_added (hI.free_withItem op) hnew hin ha hsp
  have hitem : s1.item s.dataNodes.length = some (newDataNode op.id op.loc op.iStatus op.iType).data := by
    rw [hsp.item]
    exact item_of_getElem? hnew
  refine ⟨s1, q, ?_, hI1.setTime hitem op.now, ha, hsp⟩
  change (s.withItem op).adddatanode conf .succeed _ (s.withItem op).pMapRoot _ >>= _ = _
  rw [hs1]
  rfl

/-! ## Runs of first-time calls -/

/-- The data node `i` is in a list at the leaf level of `conf`. -/
def AtLevel (conf : Conf) (s : NlaCoreData) (i : DataPtr) : Prop :=
  ∃ (q : Nat) (k : NlaMapNode), s.mapNodes[q]? = some k ∧ k.iLevel = max conf.nMapMaxLevel 0 ∧
    Library.Reaches s.next i (s.head q)

/-- The core data after calls for pairwise different ids. The node of a call is the one with its number. -/
structure Filed (calls : List Call) (s : NlaCoreData) : Prop where
  sound : Sound s
  index : Index s
  length : s.dataNodes.length = calls.length
  ids : ∀ id d, s.getdatanode id = some d → ∃ c ∈ calls, c.op.id = id
  item : ∀ (i : Nat) (c : Call), calls[i]? = some c →
    s.getdatanode c.op.id = some i ∧ s.item i = some c.op.item ∧ AtLevel c.conf s i

theorem index_init (iHashSize : Nat) (h0 : 0 < iHashSize) : Index (initCoreData iHashSize h0) :=
  (index_emptyIndex []).congr rfl rfl rfl rfl fun e r _ hr => absurd hr (free_emptyIndex [] e r)

theorem filed_init (iHashSize : Nat) (h0 : 0 < iHashSize) : Filed [] (initCoreData iHashSize h0) := by
  refine ⟨(inv_init ⟨0⟩ iHashSize h0).sound, index_init iHashSize h0, rfl, fun id d hd => ?_, fun i c hc => ?_⟩
  · rw [getdatanode, initCoreData, smGetPtrvalue_smNew] at hd
    cases hd
  · rw [List.getElem?_nil] at hc
    cases hc

/-- A node of an earlier call stays in its list. -/
theorem AtLevel.spliced {q : Nat} (h : AtLevel conf s d) (hI : Index s) {conf' : Conf}
    (hkeeps : Keeps s.mapNodes s'.mapNodes)
    (hsp : Spliced conf' s.dataNodes.length op.loc 0 q (s.withItem op) s') : AtLevel conf s' d := by
  obtain ⟨r, k, hk, hlev, hr⟩ := h
  obtain ⟨k', hk', -, -, hlev', -⟩ := hkeeps r k hk
  refine ⟨r, k', hk', hlev'.trans hlev, ?_⟩
  rw [hsp.reaches_iff (hI.withItem op) (hI.free_withItem op), (views_withItem s op).1]
  exact Or.inl hr

/-- The node of a new call is in the list of the leaf its descent ends in. -/
theorem Spliced.atLevel {loc : Nla2dloc} {q : Nat} (hsp : Spliced conf d loc 0 q s s') : AtLevel conf s' d := by
  obtain ⟨k, hk, -⟩ := hsp.leaf
  refine ⟨q, k, hk, hsp.level k hk, ?_⟩
  rw [hsp.head, if_pos rfl]
  exact .here

theorem Filed.getdatanode_eq_none (h : Filed calls s) (hnew : c.op.id ∉ calls.map fun c => c.op.id) :
    s.getdatanode c.op.id = none := by
  by_contra hne
  obtain ⟨d, hd⟩ := Option.ne_none_iff_exists'.mp hne
  obtain ⟨c', hc', heq⟩ := h.ids c.op.id d hd
  exact hnew (List.mem_map.mpr ⟨c', hc', heq⟩)

theorem Filed.step (h : Filed calls s) (halloc : c.alloc = .succeed) (hin : isLocInRC initRootRect c.op.loc = true)
    (hnew : c.op.id ∉ calls.map fun c => c.op.id) : ∃ s', applyCall s c = .ok s' ∧ Filed (calls ++ [c]) s' := by
  have hid := h.getdatanode_eq_none hnew
  obtain ⟨s1, q, hs1, hI, ha, hsp⟩ := h.index.createItem c.conf hin
  have hw := change_create h.sound hid ha
  have hlen : (s1.setTime s.dataNodes.length c.op.now).dataNodes.length = calls.length + 1 := by
    rw [setTime, length_modifyData, ha.frame.2.2, ← h.length]
    exact List.length_append
  have hnext : (s1.setTime s.dataNodes.length c.op.now).next = s1.next :=
    funext fun e => view_modifyData NlaDataNode.next
      (f := fun n => { n with data := { n.data with lastUpdateTime := c.op.now } }) (fun _ => rfl) e
  refine ⟨_, ?_, hw.sound h.sound, hI, by rw [hlen, List.length_append]; rfl, fun id d hd => ?_, fun i c' hc' => ?_⟩
  · simp only [applyCall, setdataloc, hid, halloc]
    exact hs1
  · by_cases hcid : id = c.op.id
    · exact ⟨c, List.mem_append_right _ (List.mem_singleton_self c), hcid.symm⟩
    · rw [hw.get, Function.update_of_ne hcid] at hd
      obtain ⟨c', hc', heq⟩ := h.ids id d hd
      exact ⟨c', List.mem_append_left _ hc', heq⟩
  · rw [hw.get, hw.item, AtLevel, hnext]
    by_cases hi : i < calls.length
    · rw [List.getElem?_append_left hi] at hc'
      obtain ⟨h1, h2, h3⟩ := h.item i c' hc'
      have hne : c'.op.id ≠ c.op.id := fun heq =>
        hnew (List.mem_map.mpr ⟨c', List.mem_of_getElem? hc', heq⟩)
      rw [Function.update_of_ne hne, Function.update_of_ne (Nat.ne_of_lt (by rw [h.length]; exact hi))]
      exact ⟨h1, h2, h3.spliced h.index (ha.keeps h.index.grid) hsp⟩
    · have hi' : i = calls.length := by
        have := (List.getElem?_eq_some_iff.mp hc').1
        rw [List.length_append, List.length_singleton] at this
        omega
      rw [hi', List.getElem?_concat_length] at hc'
      obtain rfl := Option.some.inj hc'
      rw [hi', ← h.length, Function.update_self, Function.update_self]
      exact ⟨rfl, rfl, hsp.atLevel⟩

/-- A run of first-time calls. -/
theorem runServed_filed {iHashSize : Nat} (h0 : 0 < iHashSize) (calls : List Call)
    (halloc : ∀ c ∈ calls, c.alloc = .succeed) (hin : ∀ c ∈ calls, isLocInRC initRootRect c.op.loc = true)
    (hids : (calls.map fun c => c.op.id).Nodup) :
    ∃ s, runServed (initCoreData iHashSize h0) calls = .ok s ∧ Filed calls s := by
  induction calls using List.reverseRecOn with
  | nil => exact ⟨_, rfl, filed_init iHashSize h0⟩
  | append_singleton pre c ih =>
      rw [List.map_append, List.nodup_append] at hids
      obtain ⟨hpre, -, hdisj⟩ := hids
      obtain ⟨s, hs, hfiled⟩ := ih (fun c' hc' => halloc c' (List.mem_append_left _ hc'))
        (fun c' hc' => hin c' (List.mem_append_left _ hc')) hpre
      have hc : c ∈ pre ++ [c] := List.mem_append_right _ (List.mem_singleton_self c)
      have hnew : c.op.id ∉ pre.map fun c => c.op.id := fun hmem =>
        hdisj _ hmem _ (List.mem_singleton_self _) rfl
      obtain ⟨s', hs', hfiled'⟩ := hfiled.step (halloc c hc) (hin c hc) hnew
      refine ⟨s', ?_, hfiled'⟩
      rw [runServed, Library.run_append_ok hs, Library.run_cons hs']
      rfl

/-- A stored item is the item of its call. -/
theorem Filed.mem_stored (h : Filed calls s) (rc : NlaRect) (iStatus iType : Int32) (d : Nat) :
    d ∈ stored s rc iStatus iType ↔
      ∃ c, calls[d]? = some c ∧ passes rc iStatus iType c.op.item = true := by
  constructor
  · rintro ⟨-, data, hdata, hpass⟩
    have hlt := lt_of_item hdata
    rw [h.length] at hlt
    have hc := List.getElem?_eq_getElem hlt
    obtain ⟨-, hitem, -⟩ := h.item d _ hc
    obtain rfl := Option.some.inj (hdata.symm.trans hitem)
    exact ⟨_, hc, hpass⟩
  · rintro ⟨c, hc, hpass⟩
    obtain ⟨-, hitem, q, k, -, -, hr⟩ := h.item d c hc
    exact ⟨⟨q, hr⟩, c.op.item, hitem, hpass⟩

/-- The item of a call is read by the queries with the leaf level of the call, and by no others. -/
theorem Filed.seen_iff (h : Filed calls s) (hc : calls[d]? = some c) (conf : Conf) :
    Seen conf.nMapMaxLevel s d s.pMapRoot ↔ max c.conf.nMapMaxLevel 0 = max conf.nMapMaxLevel 0 := by
  obtain ⟨-, -, q, k, hk, hlev, hr⟩ := h.item d c hc
  rw [h.index.seen_iff]
  constructor
  · rintro ⟨q', k', hr', hk', hlev'⟩
    -- a data node is in one list, that of its cell
    obtain ⟨hcell, -⟩ := h.index.listed hr
    obtain ⟨hcell', -⟩ := h.index.listed hr'
    obtain rfl := Option.some.inj (hcell.symm.trans hcell')
    obtain rfl := Option.some.inj (hk.symm.trans hk')
    exact hlev.symm.trans hlev'
  · intro heq
    exact ⟨q, k, hr, hk, hlev.trans heq⟩

/-- **When locations of different levels share the index.** After every sequence of first-time calls, each under its own
level, and for every query under a level of its own with room for the stored items that pass: it emits all of them exactly
when each was stored under the query's leaf level. A level below 0 acts as 0, and the items are fewer than `2 ^ 32`, since
the pool has 16 MB. -/
theorem runServed_found_iff {iHashSize : Nat} (h0 : 0 < iHashSize) (calls : List Call)
    (halloc : ∀ c ∈ calls, c.alloc = .succeed) (hin : ∀ c ∈ calls, isLocInRC initRootRect c.op.loc = true)
    (hids : (calls.map fun c => c.op.id).Nodup) (hlen : calls.length < 2 ^ 32) (conf : Conf) (rc : NlaRect)
    (iStatus iType : Int32) :
    ∃ s, runServed (initCoreData iHashSize h0) calls = .ok s ∧
      (∀ d, d ∈ stored s rc iStatus iType ↔ ∃ c, calls[d]? = some c ∧ passes rc iStatus iType c.op.item = true) ∧
      ∀ iMaxCount : Int, ((stored s rc iStatus iType).ncard : Int) ≤ iMaxCount →
        ∃ ex, Returns conf s rc iStatus iType iMaxCount ex ∧
          ((∀ d ∈ stored s rc iStatus iType, d ∈ ex.emitted) ↔
            ∀ c ∈ calls, passes rc iStatus iType c.op.item = true →
              max c.conf.nMapMaxLevel 0 = max conf.nMapMaxLevel 0) := by
  obtain ⟨s, hs, hfiled⟩ := runServed_filed h0 calls halloc hin hids
  refine ⟨s, hs, hfiled.mem_stored rc iStatus iType, fun iMaxCount hmax => ?_⟩
  obtain ⟨ex, hret, hmem⟩ := hfiled.index.returns (by rw [hfiled.length]; exact hlen) conf hmax
  refine ⟨ex, hret, fun h c hc hpass => ?_, fun h d hd => ?_⟩
  · obtain ⟨d, hd⟩ := List.mem_iff_getElem?.mp hc
    have hin := h d ((hfiled.mem_stored rc iStatus iType d).mpr ⟨c, hd, hpass⟩)
    exact (hfiled.seen_iff hd conf).mp ((hmem d).mp hin).1
  · obtain ⟨c, hc, hpass⟩ := (hfiled.mem_stored rc iStatus iType d).mp hd
    refine (hmem d).mpr ⟨(hfiled.seen_iff hc conf).mpr (h c (List.mem_of_getElem? hc) hpass), hd.2⟩

/-- Two items under the level 1, and a query under it that looks for all. -/
theorem runServed_found_level_one : ∃ s,
    runServed (initCoreData 1 Nat.one_pos) [served 1 (setA 5 5), served 1 (setB (-5) 5)] = .ok s ∧
      ∀ iMaxCount : Int, ((stored s initRootRect (-1) (-1)).ncard : Int) ≤ iMaxCount →
        ∃ ex, Returns ⟨1⟩ s initRootRect (-1) (-1) iMaxCount ex ∧
          ∀ d ∈ stored s initRootRect (-1) (-1), d ∈ ex.emitted := by
  obtain ⟨s, hs, -, hquery⟩ := runServed_found_iff Nat.one_pos [served 1 (setA 5 5), served 1 (setB (-5) 5)]
    (by simp [served]) (by simp [served]; decide) (by decide) (by decide) ⟨1⟩ initRootRect (-1) (-1)
  refine ⟨s, hs, fun iMaxCount hmax => ?_⟩
  obtain ⟨ex, hret, hiff⟩ := hquery iMaxCount hmax
  exact ⟨ex, hret, hiff.mpr (by simp [served])⟩

/-- An item stored under the level 1 is not found under the level 2, where its cell is no leaf. -/
theorem lost_between_levels : ∃ s ex, runServed (initCoreData 1 Nat.one_pos) [served 1 (setA 5 5)] = .ok s ∧
    s.getdatanode (setA 5 5).id = some 0 ∧ 0 ∈ stored s initRootRect (-1) (-1) ∧
    ((stored s initRootRect (-1) (-1)).ncard : Int) ≤ 1 ∧ Returns ⟨2⟩ s initRootRect (-1) (-1) 1 ex ∧
    0 ∉ ex.emitted := by
  obtain ⟨s, hs, hfiled⟩ := runServed_filed Nat.one_pos [served 1 (setA 5 5)] (by simp [served])
    (by simp [served]; decide) (by decide)
  have hstored : stored s initRootRect (-1) (-1) = {0} := by
    ext d
    rw [hfiled.mem_stored, Set.mem_singleton_iff, List.getElem?_singleton]
    constructor
    · rintro ⟨c, hc, -⟩
      by_contra hd
      rw [if_neg hd] at hc
      cases hc
    · rintro rfl
      exact ⟨_, rfl, by decide⟩
  have hcard : ((stored s initRootRect (-1) (-1)).ncard : Int) ≤ 1 := by rw [hstored, Set.ncard_singleton]; rfl
  obtain ⟨ex, hret, hmem⟩ := hfiled.index.returns (by rw [hfiled.length]; decide) ⟨2⟩ hcard
  refine ⟨s, ex, hs, (hfiled.item 0 _ rfl).1, by rw [hstored]; exact Set.mem_singleton 0, hcard, hret, fun h0 => ?_⟩
  have hlevel := (hfiled.seen_iff (d := 0) rfl ⟨2⟩).mp ((hmem 0).mp h0).1
  exact absurd hlevel (by decide)

end Lookaround
