import Lookaround.Query
import Lookaround.Step

/-!
# Runs of `setdataloc`

What holds after any finite sequence of calls of one worker.

* `runSets_shape` : the shape of the tree, for every level and every location, and that a query on it reads no NULL;
* `BackPtr` : the back pointers, kept by the calls with a location in the root rectangle and broken by every other;
* `runSets_last_write` : which fields of an item are those of its last call;
* `Returning`, `runSets_lists_end` : the calls that close a list into a cycle, and that no others do.
-/

namespace Lookaround

open NlaCoreData

variable {conf : Conf} {s s' : NlaCoreData} {op : SetItem} {ops : List SetItem} {iHashSize : Nat}

/-! ## The shape of the tree -/

section NoFault

variable {rc : NlaRect} {iStatus iType : Int32} {iMaxCount : Int} {ex : NlaExParam}

theorem leafLoop_no_fault (h : Inv conf s) {fuel : Nat} {q : Option Nat}
    (hq : ∀ d, q = some d → d < s.dataNodes.length) :
    s.leafLoop rc iStatus iType iMaxCount fuel q ex ≠ .error .nullDeref := by
  induction fuel generalizing q ex with
  | zero => exact fun h => by cases h
  | succ fuel ih =>
      unfold leafLoop
      split_ifs with hcount
      · cases q with
        | none => exact fun h => by cases h
        | some d =>
            have hlt := hq d rfl
            have hd : s.dataNodes[d]? = some s.dataNodes[d] := List.getElem?_eq_getElem hlt
            simp only [bind, Except.bind, dataAt_ok hd]
            refine ih fun e he => h.nexts d e ?_
            rw [next, hd, Option.bind_some, he]
      · exact fun h => by cases h

/-- A fold whose every round is free of a fault is free of it. -/
theorem foldlM_no_fault {f : NlaExParam → Fin 4 → Except Fault NlaExParam}
    (hf : ∀ ex i, f ex i ≠ .error .nullDeref) (is : List (Fin 4)) : is.foldlM f ex ≠ .error .nullDeref := by
  induction is generalizing ex with
  | nil => exact fun h => by cases h
  | cons i is ih =>
      rw [List.foldlM_cons]
      cases hi : f ex i with
      | ok ex' => exact ih
      | error e =>
          intro he
          refine hf ex i ?_
          rw [hi]
          exact he

/-- A query reads no NULL: the accesses to a child are safe behind the test of the first. -/
theorem getAroundData_no_fault (h : Inv conf s) {fuel p : Nat} {m : NlaMapNode} (hm : s.mapNodes[p]? = some m) :
    s.getAroundData conf iStatus iType iMaxCount fuel (some p) rc ex ≠ .error .nullDeref := by
  induction fuel generalizing p m rc ex with
  | zero => exact fun h => by cases h
  | succ fuel ih =>
      rw [getAroundData, mapAt_ok hm]
      simp only [bind, Except.bind, pure, Except.pure]
      split_ifs with h1 h2 h3
      · exact fun h => by cases h
      · exact leafLoop_no_fault h fun d hd => h.heads p d (by rw [head_eq hm, hd])
      · exact fun h => by cases h
      · refine foldlM_no_fault (fun ex i => ?_) _
        rcases (h.shape.node p m hm).childs with hc | hc
        · exact absurd (hc 0) h3
        · obtain ⟨c, k, hci, hk, -⟩ := hc i
          simp only [hci, nonNull, mapAt_ok hk]
          cases intersectRc k.rc rc with
          | none => exact fun h => by cases h
          | some newRc => exact ih hk

end NoFault

/-- The sum of two coordinates of a rectangle of the map is below `2 ^ 31`. -/
theorem NlaRect.Ok.no_overflow {rc : NlaRect} (h : rc.Ok) :
    (rc.lt.lat + rc.rb.lat).toInt = rc.lt.lat.toInt + rc.rb.lat.toInt ∧
      (rc.lt.lon + rc.rb.lon).toInt = rc.lt.lon.toInt + rc.rb.lon.toInt := by
  obtain ⟨h1, h2, h3, h4, h5, h6⟩ := h
  rw [Int32.toInt_add, Int32.toInt_add]
  exact ⟨Int.bmod_eq_of_le (by omega) (by omega), Int.bmod_eq_of_le (by omega) (by omega)⟩

/-- Every run leads to a last state: its end, or the state in which a call reads the NULL `p_map_node` of its item. -/
theorem runSets_last (h : Inv conf s) (ops : List SetItem) : ∃ pre s', pre <+: ops ∧ runSets conf s pre = .ok s' ∧
    Inv conf s' ∧ (pre = ops ∨ ∃ op d, pre ++ [op] <+: ops ∧ s'.getdatanode op.id = some d ∧ s'.cell d = none ∧
      applySet conf s' op = .error .nullDeref) := by
  induction ops generalizing s with
  | nil => exact ⟨[], s, List.prefix_refl _, rfl, h, Or.inl rfl⟩
  | cons op ops ih =>
      rcases applySet_cases h.sound conf op with ⟨s1, hs, hstep⟩ | ⟨d, hd, hcell, herr⟩
      · obtain ⟨pre, s', hpre, hrun, hinv, hlast⟩ := ih (hstep.inv h)
        refine ⟨op :: pre, s', ?_, (Library.run_cons hs).trans hrun, hinv, hlast.imp ?_ ?_⟩
        · exact (List.cons_prefix_cons).mpr ⟨rfl, hpre⟩
        · intro heq
          rw [heq]
        · rintro ⟨op', d, hp, hrest⟩
          exact ⟨op', d, (List.cons_prefix_cons).mpr ⟨rfl, hp⟩, hrest⟩
      · exact ⟨[], s, List.nil_prefix, rfl, h, Or.inr ⟨op, d, ⟨ops, rfl⟩, hd, hcell, herr⟩⟩

/-- **The shape of the tree after any run**, for every level and every location. The run ends, or it stops in a state in
which a call reads the NULL `p_map_node` of its item before it writes anything; in that state the tree has its shape,
no sum of coordinates overflows, and no query reads through NULL. -/
theorem runSets_shape (conf : Conf) (iHashSize : Nat) (h0 : 0 < iHashSize) (ops : List SetItem) :
    ∃ (pre : List SetItem) (s : NlaCoreData), pre <+: ops ∧ runSets conf (initCoreData iHashSize h0) pre = .ok s ∧
      (pre = ops ∨ ∃ op d, pre ++ [op] <+: ops ∧ s.getdatanode op.id = some d ∧ s.cell d = none ∧
        applySet conf s op = .error .nullDeref) ∧
      Shape conf.nMapMaxLevel s.mapNodes s.pMapRoot ∧
      (∀ (p : Nat) (m : NlaMapNode), s.mapNodes[p]? = some m →
        (m.rc.lt.lat + m.rc.rb.lat).toInt = m.rc.lt.lat.toInt + m.rc.rb.lat.toInt ∧
          (m.rc.lt.lon + m.rc.rb.lon).toInt = m.rc.lt.lon.toInt + m.rc.rb.lon.toInt) ∧
      ∀ rc iStatus iType iMaxCount fuel,
        s.getAroundData conf iStatus iType iMaxCount fuel (some s.pMapRoot) rc ⟨0, [], []⟩ ≠ .error .nullDeref := by
  obtain ⟨pre, s, hpre, hrun, hinv, hlast⟩ := runSets_last (inv_init conf iHashSize h0) ops
  refine ⟨pre, s, hpre, hrun, hlast, hinv.shape, fun p m hm => ?_, fun rc iStatus iType iMaxCount fuel => ?_⟩
  · exact (hinv.shape.node p m hm).ok.no_overflow
  · obtain ⟨m, hm, -⟩ := hinv.shape.top
    exact getAroundData_no_fault hinv hm

/-- A call for the id `id`, and the calls of the examples. -/
def setAt (id : Bytes) (hid : 0 ∉ id) (lat lon : NLADeg) (iStatus iType : Int32) : SetItem where
  id := ⟨id, hid⟩
  loc := ⟨lat, lon⟩
  iStatus := iStatus
  iType := iType
  now := 0

def setA (lat lon : NLADeg) : SetItem := setAt [97] CStr.noNul_a lat lon 0 0

def setB (lat lon : NLADeg) : SetItem := setAt [98] CStr.noNul_b lat lon 0 0

theorem runSets_shape_two_calls : ∃ pre s, pre <+: [setA 5 5, setA (-5) (-5)] ∧
    runSets ⟨2⟩ (initCoreData 1 Nat.one_pos) pre = .ok s ∧ Shape 2 s.mapNodes s.pMapRoot := by
  obtain ⟨pre, s, hpre, hrun, -, hshape, -⟩ := runSets_shape ⟨2⟩ 1 Nat.one_pos [setA 5 5, setA (-5) (-5)]
  exact ⟨pre, s, hpre, hrun, hshape⟩

/-! ## Back pointers -/

/-- Every item the id map holds names a leaf, and the rectangle of that leaf has the location of the item. -/
def BackPtr (conf : Conf) (s : NlaCoreData) : Prop :=
  ∀ (id : CStr) (d : Nat), s.getdatanode id = some d → ∃ (q : Nat) (k : NlaMapNode) (data : NlaDataItem),
    s.cell d = some q ∧ s.mapNodes[q]? = some k ∧ conf.nMapMaxLevel ≤ k.iLevel ∧ s.item d = some data ∧
      isLocInRC k.rc data.loc = true

theorem backPtr_init (conf : Conf) (iHashSize : Nat) (h0 : 0 < iHashSize) :
    BackPtr conf (initCoreData iHashSize h0) := by
  intro id d hd
  rw [getdatanode, initCoreData, smGetPtrvalue_smNew] at hd
  cases hd

/-- With back pointers a call returns. -/
theorem BackPtr.applySet (h : Inv conf s) (hb : BackPtr conf s) (op : SetItem) :
    ∃ s', Lookaround.applySet conf s op = .ok s' ∧ SetStep conf s op s' := by
  rcases applySet_cases h.sound conf op with hs | ⟨d, hd, hcell, -⟩
  · exact hs
  · obtain ⟨q, -, -, hq, -⟩ := hb op.id d hd
    rw [hcell] at hq
    cases hq

/-- **A call keeps the back pointers exactly when its location is in the root rectangle.** -/
theorem Effect.backPtr_iff {d : Nat} {data : NlaDataItem} (h : Inv conf s) (hb : BackPtr conf s)
    (hw : Effect conf s op s' d data) : BackPtr conf s' ↔ isLocInRC initRootRect op.loc = true := by
  constructor
  · intro hb'
    obtain ⟨q, k, data', -, hk, -, hd', hin⟩ := hb' op.id d hw.toWrote.get_self
    rw [hw.toWrote.item_self] at hd'
    cases hd'
    rw [hw.loc] at hin
    exact hw.shape.grid.isLocInRC_root hk hin
  intro hroot id e he
  rw [hw.get] at he
  by_cases hid : id = op.id
  · rw [hid, Function.update_self] at he
    cases he
    rcases hw.lists with ⟨q, k, -, hcell, hk, hin, hmaps, -, hcell'⟩ | hr
    · obtain ⟨k', hk', hL⟩ := h.cells d q hcell
      rw [hk] at hk'
      cases hk'
      exact ⟨q, k, data, by rw [hcell', hcell], by rw [hmaps, hk], hL, hw.toWrote.item_self, by rw [hw.loc]; exact hin⟩
    · cases hr with
      | leaf q k hk hL hin _ _ hcell =>
          exact ⟨q, k, data, by rw [hcell, Function.update_self], hk, hL, hw.toWrote.item_self,
            by rw [hw.loc]; exact hin hroot⟩
      | lost _ hout _ _ _ =>
          rw [hroot] at hout
          cases hout
  · rw [Function.update_of_ne hid] at he
    obtain ⟨q, k, data', hq, hk, hL, hd', hin⟩ := hb id e he
    have hne : e ≠ d := hw.toWrote.other h.sound hid he
    obtain ⟨k', hk', hrc, -, hlev, -⟩ := hw.keeps q k hk
    refine ⟨q, k', data', ?_, hk', by rw [hlev]; exact hL, ?_, by rw [hrc]; exact hin⟩
    · rw [hw.change.cell_of_ne hne, hq]
    · rw [hw.item, Function.update_of_ne hne, hd']

theorem SetStep.backPtr_iff (h : Inv conf s) (hb : BackPtr conf s) (hs : SetStep conf s op s') :
    BackPtr conf s' ↔ isLocInRC initRootRect op.loc = true := by
  obtain ⟨d, data, hw⟩ := hs.effect h
  exact hw.backPtr_iff h hb

/-- A call with a location in the root rectangle returns and keeps the invariants. -/
theorem applySet_inRoot (h : Inv conf s) (hb : BackPtr conf s) (hin : isLocInRC initRootRect op.loc = true) :
    ∃ s', applySet conf s op = .ok s' ∧ SetStep conf s op s' ∧ Inv conf s' ∧ BackPtr conf s' := by
  obtain ⟨s', hs, hstep⟩ := hb.applySet h op
  exact ⟨s', hs, hstep, hstep.inv h, (hstep.backPtr_iff h hb).mpr hin⟩

/-! ## The last write -/

/-- The first and the last call for an id. -/
def firstSet (ops : List SetItem) (id : CStr) : Option SetItem := ops.find? fun op => op.id = id

def lastSet (ops : List SetItem) (id : CStr) : Option SetItem := ops.reverse.find? fun op => op.id = id

theorem lastSet_concat (ops : List SetItem) (op : SetItem) :
    lastSet (ops ++ [op]) = Function.update (lastSet ops) op.id (some op) := by
  funext id
  rw [lastSet, List.reverse_append, List.reverse_singleton, List.singleton_append, List.find?_cons]
  by_cases hid : id = op.id
  · simp [hid]
  · rw [Function.update_of_ne hid]
    simp [Ne.symm hid, lastSet]

theorem firstSet_concat (ops : List SetItem) (op : SetItem) :
    firstSet (ops ++ [op]) = Function.update (firstSet ops) op.id (firstSet ops op.id <|> some op) := by
  funext id
  rw [firstSet, List.find?_append, List.find?_cons]
  by_cases hid : id = op.id
  · simp [hid, firstSet]
  · rw [Function.update_of_ne hid]
    simp [Ne.symm hid, firstSet]

theorem firstSet_eq_none_iff (ops : List SetItem) (id : CStr) : firstSet ops id = none ↔ lastSet ops id = none := by
  simp [firstSet, lastSet]

/-- Every id maps to the record of its last call, and an id without a call to NULL. -/
def LastWriteWins (s : NlaCoreData) (ops : List SetItem) : Prop :=
  ∀ id, match lastSet ops id with
    | none => s.getdatanode id = none
    | some op => ∃ d data, s.getdatanode id = some d ∧ s.item d = some data ∧ data.iStatus = op.iStatus ∧
        data.iType = op.iType ∧ data.loc = op.loc

/-- What a run leaves of the calls: the status and the type of the first, and the location of the last. -/
def Written (s : NlaCoreData) (ops : List SetItem) : Prop :=
  ∀ id, match firstSet ops id, lastSet ops id with
    | some first, some last => ∃ d data, s.getdatanode id = some d ∧ s.item d = some data ∧
        data.iStatus = first.iStatus ∧ data.iType = first.iType ∧ data.loc = last.loc
    | _, _ => s.getdatanode id = none

theorem SetStep.written {pre : List SetItem} (h : Inv conf s) (hw : Written s pre) (hs : SetStep conf s op s') :
    Written s' (pre ++ [op]) := by
  obtain ⟨d, data, heff⟩ := hs.effect h
  have hwr := heff.toWrote
  intro id
  rw [firstSet_concat, lastSet_concat]
  have hold := hw id
  by_cases hid : id = op.id
  · subst hid
    rw [Function.update_self, Function.update_self]
    have hnone := firstSet_eq_none_iff pre op.id
    cases hfirst : firstSet pre op.id with
    | none =>
        rw [hfirst] at hold
        refine ⟨d, data, hwr.get_self, hwr.item_self, ?_⟩
        rcases hwr.record with ⟨-, -, -, rfl⟩ | ⟨hsome, -⟩
        · exact ⟨rfl, rfl, rfl⟩
        · rw [hold] at hsome
          cases hsome
    | some first =>
        cases hlast : lastSet pre op.id with
        | none =>
            rw [hfirst, hlast] at hnone
            simp at hnone
        | some last =>
            rw [hfirst, hlast] at hold
            obtain ⟨e, data', he, hdata', hst, hty, -⟩ := hold
            refine ⟨d, data, hwr.get_self, hwr.item_self, ?_⟩
            rcases hwr.record with ⟨hn, -⟩ | ⟨hsome, -, old, hd, rfl⟩
            · rw [hn] at he
              cases he
            · rw [hsome] at he
              cases he
              rw [hd] at hdata'
              cases hdata'
              exact ⟨hst, hty, rfl⟩
  · rw [Function.update_of_ne hid, Function.update_of_ne hid, hwr.get, Function.update_of_ne hid, hwr.item]
    cases hfirst : firstSet pre id with
    | none =>
        rw [hfirst] at hold
        exact hold
    | some first =>
        cases hlast : lastSet pre id with
        | none =>
            rw [hfirst, hlast] at hold
            exact hold
        | some last =>
            rw [hfirst, hlast] at hold
            obtain ⟨e, data', he, hdata', hrest⟩ := hold
            exact ⟨e, data', he, by rw [Function.update_of_ne (hwr.other h.sound hid he), hdata'], hrest⟩

/-- A run of calls in the root rectangle returns, with the invariants and the record of what was written. -/
theorem runSets_inRoot (conf : Conf) (h0 : 0 < iHashSize) (hin : ∀ op ∈ ops, isLocInRC initRootRect op.loc = true) :
    ∃ s, runSets conf (initCoreData iHashSize h0) ops = .ok s ∧ Inv conf s ∧ BackPtr conf s ∧ Written s ops := by
  refine Library.run_induction (I := fun pre s => Inv conf s ∧ BackPtr conf s ∧ Written s pre) ?_
    (Library.everyStep_of_forall hin) fun pre s op hI hloc => ?_
  · refine ⟨inv_init conf iHashSize h0, backPtr_init conf iHashSize h0, fun id => ?_⟩
    change (initCoreData iHashSize h0).getdatanode id = none
    rw [getdatanode, initCoreData, smGetPtrvalue_smNew]
  · obtain ⟨hinv, hb, hw⟩ := hI
    obtain ⟨s', hs, hstep, hinv', hb'⟩ := applySet_inRoot hinv hb hloc
    exact ⟨s', hs, hinv', hb', hstep.written hinv hw⟩

/-- **The last write wins exactly when no id is set again with another status or type.** -/
theorem runSets_last_write (conf : Conf) (h0 : 0 < iHashSize) (hin : ∀ op ∈ ops, isLocInRC initRootRect op.loc = true) :
    ∃ s, runSets conf (initCoreData iHashSize h0) ops = .ok s ∧
      (LastWriteWins s ops ↔ ∀ id first last, firstSet ops id = some first → lastSet ops id = some last →
        first.iStatus = last.iStatus ∧ first.iType = last.iType) := by
  obtain ⟨s, hs, -, -, hw⟩ := runSets_inRoot conf h0 hin
  refine ⟨s, hs, fun hlww id first last hfirst hlast => ?_, fun hagree id => ?_⟩
  · have h1 := hlww id
    have h2 := hw id
    rw [hlast] at h1
    rw [hfirst, hlast] at h2
    obtain ⟨d, data, hd, hdata, hst, hty, -⟩ := h1
    obtain ⟨d', data', hd', hdata', hst', hty', -⟩ := h2
    rw [hd] at hd'
    cases hd'
    rw [hdata] at hdata'
    cases hdata'
    exact ⟨hst'.symm.trans hst, hty'.symm.trans hty⟩
  · have h2 := hw id
    have hnone := firstSet_eq_none_iff ops id
    cases hlast : lastSet ops id with
    | none =>
        rw [hnone.mpr hlast, hlast] at h2
        exact h2
    | some last =>
        cases hfirst : firstSet ops id with
        | none =>
            rw [hfirst, hlast] at hnone
            simp at hnone
        | some first =>
            rw [hfirst, hlast] at h2
            obtain ⟨d, data, hd, hdata, hst, hty, hloc⟩ := h2
            obtain ⟨e1, e2⟩ := hagree id first last hfirst hlast
            exact ⟨d, data, hd, hdata, hst.trans e1, hty.trans e2, hloc⟩

theorem runSets_last_write_moved : ∃ s, runSets ⟨2⟩ (initCoreData 1 Nat.one_pos) [setA 5 5, setA (-5) (-5)] = .ok s ∧
    LastWriteWins s [setA 5 5, setA (-5) (-5)] := by
  have hin : ∀ op ∈ [setA 5 5, setA (-5) (-5)], isLocInRC initRootRect op.loc = true := by decide
  obtain ⟨s, hs, hiff⟩ := runSets_last_write ⟨2⟩ Nat.one_pos hin
  refine ⟨s, hs, hiff.mpr fun id first last hfirst hlast => ?_⟩
  have hsame : ∀ op ∈ [setA 5 5, setA (-5) (-5)], op.iStatus = 0 ∧ op.iType = 0 := by decide
  obtain ⟨h1, h2⟩ := hsame first (List.mem_of_find?_eq_some hfirst)
  obtain ⟨h3, h4⟩ := hsame last (List.mem_reverse.mp (List.mem_of_find?_eq_some hlast))
  exact ⟨h1.trans h3.symm, h2.trans h4.symm⟩

/-- A second call with another status: the first status stays. -/
theorem last_write_lost : ∃ s,
    runSets ⟨1⟩ (initCoreData 1 Nat.one_pos) [setA 5 5, { setA 5 5 with iStatus := 1 }] = .ok s ∧
      ¬ LastWriteWins s [setA 5 5, { setA 5 5 with iStatus := 1 }] := by
  have hin : ∀ op ∈ [setA 5 5, { setA 5 5 with iStatus := 1 }], isLocInRC initRootRect op.loc = true := by decide
  obtain ⟨s, hs, -, -, hw⟩ := runSets_inRoot ⟨1⟩ Nat.one_pos hin
  refine ⟨s, hs, fun hlww => ?_⟩
  obtain ⟨d, data, hd, hdata, hst, -⟩ := hw (setA 5 5).id
  obtain ⟨d', data', hd', hdata', hst', -⟩ := hlww (setA 5 5).id
  rw [hd] at hd'
  cases hd'
  rw [hdata] at hdata'
  cases hdata'
  rw [hst] at hst'
  exact absurd hst' (by decide)

/-! ## Lists that end -/

/-- Following `next` from the head of any list reaches NULL. -/
def ListsEnd (s : NlaCoreData) : Prop := ∀ q : Nat, ∃ l, Library.Chain s.next (s.head q) l

theorem Inv.reaches_lt (h : Inv conf s) {d q : Nat} (hr : Library.Reaches s.next d (s.head q)) :
    d < s.dataNodes.length := by
  have hall : ∀ p, Library.Reaches s.next d p → (∀ e, p = some e → e < s.dataNodes.length) →
      d < s.dataNodes.length := by
    intro p hr
    induction hr with
    | here => exact fun hp => hp d rfl
    | @step b _ ih => exact fun _ => ih fun e he => h.nexts b e he
  exact hall _ hr fun e he => h.heads q e he

theorem Inv.listed (h : Inv conf s) {q : Nat} {l : List DataPtr} (hl : Library.Chain s.next (s.head q) l) :
    ∃ es, Listed s (s.head q) es := by
  refine exists_listed hl fun d hd => ?_
  have hlt := h.reaches_lt (hl.mem_iff_reaches.mp hd)
  exact ⟨_, item_of_getElem? (List.getElem?_eq_getElem hlt)⟩

/-- With lists that end, a query reads a finite tree. -/
theorem ListsEnd.represents (h : Inv conf s) (he : ListsEnd s) : ∃ t, Represents conf s s.pMapRoot t := by
  refine exists_represents (R := fun p => ∃ m, s.mapNodes[p]? = some m) (fun p hp => ?_) ?_
  · obtain ⟨m, hm⟩ := hp
    refine ⟨m, hm, fun _ => (h.shape.node p m hm).childs.imp id fun hc i => ?_, fun _ => ?_⟩
    · obtain ⟨c, k, h1, h2, h3, -⟩ := hc i
      exact ⟨c, k, h1, h2, h3, k, h2⟩
    · obtain ⟨l, hl⟩ := he p
      rw [← head_eq hm]
      exact h.listed hl
  · obtain ⟨m, hm, -⟩ := h.shape.top
    exact ⟨m, hm⟩

theorem ListsEnd.returns (h : Inv conf s) (he : ListsEnd s) (rc : NlaRect) (iStatus iType : Int32) (iMaxCount : Int) :
    ∃ ex, Returns conf s rc iStatus iType iMaxCount ex := by
  obtain ⟨t, ht⟩ := he.represents h
  obtain ⟨N, hN⟩ := getAroundData_represents iStatus iType iMaxCount ht
  exact ⟨_, N, hN N (le_refl N) rc _⟩

/-- A call that brings an item back: the item leaves its cell for a leaf whose list still leads to it. -/
def Returning (conf : Conf) (s : NlaCoreData) (op : SetItem) : Prop :=
  ∃ (d q : Nat) (k : NlaMapNode), s.getdatanode op.id = some d ∧ s.mapNodes[q]? = some k ∧
    conf.nMapMaxLevel ≤ k.iLevel ∧ isLocInRC k.rc op.loc = true ∧ s.cell d ≠ some q ∧
    Library.Reaches s.next d (s.head q)

/-- Linking a node in front of a list keeps the lists finite exactly when the list does not lead to the node. -/
theorem Relinked.listsEnd_iff {d : Nat} {loc : Nla2dloc} (hr : Relinked conf d loc s s') (he : ListsEnd s)
    (hin : isLocInRC initRootRect loc = true) : ∃ (q : Nat) (k : NlaMapNode), s'.mapNodes[q]? = some k ∧
      conf.nMapMaxLevel ≤ k.iLevel ∧ isLocInRC k.rc loc = true ∧
      (ListsEnd s' ↔ ¬ Library.Reaches s.next d (s.head q)) := by
  cases hr with
  | lost hL hout _ _ _ =>
      rw [hin] at hout
      cases hout
  | leaf q k hk hL hkin hhead hnext _ =>
      refine ⟨q, k, hk, hL, hkin hin, fun he' hreach => ?_, fun hnot r => ?_⟩
      · obtain ⟨l, hl⟩ := he' q
        rw [hnext, hhead, if_pos rfl] at hl
        exact Library.not_chain_of_reaches hreach hl
      · obtain ⟨l, hl⟩ := he q
        have hd : d ∉ l := fun hd => hnot (hl.mem_iff_reaches.mp hd)
        rw [hnext, hhead]
        split_ifs with hqr
        · exact ⟨d :: l, hl.push hd⟩
        · obtain ⟨l', hl'⟩ := he r
          exact hl'.redirect hl hd

/-- **A call in the root rectangle keeps the lists finite exactly when it does not bring an item back.** -/
theorem SetStep.listsEnd_iff (h : Inv conf s) (he : ListsEnd s) (hin : isLocInRC initRootRect op.loc = true)
    (hs : SetStep conf s op s') : ListsEnd s' ↔ ¬ Returning conf s op := by
  cases hs with
  | @create s1 hid hadd =>
      obtain ⟨q, k, -, -, -, hiff⟩ := (placed_create h hadd).lists.listsEnd_iff he hin
      rw [hiff]
      refine iff_of_true (fun hr => ?_) ?_
      · exact absurd (h.reaches_lt hr) (Nat.lt_irrefl _)
      · rintro ⟨d, -, -, hd, -⟩
        rw [hid] at hd
        cases hd
  | @inPlace d q k hid hcell hk hkin =>
      obtain ⟨data, hdata⟩ := h.item hid
      refine iff_of_true (fun r => ?_) ?_
      · rw [(views_inPlace hdata op.loc op.now).1]
        exact he r
      · rintro ⟨d', q', k', hd', hk', hL', hin', hne, -⟩
        rw [hid] at hd'
        cases hd'
        obtain ⟨k'', hk'', hL⟩ := h.cells d q hcell
        obtain rfl := Option.some.inj (hk.symm.trans hk'')
        exact hne (by rw [hcell, h.shape.leaf_unique hk hk' hL hL' hkin hin'])
  | @move d q k s1 hid hcell hk hout hadd =>
      obtain ⟨data, hdata⟩ := h.item hid
      have hp := placed_move h hdata hadd
      obtain ⟨r, kr, hkr, hLr, hinr, hiff⟩ := hp.lists.listsEnd_iff he hin
      rw [hiff, not_iff_not]
      constructor
      · intro hreach
        -- the list is not empty, so its leaf was there before
        cases hr : s.mapNodes[r]? with
        | none =>
            rw [head, hr, Option.bind_none] at hreach
            cases hreach
        | some k0 =>
            obtain ⟨k1, hk1, hrc, -, hlev, -⟩ := hp.keeps r k0 hr
            obtain rfl := Option.some.inj (hkr.symm.trans hk1)
            refine ⟨d, r, k0, hid, hr, by rw [← hlev]; exact hLr, by rw [← hrc]; exact hinr, fun hc => ?_, hreach⟩
            rw [hcell] at hc
            cases hc
            obtain rfl := Option.some.inj (hk.symm.trans hr)
            rw [hrc, hout] at hinr
            cases hinr
      · rintro ⟨d', q', k', hd', hk', hL', hin', -, hreach⟩
        rw [hid] at hd'
        cases hd'
        obtain ⟨k1, hk1, hrc, -, hlev, -⟩ := hp.keeps q' k' hk'
        rw [hp.shape.leaf_unique hkr hk1 hLr (by rw [hlev]; exact hL') hinr (by rw [hrc]; exact hin')]
        exact hreach

theorem listsEnd_init (iHashSize : Nat) (h0 : 0 < iHashSize) : ListsEnd (initCoreData iHashSize h0) := by
  intro q
  refine ⟨[], ?_⟩
  cases hq : (initCoreData iHashSize h0).head q with
  | none => exact .nil
  | some e => exact absurd ((inv_init ⟨0⟩ iHashSize h0).heads q e hq) (Nat.not_lt_zero e)

theorem runSets_listsEnd (h0 : 0 < iHashSize) (hin : ∀ op ∈ ops, isLocInRC initRootRect op.loc = true)
    (hsteps : Library.EveryStep (applySet conf) (fun s op => ¬ Returning conf s op) (initCoreData iHashSize h0) ops) :
    ∃ s, runSets conf (initCoreData iHashSize h0) ops = .ok s ∧ Inv conf s ∧ BackPtr conf s ∧ ListsEnd s := by
  refine Library.run_induction (I := fun _ s => Inv conf s ∧ BackPtr conf s ∧ ListsEnd s)
    ⟨inv_init conf iHashSize h0, backPtr_init conf iHashSize h0, listsEnd_init iHashSize h0⟩
    ((Library.everyStep_of_forall hin).and hsteps) fun _ s op hI hP => ?_
  obtain ⟨hinv, hb, he⟩ := hI
  obtain ⟨s', hs', hstep, hinv', hb'⟩ := applySet_inRoot hinv hb hP.1
  exact ⟨s', hs', hinv', hb', (hstep.listsEnd_iff hinv he hP.1).mpr hP.2⟩

/-- **Queries end in every state of a run exactly when no call of the run brings an item back.** -/
theorem runSets_lists_end (h0 : 0 < iHashSize) (hin : ∀ op ∈ ops, isLocInRC initRootRect op.loc = true) :
    (∀ pre, pre <+: ops → ∃ s, runSets conf (initCoreData iHashSize h0) pre = .ok s ∧
      (∀ (p : Nat) (m : NlaMapNode), s.mapNodes[p]? = some m → ∃ l, Library.Chain s.next m.pDataNode l) ∧
      ∀ rc iStatus iType iMaxCount, ∃ ex, Returns conf s rc iStatus iType iMaxCount ex) ↔
    Library.EveryStep (applySet conf) (fun s op => ¬ Returning conf s op) (initCoreData iHashSize h0) ops := by
  -- the lists of the nodes that exist are all the lists
  have hends : ∀ {s : NlaCoreData}, (∀ (p : Nat) (m : NlaMapNode), s.mapNodes[p]? = some m →
      ∃ l, Library.Chain s.next m.pDataNode l) → ListsEnd s := by
    intro s hl q
    cases hq : s.mapNodes[q]? with
    | none => exact ⟨[], by rw [head, hq]; exact .nil⟩
    | some k =>
        rw [head_eq hq]
        exact hl q k hq
  constructor
  · intro hall
    refine Library.everyStep_of_prefixes fun pre op s hpre hrun => ?_
    have hop := hin op (hpre.subset (by simp))
    have hpres : ∀ o ∈ pre, isLocInRC initRootRect o.loc = true := fun o ho => hin o (hpre.subset (by simp [ho]))
    obtain ⟨t, ht, hinv, hb, -⟩ := runSets_inRoot conf h0 hpres
    obtain rfl := Except.ok.inj (hrun.symm.trans ht)
    obtain ⟨s1, hs1, hl1, -⟩ := hall pre ((List.prefix_append pre [op]).trans hpre)
    obtain rfl := Except.ok.inj (hrun.symm.trans hs1)
    obtain ⟨s2, hs2, hl2, -⟩ := hall (pre ++ [op]) hpre
    obtain ⟨s', hs', hstep, -, -⟩ := applySet_inRoot hinv hb hop
    have hs2' : runSets conf (initCoreData iHashSize h0) (pre ++ [op]) = .ok s' := by
      rw [runSets, Library.run_append_ok hrun, Library.run_cons hs']
      rfl
    obtain rfl := Except.ok.inj (hs2.symm.trans hs2')
    exact (hstep.listsEnd_iff hinv (hends hl1) hop).mp (hends hl2)
  · rintro hsteps pre ⟨post, rfl⟩
    obtain ⟨s, hs, hinv, -, he⟩ :=
      runSets_listsEnd h0 (fun op hop => hin op (List.mem_append_left post hop)) hsteps.left
    refine ⟨s, hs, fun p m hm => ?_, he.returns hinv⟩
    rw [← head_eq hm]
    exact he p

theorem runSets_lists_end_one_call : ∃ s, runSets ⟨1⟩ (initCoreData 1 Nat.one_pos) [setA 5 5] = .ok s ∧
      (∀ (p : Nat) (m : NlaMapNode), s.mapNodes[p]? = some m → ∃ l, Library.Chain s.next m.pDataNode l) ∧
      ∀ rc iStatus iType iMaxCount, ∃ ex, Returns ⟨1⟩ s rc iStatus iType iMaxCount ex := by
  have hin : ∀ op ∈ [setA 5 5], isLocInRC initRootRect op.loc = true := by decide
  refine (runSets_lists_end Nat.one_pos hin).mpr ⟨?_, fun _ _ => trivial⟩ [setA 5 5] (List.prefix_refl _)
  rintro ⟨d, -, -, hd, -⟩
  rw [getdatanode, initCoreData, smGetPtrvalue_smNew] at hd
  cases hd

/-- The leaf loop does not end on a node that is its own successor and does not pass. -/
theorem leafLoop_cycle {rc : NlaRect} {iStatus iType : Int32} {iMaxCount : Int} {ex : NlaExParam} {d : Nat}
    {n : NlaDataNode} (hn : s.dataNodes[d]? = some n) (hnext : n.next = some d)
    (hp : passes rc iStatus iType n.data = false) (hc : ex.count < iMaxCount) (fuel : Nat) :
    s.leafLoop rc iStatus iType iMaxCount fuel (some d) ex = .error .outOfFuel := by
  induction fuel with
  | zero => rfl
  | succ fuel ih =>
      unfold leafLoop
      rw [if_pos hc]
      simp only [bind, Except.bind, dataAt_ok hn, hnext, hp]
      exact ih

/-- A query whose first child is a leaf with such a list does not return. -/
theorem not_returns_of_cycle {rc newRc : NlaRect} {iStatus iType : Int32} {iMaxCount : Int} {c d : Nat}
    {m k : NlaMapNode} {n : NlaDataNode} (hm : s.mapNodes[s.pMapRoot]? = some m) (hmc : m.iItemCount ≠ 0)
    (hmL : m.iLevel < conf.nMapMaxLevel) (hc : m.apChilds 0 = some c) (hk : s.mapNodes[c]? = some k)
    (hkc : k.iItemCount ≠ 0) (hkL : conf.nMapMaxLevel ≤ k.iLevel) (hr : intersectRc k.rc rc = some newRc)
    (hkd : k.pDataNode = some d) (hn : s.dataNodes[d]? = some n) (hnext : n.next = some d)
    (hp : passes newRc iStatus iType n.data = false) (hmax : 0 < iMaxCount) (ex : NlaExParam) :
    ¬ Returns conf s rc iStatus iType iMaxCount ex := by
  rintro ⟨fuel, hf⟩
  have hmore := getAroundData_mono (Nat.le_add_right fuel 2) hf
  have hleaf : s.getAroundData conf iStatus iType iMaxCount (fuel + 1) (some c) newRc ⟨0, [], []⟩ =
      .error .outOfFuel := by
    rw [getAroundData, mapAt_ok hk]
    simp only [bind, Except.bind, if_neg hkc, if_pos hkL, hkd]
    exact leafLoop_cycle hn hnext hp hmax fuel
  rw [getAroundData, mapAt_ok hm] at hmore
  simp only [bind, Except.bind, if_neg hmc, if_neg (not_le.mpr hmL), hc, reduceCtorEq, if_false, List.foldlM_cons,
    nonNull, mapAt_ok hk, hr, hleaf] at hmore

/-- An item that leaves its cell and comes back: its list does not end, and a query no item passes does not return. -/
theorem runSets_back_and_forth : ∃ s,
    runSets ⟨1⟩ (initCoreData 1 Nat.one_pos) [setA 5 5, setA (-5) (-5), setA 5 5] = .ok s ∧
      (∃ (p : Nat) (m : NlaMapNode), s.mapNodes[p]? = some m ∧ ∀ l, ¬ Library.Chain s.next m.pDataNode l) ∧
      ∀ ex, ¬ Returns ⟨1⟩ s initRootRect (-1) 7 1 ex := by
  refine ⟨_, rfl, ⟨4, _, rfl, fun l hl => ?_⟩, ?_⟩
  · have hnd := hl.nodup
    cases hl with
    | cons hl => exact (List.nodup_cons.mp hnd).1 (hl.mem_iff_reaches.mpr .here)
  · exact not_returns_of_cycle rfl (by decide) (by decide) rfl rfl (by decide) (by decide) rfl rfl rfl rfl rfl
      (by decide)

end Lookaround
