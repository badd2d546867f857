import Lookaround.Runs

/-!
# Every query selects from a wider one

A query is given by a rectangle, two filters and a count. It walks the tree, clips its rectangle at each child and stops
at its count. What it prints is still only a selection from what a wider query prints, in the same order; this needs no
invariant, so it also holds of an index that moves have spoilt.

* `NlaRect.Inside` : a rectangle inside another one, corner by corner;
* `Narrows` : the two rectangles at a node, and the rectangle the narrow query started with;
* `Selects` : a part of the wide query, and the same part of the narrow one;
* `getAroundData_selects` : the narrow query prints the first of the items of the wide one that pass its tests.
-/

namespace Lookaround

open NlaCoreData

/-! ## Rectangles -/

/-- Corner by corner. -/
structure NlaRect.Inside (rc wide : NlaRect) : Prop where
  ltLat : wide.lt.lat.toInt ≤ rc.lt.lat.toInt
  ltLon : wide.lt.lon.toInt ≤ rc.lt.lon.toInt
  rbLat : rc.rb.lat.toInt ≤ wide.rb.lat.toInt
  rbLon : rc.rb.lon.toInt ≤ wide.rb.lon.toInt

theorem NlaRect.Inside.refl (rc : NlaRect) : rc.Inside rc := ⟨le_rfl, le_rfl, le_rfl, le_rfl⟩

/-- `fn_b_IntersectRc` is `FALSE`. -/
theorem intersectRc_eq_none_iff {rc1 rc2 : NlaRect} : intersectRc rc1 rc2 = none ↔
    rc2.rb.lat.toInt ≤ rc1.lt.lat.toInt ∨ rc1.rb.lat.toInt ≤ rc2.lt.lat.toInt ∨ rc1.rb.lon.toInt ≤ rc2.lt.lon.toInt ∨
      rc2.rb.lon.toInt ≤ rc1.lt.lon.toInt := by
  unfold intersectRc
  simp only [ge_iff_le, Bool.or_eq_true, decide_eq_true_eq, Int32.le_iff_toInt_le]
  split_ifs with h
  · simpa [or_assoc] using h
  · simpa [or_assoc] using h

/-- `NLA_MAX` and `NLA_MIN`. -/
theorem toInt_max (a b : NLADeg) : (if a > b then a else b).toInt = max a.toInt b.toInt := by
  simp only [gt_iff_lt, Int32.lt_iff_toInt_lt]
  split_ifs <;> omega

theorem toInt_min (a b : NLADeg) : (if a < b then a else b).toInt = min a.toInt b.toInt := by
  simp only [Int32.lt_iff_toInt_lt]
  split_ifs <;> omega

/-- The corners of a clipped rectangle. -/
theorem intersectRc_corners {rc1 rc2 rc : NlaRect} (h : intersectRc rc1 rc2 = some rc) :
    rc.lt.lat.toInt = max rc1.lt.lat.toInt rc2.lt.lat.toInt ∧ rc.lt.lon.toInt = max rc1.lt.lon.toInt rc2.lt.lon.toInt ∧
      rc.rb.lat.toInt = min rc1.rb.lat.toInt rc2.rb.lat.toInt ∧
      rc.rb.lon.toInt = min rc1.rb.lon.toInt rc2.rb.lon.toInt := by
  unfold intersectRc at h
  split at h
  · cases h
  · cases h
    exact ⟨toInt_max _ _, toInt_max _ _, toInt_min _ _, toInt_min _ _⟩

theorem NlaRect.Inside.clip {c rc wide rc' wide' : NlaRect} (h : rc.Inside wide) (hrc : intersectRc c rc = some rc')
    (hwide : intersectRc c wide = some wide') : rc'.Inside wide' := by
  obtain ⟨h1, h2, h3, h4⟩ := intersectRc_corners hrc
  obtain ⟨w1, w2, w3, w4⟩ := intersectRc_corners hwide
  obtain ⟨hlat, hlon, hlat', hlon'⟩ := h
  constructor <;> omega

theorem NlaRect.Inside.intersectRc_eq_none {c rc wide : NlaRect} (h : rc.Inside wide) (hwide : intersectRc c wide = none) :
    intersectRc c rc = none := by
  obtain ⟨hlat, hlon, hlat', hlon'⟩ := h
  rw [intersectRc_eq_none_iff] at hwide ⊢
  omega

theorem isLocInRC_of_inside {rc wide : NlaRect} (h : rc.Inside wide) {loc : Nla2dloc} (hloc : isLocInRC rc loc = true) :
    isLocInRC wide loc = true := by
  obtain ⟨hlat, hlon, hlat', hlon'⟩ := h
  rw [isLocInRC_iff] at hloc ⊢
  omega

/-- Where the two queries stand: the clipped rectangle `rc` is in `wide`, and there it tests what `rc0` tests. -/
structure Narrows (rc0 rc wide : NlaRect) : Prop where
  inside : rc.Inside wide
  test : ∀ loc, isLocInRC wide loc = true → (isLocInRC rc loc = true ↔ isLocInRC rc0 loc = true)

variable {c rc0 rc wide rc' wide' : NlaRect}

theorem Narrows.clip (h : Narrows rc0 rc wide) (hrc : intersectRc c rc = some rc')
    (hwide : intersectRc c wide = some wide') : Narrows rc0 rc' wide' := by
  refine ⟨h.inside.clip hrc hwide, fun loc hloc => ?_⟩
  obtain ⟨hc, hw⟩ := (mem_intersectRc c wide loc).mp ⟨wide', hwide, hloc⟩
  rw [← h.test loc hw]
  constructor
  · intro hin
    exact ((mem_intersectRc c rc loc).mp ⟨rc', hrc, hin⟩).2
  · intro hin
    obtain ⟨rc'', hrc'', hin'⟩ := (mem_intersectRc c rc loc).mpr ⟨hc, hin⟩
    rwa [Option.some.inj (hrc.symm.trans hrc'')]

/-- Nothing of a child the narrow query does not enter passes its test. -/
theorem Narrows.not_test (h : Narrows rc0 rc wide) (hrc : intersectRc c rc = none)
    (hwide : intersectRc c wide = some wide') {loc : Nla2dloc} (hloc : isLocInRC wide' loc = true) :
    isLocInRC rc0 loc ≠ true := by
  intro hin
  obtain ⟨hc, hw⟩ := (mem_intersectRc c wide loc).mp ⟨wide', hwide, hloc⟩
  obtain ⟨rc'', hrc'', -⟩ := (mem_intersectRc c rc loc).mpr ⟨hc, (h.test loc hw).mpr hin⟩
  rw [hrc] at hrc''
  cases hrc''

/-! ## Parts of a query -/

section Selects

variable {conf : Conf} {s : NlaCoreData} {iStatus iType iStatus0 iType0 : Int32} {iMaxCount iMaxCount0 : Int}
  {ex ex' ex'' : NlaExParam} {f g : NlaExParam → Except Fault NlaExParam}

/-- From `ex` to `ex'` the wide query prints the records `l`, all in its rectangle; the same part of the narrow query,
`f`, prints the first of `l` that pass, as far as its count allows. -/
def Selects (s : NlaCoreData) (rc0 wide : NlaRect) (iStatus iType : Int32) (iMaxCount : Int) (ex ex' : NlaExParam)
    (f : NlaExParam → Except Fault NlaExParam) : Prop :=
  ∃ l : List Entry, ex' = ex.emitAll l ∧ (∀ e ∈ l, s.item e.1 = some e.2 ∧ isLocInRC wide e.2.loc = true) ∧
    ∀ exn, f exn =
      .ok (exn.emitAll ((l.filter fun e => passes rc0 iStatus iType e.2).take (iMaxCount - exn.count).toNat))

theorem Selects.refl (hf : ∀ exn, f exn = .ok exn) : Selects s rc0 wide iStatus iType iMaxCount ex ex f := by
  refine ⟨[], rfl, fun _ he => absurd he List.not_mem_nil, fun exn => ?_⟩
  rw [hf, List.filter_nil, List.take_nil]
  rfl

theorem Selects.trans (h : Selects s rc0 wide iStatus iType iMaxCount ex ex' f)
    (h' : Selects s rc0 wide iStatus iType iMaxCount ex' ex'' g) :
    Selects s rc0 wide iStatus iType iMaxCount ex ex'' fun exn => f exn >>= g := by
  obtain ⟨l, rfl, hl, hf⟩ := h
  obtain ⟨l', rfl, hl', hg⟩ := h'
  refine ⟨l ++ l', (emitAll_append ex l l').symm, fun e he => ?_, fun exn => ?_⟩
  · rcases List.mem_append.mp he with he | he
    · exact hl e he
    · exact hl' e he
  · show f exn >>= g = _
    rw [List.filter_append, emitAll_take_append, hf]
    exact hg _

theorem Selects.congr (h : Selects s rc0 wide iStatus iType iMaxCount ex ex' f) (hfg : ∀ exn, g exn = f exn) :
    Selects s rc0 wide iStatus iType iMaxCount ex ex' g := by
  rwa [show g = f from funext hfg]

theorem Selects.count_le (h : Selects s rc0 wide iStatus iType iMaxCount ex ex' f) : ex.count ≤ ex'.count := by
  obtain ⟨l, rfl, -⟩ := h
  rw [count_emitAll]
  omega

/-- A part of the wide query with nothing that passes the tests of the narrow one. -/
theorem Selects.skip {l : List Entry} (hl : ex' = ex.emitAll l)
    (hwide : ∀ e ∈ l, s.item e.1 = some e.2 ∧ isLocInRC wide e.2.loc = true)
    (hno : ∀ e ∈ l, isLocInRC rc0 e.2.loc ≠ true) (hf : ∀ exn, f exn = .ok exn) :
    Selects s rc0 wide iStatus iType iMaxCount ex ex' f := by
  refine ⟨l, hl, hwide, fun exn => ?_⟩
  have hnil : (l.filter fun e => passes rc0 iStatus iType e.2) = [] := by
    rw [List.filter_eq_nil_iff]
    intro e he hpass
    exact hno e he (passes_iff.mp hpass).2.2
  rw [hf, hnil, List.take_nil]
  rfl

/-- A filter that is given in the wide query is given in the narrow one. -/
def Finer (filter filter0 : Int32) : Prop := filter0 = invalidFilter ∨ filter0 = filter

/-- What the narrow query prints, the wide one prints, too. -/
theorem passes_wide (hst : Finer iStatus iStatus0) (hty : Finer iType iType0) {data : NlaDataItem}
    (hwide : isLocInRC wide data.loc = true) (h : passes rc iStatus iType data = true) :
    passes wide iStatus0 iType0 data = true := by
  obtain ⟨htype, hstatus, -⟩ := passes_iff.mp h
  refine passes_iff.mpr ⟨?_, ?_, hwide⟩
  · rcases hty with hty | rfl
    · exact Or.inl hty
    · exact htype
  · rcases hst with hst | rfl
    · exact Or.inl hst
    · exact hstatus

/-- In the wide rectangle the narrow query tests what it started with. -/
theorem Narrows.passes_iff (h : Narrows rc0 rc wide) {data : NlaDataItem} (hwide : isLocInRC wide data.loc = true) :
    passes rc iStatus iType data = passes rc0 iStatus iType data := by
  have htest := h.test _ hwide
  rw [Bool.eq_iff_iff, Lookaround.passes_iff, Lookaround.passes_iff, htest]

/-- One round of the leaf loop of the narrow query, behind which it goes on with `f`. -/
theorem leafLoop_round (hn : Narrows rc0 rc wide) (hst : Finer iStatus iStatus0) (hty : Finer iType iType0) {d : DataPtr}
    {n : NlaDataNode} (hitem : s.item d = some n.data)
    (h : Selects s rc0 wide iStatus iType iMaxCount (if passes wide iStatus0 iType0 n.data then emit ex d n.data else ex) ex'
      f) :
    Selects s rc0 wide iStatus iType iMaxCount ex ex' fun exn =>
      if exn.count < iMaxCount then f (if passes rc iStatus iType n.data then emit exn d n.data else exn) else .ok exn := by
  obtain ⟨l, hex, hwide, hf⟩ := h
  have hfull : ∀ exn : NlaExParam, ¬ exn.count < iMaxCount → (iMaxCount - exn.count).toNat = 0 := fun exn hc => by omega
  cases hw : passes wide iStatus0 iType0 n.data with
  | true =>
      have hin : isLocInRC wide n.data.loc = true := (passes_iff.mp hw).2.2
      rw [hw, if_pos rfl] at hex
      refine ⟨(d, n.data) :: l, by rw [hex, emitAll_cons], fun e he => ?_, fun exn => ?_⟩
      · rcases List.mem_cons.mp he with rfl | he
        · exact ⟨hitem, hin⟩
        · exact hwide e he
      · by_cases hc : exn.count < iMaxCount
        · simp only [if_pos hc, hn.passes_iff hin]
          cases hp : passes rc0 iStatus iType n.data with
          | true =>
              have hk : (iMaxCount - exn.count).toNat = (iMaxCount - (emit exn d n.data).count).toNat + 1 := by
                simp only [emit]
                omega
              rw [if_pos rfl, hf, List.filter_cons_of_pos (by simp [hp]), hk, List.take_succ_cons, emitAll_cons]
          | false => rw [if_neg Bool.false_ne_true, hf, List.filter_cons_of_neg (by simp [hp])]
        · simp only [if_neg hc, hfull exn hc, List.take_zero, emitAll_nil]
  | false =>
      rw [hw, if_neg Bool.false_ne_true] at hex
      refine ⟨l, hex, hwide, fun exn => ?_⟩
      -- what the wide query does not print the narrow one does not print either
      have hp : passes rc iStatus iType n.data = false := by
        by_contra hp
        rw [Bool.not_eq_false] at hp
        have hin := isLocInRC_of_inside hn.inside (passes_iff.mp hp).2.2
        rw [passes_wide hst hty hin hp] at hw
        cases hw
      by_cases hc : exn.count < iMaxCount
      · simp only [if_pos hc, hp, Bool.false_eq_true, if_false, hf]
      · simp only [if_neg hc, hfull exn hc, List.take_zero, emitAll_nil]

/-- The leaf loop. -/
theorem leafLoop_selects (hn : Narrows rc0 rc wide) (hst : Finer iStatus iStatus0) (hty : Finer iType iType0) {fuel : Nat}
    {q : Option DataPtr} (h : s.leafLoop wide iStatus0 iType0 iMaxCount0 fuel q ex = .ok ex')
    (hroom : ex'.count < iMaxCount0) :
    Selects s rc0 wide iStatus iType iMaxCount ex ex' (s.leafLoop rc iStatus iType iMaxCount fuel q) := by
  induction fuel generalizing q ex with
  | zero => cases h
  | succ fuel ih =>
      have hcount : ex.count < iMaxCount0 := by
        obtain ⟨l, hex, -⟩ := leafLoop_prints h
        rw [hex, count_emitAll] at hroom
        omega
      unfold leafLoop at h
      rw [if_pos hcount] at h
      cases q with
      | none =>
          cases h
          apply Selects.refl
          intro exn
          unfold leafLoop
          split_ifs <;> rfl
      | some d =>
          obtain ⟨n, hd, h⟩ := Library.bind_eq_ok.mp h
          have hitem : s.item d = some n.data := by rw [item, getElem?_of_dataAt hd, Option.map_some]
          apply (leafLoop_round hn hst hty hitem (ih h)).congr
          intro exn
          conv_lhs => unfold leafLoop
          simp only [hd]
          rfl

theorem foldlM_selects {f g : NlaExParam → Fin 4 → Except Fault NlaExParam}
    (hfg : ∀ ex i ex', f ex i = .ok ex' → ex'.count < iMaxCount0 →
      Selects s rc0 wide iStatus iType iMaxCount ex ex' fun exn => g exn i)
    {is : List (Fin 4)} (h : is.foldlM f ex = .ok ex') (hroom : ex'.count < iMaxCount0) :
    Selects s rc0 wide iStatus iType iMaxCount ex ex' (is.foldlM g) := by
  induction is generalizing ex with
  | nil =>
      cases h
      exact .refl fun _ => rfl
  | cons i is ih =>
      rw [List.foldlM_cons] at h
      obtain ⟨ex1, h1, h⟩ := Library.bind_eq_ok.mp h
      have hrest := ih h
      apply ((hfg ex i ex1 h1 (lt_of_le_of_lt hrest.count_le hroom)).trans hrest).congr
      intro exn
      rw [List.foldlM_cons]

/-- The test before a child is entered. -/
def enterChild (s : NlaCoreData) (child : Option MapPtr) (rc : NlaRect)
    (go : MapPtr → NlaRect → NlaExParam → Except Fault NlaExParam) (ex : NlaExParam) : Except Fault NlaExParam := do
  let p ← nonNull child
  let c ← s.mapAt p
  match intersectRc c.rc rc with
  | none => return ex
  | some newRc => go p newRc ex

/-- A child of the node at which the queries stand: the narrow query enters it only where the wide one does. -/
theorem enterChild_selects (hn : Narrows rc0 rc wide) {child : Option MapPtr}
    {go gon : MapPtr → NlaRect → NlaExParam → Except Fault NlaExParam}
    (hgo : ∀ p rc' wide', Narrows rc0 rc' wide' → go p wide' ex = .ok ex' →
      Selects s rc0 wide' iStatus iType iMaxCount ex ex' (gon p rc'))
    (hprints : ∀ p wide', go p wide' ex = .ok ex' → Prints s wide' iStatus0 iType0 ex ex')
    (h : enterChild s child wide go ex = .ok ex') :
    Selects s rc0 wide iStatus iType iMaxCount ex ex' (enterChild s child rc gon) := by
  obtain ⟨p, hp, h⟩ := Library.bind_eq_ok.mp h
  obtain ⟨c, hc, h⟩ := Library.bind_eq_ok.mp h
  have hrun : ∀ exn, enterChild s child rc gon exn =
      match intersectRc c.rc rc with
      | none => .ok exn
      | some newRc => gon p newRc exn := by
    intro exn
    simp only [enterChild, hp, hc, bind, Except.bind]
    rfl
  cases hwide : intersectRc c.rc wide with
  | none =>
      simp only [hwide] at h
      cases h
      apply Selects.refl
      intro exn
      rw [hrun, hn.inside.intersectRc_eq_none hwide]
  | some wide' =>
      simp only [hwide] at h
      have hsub : ∀ loc, isLocInRC wide' loc = true → isLocInRC wide loc = true := fun loc hloc =>
        ((mem_intersectRc c.rc wide loc).mp ⟨wide', hwide, hloc⟩).2
      cases hrc : intersectRc c.rc rc with
      | none =>
          obtain ⟨l, hl, hpass⟩ := hprints p wide' h
          have hin : ∀ e ∈ l, isLocInRC wide' e.2.loc = true := fun e he => (passes_iff.mp (hpass e he).2).2.2
          apply Selects.skip hl (fun e he => ⟨(hpass e he).1, hsub _ (hin e he)⟩) (fun e he => hn.not_test hrc hwide (hin e he))
          intro exn
          rw [hrun, hrc]
      | some rc' =>
          obtain ⟨l, hl, hin, hf⟩ := hgo p rc' wide' (hn.clip hrc hwide) h
          refine ⟨l, hl, fun e he => ⟨(hin e he).1, hsub _ (hin e he).2⟩, fun exn => ?_⟩
          rw [hrun, hrc]
          exact hf exn

/-- The part of a query below a node. -/
theorem getAroundData_part (hst : Finer iStatus iStatus0) (hty : Finer iType iType0) {fuel : Nat} {p : Option MapPtr}
    (hn : Narrows rc0 rc wide) (h : s.getAroundData conf iStatus0 iType0 iMaxCount0 fuel p wide ex = .ok ex')
    (hroom : ex'.count < iMaxCount0) :
    Selects s rc0 wide iStatus iType iMaxCount ex ex' (s.getAroundData conf iStatus iType iMaxCount fuel p rc) := by
  induction fuel generalizing p rc wide ex ex' with
  | zero => cases h
  | succ fuel ih =>
      cases p with
      | none =>
          cases h
          exact .refl fun _ => rfl
      | some p =>
          rw [getAroundData] at h
          obtain ⟨m, hm, h⟩ := Library.bind_eq_ok.mp h
          -- both queries read the same node and take the same branch
          split_ifs at h with hzero hleaf hbare
          · cases h
            apply Selects.refl
            intro exn
            rw [getAroundData, hm]
            exact if_pos hzero
          · apply (leafLoop_selects hn hst hty h hroom).congr
            intro exn
            rw [getAroundData, hm]
            exact (if_neg hzero).trans (if_pos hleaf)
          · cases h
            apply Selects.refl
            intro exn
            rw [getAroundData, hm]
            exact (if_neg hzero).trans ((if_neg hleaf).trans (if_pos hbare))
          · have hchild : ∀ ex i ex', enterChild s (m.apChilds i) wide (fun p newRc =>
                s.getAroundData conf iStatus0 iType0 iMaxCount0 fuel (some p) newRc) ex = .ok ex' →
                ex'.count < iMaxCount0 →
                Selects s rc0 wide iStatus iType iMaxCount ex ex' (enterChild s (m.apChilds i) rc fun p newRc =>
                  s.getAroundData conf iStatus iType iMaxCount fuel (some p) newRc) :=
              fun ex i ex' hi hroom => enterChild_selects hn (fun p rc' wide' hn' hgo => ih hn' hgo hroom)
                (fun p wide' => getAroundData_prints) hi
            apply (foldlM_selects hchild h hroom).congr
            intro exn
            rw [getAroundData, hm]
            exact (if_neg hzero).trans ((if_neg hleaf).trans (if_neg hbare))

/-- Records are given by their nodes. -/
theorem entries_eq {l l' : List Entry} (hl : ∀ e ∈ l, s.item e.1 = some e.2) (hl' : ∀ e ∈ l', s.item e.1 = some e.2)
    (h : l.map Prod.fst = l'.map Prod.fst) : l = l' := by
  induction l generalizing l' with
  | nil =>
      rw [List.map_nil, eq_comm, List.map_eq_nil_iff] at h
      exact h.symm
  | cons e l ih =>
      cases l' with
      | nil => cases h
      | cons e' l' =>
          obtain ⟨hfst, hrest⟩ := List.cons.inj h
          have hdata := hl e List.mem_cons_self
          rw [hfst, hl' e' List.mem_cons_self] at hdata
          rw [Prod.ext hfst (Option.some.inj hdata).symm, ih (fun f hf => hl f (List.mem_cons_of_mem _ hf))
            (fun f hf => hl' f (List.mem_cons_of_mem _ hf)) hrest]

/-- **Every query selects from a wider one.** In any state and for any node: when a query returns below its count, there
is one list of records that it prints, and every query with a rectangle inside its rectangle and with its filters or
finer ones returns in the same fuel and prints, in the same order, the first of these records that pass its own tests,
as many as its own count allows. -/
theorem getAroundData_selects {fuel : Nat} {p : Option MapPtr}
    (h : s.getAroundData conf iStatus0 iType0 iMaxCount0 fuel p wide ⟨0, [], []⟩ = .ok ex)
    (hroom : ex.count < iMaxCount0) :
    ∃ l : List Entry, ex = NlaExParam.emitAll ⟨0, [], []⟩ l ∧ (∀ e ∈ l, s.item e.1 = some e.2) ∧
      ∀ (rc : NlaRect) (iStatus iType : Int32) (iMaxCount : Int), rc.Inside wide → Finer iStatus iStatus0 →
        Finer iType iType0 → s.getAroundData conf iStatus iType iMaxCount fuel p rc ⟨0, [], []⟩ =
          .ok (NlaExParam.emitAll ⟨0, [], []⟩
            ((l.filter fun e => passes rc iStatus iType e.2).take iMaxCount.toNat)) := by
  obtain ⟨l, rfl, hitem⟩ := getAroundData_emits h
  refine ⟨l, rfl, hitem, fun rc iStatus iType iMaxCount hin hst hty => ?_⟩
  have hpart : Selects s rc wide iStatus iType iMaxCount _ _ _ :=
    getAroundData_part hst hty ⟨hin, fun _ _ => Iff.rfl⟩ h hroom
  obtain ⟨l', hl', hitem', hf⟩ := hpart
  obtain rfl : l = l' := by
    apply entries_eq hitem fun e he => (hitem' e he).1
    simpa [emitted_emitAll] using congrArg NlaExParam.emitted hl'
  rw [hf]
  simp only [sub_zero]

end Selects

/-- An index that lost an item to a move: a query of the whole map reports the other one, and a query of a strip of it
for one status selects from that. -/
theorem getAroundData_selects_spoilt : ∃ s l,
    runSets ⟨1⟩ (initCoreData 1 Nat.one_pos) [setA 5 5, setB 5 5, setB (-5) (-5)] = .ok s ∧
      s.getAroundData ⟨1⟩ (-1) (-1) 2 4 (some 0) initRootRect ⟨0, [], []⟩ =
        .ok (NlaExParam.emitAll ⟨0, [], []⟩ l) ∧ l.length = 1 ∧
      s.getAroundData ⟨1⟩ 0 (-1) 9 4 (some 0) ⟨⟨0, -5⟩, ⟨9, 5⟩⟩ ⟨0, [], []⟩ =
        .ok (NlaExParam.emitAll ⟨0, [], []⟩
          ((l.filter fun e => passes ⟨⟨0, -5⟩, ⟨9, 5⟩⟩ 0 (-1) e.2).take 9)) := by
  have hwide : ∃ s ex, runSets ⟨1⟩ (initCoreData 1 Nat.one_pos) [setA 5 5, setB 5 5, setB (-5) (-5)] = .ok s ∧
      s.getAroundData ⟨1⟩ (-1) (-1) 2 4 (some 0) initRootRect ⟨0, [], []⟩ = .ok ex ∧ ex.count = 1 :=
    ⟨_, _, rfl, rfl, rfl⟩
  obtain ⟨s, ex, hs, hex, hcount⟩ := hwide
  obtain ⟨l, rfl, -, hnarrow⟩ := getAroundData_selects hex (by rw [hcount]; decide)
  rw [count_emitAll] at hcount
  refine ⟨s, l, hs, hex, by simpa using hcount, ?_⟩
  apply hnarrow
  · constructor <;> decide
  · exact Or.inl rfl
  · exact Or.inl rfl

end Lookaround
