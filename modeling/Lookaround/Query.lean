import Lookaround.Descent
import Mathlib.Data.Set.Card

/-!
# What a query emits

`get_around_data` reads a tree of map nodes. `QTree` is such a tree with its lists written out, and `scan` is the query
on it; the recursion, the clipping and the counter of the source are shown to compute a prefix of `scan`.

* `QTree`, `QTree.scan` : the tree as a value, and the entries a query meets in it, in the order of the source;
* `Represents conf s p t` : the nodes below `p` are the tree `t`, with lists that end;
* `getAroundData_represents` : from such a node the call returns, and it emits the first entries of the scan;
* `getAroundData_emits` : whatever a query answers, it printed records of data nodes and nothing else;
* `Tidy` : every entry is in its leaf's rectangle and counted; the scan of a tidy tree is the naive one;
* `Seen`, `Readable` : what a query reads of an index, and what it needs of it; `Readable.returns` : what it answers;
* `WellFormed` : an index with lists at the leaf level only, and `getAroundData_naive`, the query on it.
-/

namespace Lookaround

open NlaCoreData

/-! ## Emission -/

/-- A data node and its record. -/
abbrev Entry := DataPtr × NlaDataItem

/-- Emission of a list of entries. -/
def NlaExParam.emitAll (ex : NlaExParam) (l : List Entry) : NlaExParam := l.foldl (fun ex e => emit ex e.1 e.2) ex

section Emit

variable (ex : NlaExParam) (l l' : List Entry)

@[simp] theorem emitAll_nil : ex.emitAll [] = ex := rfl

@[simp] theorem emitAll_cons (e : Entry) : ex.emitAll (e :: l) = (emit ex e.1 e.2).emitAll l := rfl

theorem emitAll_append : ex.emitAll (l ++ l') = (ex.emitAll l).emitAll l' := List.foldl_append

theorem count_emitAll : (ex.emitAll l).count = ex.count + l.length := by
  induction l generalizing ex with
  | nil => simp
  | cons e l ih =>
      rw [emitAll_cons, ih, List.length_cons]
      simp only [emit]
      omega

theorem emitted_emitAll : (ex.emitAll l).emitted = ex.emitted ++ l.map Prod.fst := by
  induction l generalizing ex with
  | nil => simp
  | cons e l ih => rw [emitAll_cons, ih, List.map_cons]; simp [emit]

theorem pSzJson_emitAll :
    (ex.emitAll l).pSzJson = ex.pSzJson ++ l.flatMap fun e => formatDataItem e.2 ++ ascii "," := by
  induction l generalizing ex with
  | nil => simp
  | cons e l ih => rw [emitAll_cons, ih, List.flatMap_cons]; simp [emit]

end Emit

/-! ## The tree of a query -/

/-- A tree of map nodes with its lists written out. Nodes with children carry the children's rectangles. -/
inductive QTree where
  | leaf (count : UInt32) (l : List Entry)
  | bare
  | node (count : UInt32) (rcs : Fin 4 → NlaRect) (childs : Fin 4 → QTree)

namespace QTree

/-- Every entry, in the order of the children and of the lists. -/
def entries : QTree → List Entry
  | leaf _ l => l
  | bare => []
  | node _ _ childs => ([0, 1, 2, 3] : List (Fin 4)).flatMap fun i => (childs i).entries

/-- The entries a query meets: the counts prune, and the rectangle is clipped at every child. -/
def scan (iStatus iType : Int32) : QTree → NlaRect → List Entry
  | leaf count l, rc => if count = 0 then [] else l.filter fun e => passes rc iStatus iType e.2
  | bare, _ => []
  | node count rcs childs, rc =>
    if count = 0 then []
    else ([0, 1, 2, 3] : List (Fin 4)).flatMap fun i =>
      match intersectRc (rcs i) rc with
      | none => []
      | some newRc => (childs i).scan iStatus iType newRc

end QTree

/-- The list from `p` ends, and its nodes and records are `l`. -/
structure Listed (s : NlaCoreData) (p : Option DataPtr) (l : List Entry) : Prop where
  chain : Library.Chain s.next p (l.map Prod.fst)
  item : ∀ e ∈ l, s.item e.1 = some e.2

/-- A list that ends is written out once each of its nodes has a record. -/
theorem exists_listed {s : NlaCoreData} {p : Option DataPtr} {l : List DataPtr} (hl : Library.Chain s.next p l)
    (hitem : ∀ d ∈ l, ∃ data, s.item d = some data) : ∃ es, Listed s p es := by
  have hes : ∀ l : List DataPtr, (∀ d ∈ l, ∃ data, s.item d = some data) →
      ∃ es : List Entry, es.map Prod.fst = l ∧ ∀ e ∈ es, s.item e.1 = some e.2 := by
    intro l hl
    induction l with
    | nil => exact ⟨[], rfl, fun e he => absurd he List.not_mem_nil⟩
    | cons d l ih =>
        obtain ⟨es, hmap, hes⟩ := ih fun e he => hl e (List.mem_cons_of_mem d he)
        obtain ⟨data, hdata⟩ := hl d List.mem_cons_self
        refine ⟨(d, data) :: es, by rw [List.map_cons, hmap], fun e he => ?_⟩
        rcases List.mem_cons.mp he with rfl | he
        · exact hdata
        · exact hes e he
  obtain ⟨es, hmap, hes⟩ := hes l hitem
  exact ⟨es, by rw [hmap]; exact hl, hes⟩

/-- The nodes below `p` are the tree. -/
inductive Represents (conf : Conf) (s : NlaCoreData) : MapPtr → QTree → Prop
  | leaf {p : MapPtr} {m : NlaMapNode} {l : List Entry} (hm : s.mapNodes[p]? = some m)
      (hL : conf.nMapMaxLevel ≤ m.iLevel) (hl : Listed s m.pDataNode l) : Represents conf s p (.leaf m.iItemCount l)
  | bare {p : MapPtr} {m : NlaMapNode} (hm : s.mapNodes[p]? = some m) (hL : m.iLevel < conf.nMapMaxLevel)
      (h0 : ∀ i, m.apChilds i = none) : Represents conf s p .bare
  | node {p : MapPtr} {m : NlaMapNode} {c : Fin 4 → MapPtr} {k : Fin 4 → NlaMapNode} {t : Fin 4 → QTree}
      (hm : s.mapNodes[p]? = some m) (hL : m.iLevel < conf.nMapMaxLevel) (hc : ∀ i, m.apChilds i = some (c i))
      (hk : ∀ i, s.mapNodes[c i]? = some (k i)) (ht : ∀ i, Represents conf s (c i) (t i)) :
      Represents conf s p (.node m.iItemCount (fun i => (k i).rc) t)

/-! ## The query computes the scan -/

section Query

variable {conf : Conf} {s : NlaCoreData} {p : MapPtr} {t : QTree} {rc : NlaRect} {iStatus iType : Int32}
  {iMaxCount : Int} {ex : NlaExParam} {l l' : List Entry}

/-- Emission up to a bound of two lists, one after the other. -/
theorem emitAll_take_append :
    ex.emitAll ((l ++ l').take (iMaxCount - ex.count).toNat) =
      (ex.emitAll (l.take (iMaxCount - ex.count).toNat)).emitAll
        (l'.take (iMaxCount - (ex.emitAll (l.take (iMaxCount - ex.count).toNat)).count).toNat) := by
  rw [List.take_append, emitAll_append, count_emitAll, List.length_take]
  congr 2
  omega

theorem listed_cons {d : DataPtr} {data : NlaDataItem} {q : Option DataPtr} (h : Listed s q ((d, data) :: l)) :
    q = some d ∧ ∃ n, s.dataNodes[d]? = some n ∧ n.data = data ∧ Listed s n.next l := by
  obtain ⟨hchain, hitem⟩ := h
  rw [List.map_cons] at hchain
  have hd := hitem (d, data) List.mem_cons_self
  rw [item, Option.map_eq_some_iff] at hd
  obtain ⟨n, hn, hdata⟩ := hd
  cases hchain with
  | cons hrest =>
      rw [next, hn, Option.bind_some] at hrest
      exact ⟨rfl, n, hn, hdata, hrest, fun e he => hitem e (List.mem_cons_of_mem _ he)⟩

/-- The leaf loop emits the first entries that pass. -/
theorem leafLoop_listed {q : Option DataPtr} {fuel : Nat} (h : Listed s q l) (hfuel : l.length < fuel) :
    s.leafLoop rc iStatus iType iMaxCount fuel q ex =
      .ok (ex.emitAll ((l.filter fun e => passes rc iStatus iType e.2).take (iMaxCount - ex.count).toNat)) := by
  induction fuel generalizing q l ex with
  | zero => exact absurd hfuel (Nat.not_lt_zero _)
  | succ fuel ih =>
      unfold leafLoop
      by_cases hcount : ex.count < iMaxCount
      · rw [if_pos hcount]
        cases l with
        | nil =>
            obtain ⟨hchain, -⟩ := h
            cases hchain
            simp
        | cons e l =>
            obtain ⟨d, data⟩ := e
            obtain ⟨rfl, n, hn, rfl, hrest⟩ := listed_cons h
            have hlen : l.length < fuel := by simpa using hfuel
            simp only [dataAt_ok hn, bind, Except.bind]
            cases hp : passes rc iStatus iType n.data with
            | false => rw [if_neg Bool.false_ne_true, ih hrest hlen, List.filter_cons_of_neg (by simp [hp])]
            | true =>
                obtain ⟨k, hk⟩ : ∃ k, (iMaxCount - ex.count).toNat = k + 1 :=
                  ⟨(iMaxCount - ex.count).toNat - 1, by omega⟩
                have hk' : (iMaxCount - (emit ex d n.data).count).toNat = k := by simp only [emit]; omega
                rw [if_pos rfl, ih hrest hlen, List.filter_cons_of_pos (by simp [hp]), hk, hk', List.take_succ_cons,
                  emitAll_cons]
      · have h0 : (iMaxCount - ex.count).toNat = 0 := by omega
        rw [if_neg hcount, h0, List.take_zero, emitAll_nil]

/-- A fold over the children, each of which emits the first entries of its own list. -/
theorem foldlM_emitAll {f : NlaExParam → Fin 4 → Except Fault NlaExParam} {g : Fin 4 → List Entry}
    (hf : ∀ i ex, f ex i = .ok (ex.emitAll ((g i).take (iMaxCount - ex.count).toNat))) (is : List (Fin 4)) :
    is.foldlM f ex = .ok (ex.emitAll ((is.flatMap g).take (iMaxCount - ex.count).toNat)) := by
  induction is generalizing ex with
  | nil => simp [pure, Except.pure]
  | cons i is ih =>
      rw [List.foldlM_cons, hf, List.flatMap_cons, emitAll_take_append]
      exact ih

/-- **The query returns**: it emits the first entries of the scan. -/
theorem getAroundData_represents (iStatus iType : Int32) (iMaxCount : Int) (h : Represents conf s p t) :
    ∃ N, ∀ fuel ≥ N, ∀ rc ex, s.getAroundData conf iStatus iType iMaxCount fuel (some p) rc ex =
      .ok (ex.emitAll ((t.scan iStatus iType rc).take (iMaxCount - ex.count).toNat)) := by
  induction h with
  | @leaf p m l hm hL hl =>
      refine ⟨l.length + 2, fun fuel hfuel rc ex => ?_⟩
      obtain ⟨fuel, rfl⟩ : ∃ k, fuel = k + 1 := ⟨fuel - 1, by omega⟩
      rw [getAroundData, mapAt_ok hm, QTree.scan]
      simp only [bind, Except.bind, pure, Except.pure]
      by_cases h0 : m.iItemCount = 0
      · rw [if_pos h0, if_pos h0, List.take_nil, emitAll_nil]
      · rw [if_neg h0, if_neg h0, if_pos hL, leafLoop_listed hl (by omega)]
  | @bare p m hm hL h0 =>
      refine ⟨1, fun fuel hfuel rc ex => ?_⟩
      obtain ⟨fuel, rfl⟩ : ∃ k, fuel = k + 1 := ⟨fuel - 1, by omega⟩
      rw [getAroundData, mapAt_ok hm, QTree.scan, List.take_nil, emitAll_nil]
      simp [bind, Except.bind, pure, Except.pure, not_le.mpr hL, h0]
  | @node p m c k t hm hL hc hk ht ih =>
      choose N hN using ih
      refine ⟨N 0 + N 1 + N 2 + N 3 + 1, fun fuel hfuel rc ex => ?_⟩
      obtain ⟨fuel, rfl⟩ : ∃ k, fuel = k + 1 := ⟨fuel - 1, by omega⟩
      have hNle : ∀ i, fuel ≥ N i := by
        intro i
        fin_cases i <;> simp <;> omega
      rw [getAroundData, mapAt_ok hm, QTree.scan]
      simp only [bind, Except.bind, pure, Except.pure]
      by_cases h0 : m.iItemCount = 0
      · rw [if_pos h0, if_pos h0, List.take_nil, emitAll_nil]
      · rw [if_neg h0, if_neg h0, if_neg (not_le.mpr hL), if_neg (by rw [hc 0]; exact Option.some_ne_none _)]
        refine foldlM_emitAll (fun i ex => ?_) [0, 1, 2, 3]
        simp only [hc, nonNull, mapAt_ok (hk i)]
        cases hi : intersectRc (k i).rc rc with
        | none => simp
        | some newRc => exact hN i fuel (hNle i) newRc ex

end Query

/-! ## More fuel -/

section Fuel

variable {conf : Conf} {s : NlaCoreData} {rc : NlaRect} {iStatus iType : Int32} {iMaxCount : Int} {ex ex' : NlaExParam}

theorem leafLoop_mono {fuel fuel' : Nat} {q : Option DataPtr} (hle : fuel ≤ fuel')
    (h : s.leafLoop rc iStatus iType iMaxCount fuel q ex = .ok ex') :
    s.leafLoop rc iStatus iType iMaxCount fuel' q ex = .ok ex' := by
  induction fuel generalizing fuel' q ex with
  | zero => cases h
  | succ fuel ih =>
      obtain ⟨fuel', rfl⟩ : ∃ k, fuel' = k + 1 := ⟨fuel' - 1, by omega⟩
      unfold leafLoop at h ⊢
      split_ifs at h ⊢ with hcount
      · cases q with
        | none => exact h
        | some d =>
            obtain ⟨n, hn, h⟩ := Library.bind_eq_ok.mp h
            exact Library.bind_eq_ok.mpr ⟨n, hn, ih (by omega) h⟩
      · exact h

theorem foldlM_mono {f g : NlaExParam → Fin 4 → Except Fault NlaExParam}
    (hfg : ∀ ex i ex', f ex i = .ok ex' → g ex i = .ok ex') {is : List (Fin 4)} (h : is.foldlM f ex = .ok ex') :
    is.foldlM g ex = .ok ex' := by
  induction is generalizing ex with
  | nil => exact h
  | cons i is ih =>
      rw [List.foldlM_cons] at h ⊢
      obtain ⟨ex1, h1, h⟩ := Library.bind_eq_ok.mp h
      exact Library.bind_eq_ok.mpr ⟨ex1, hfg ex i ex1 h1, ih h⟩

theorem getAroundData_mono {fuel fuel' : Nat} {p : Option MapPtr} (hle : fuel ≤ fuel')
    (h : s.getAroundData conf iStatus iType iMaxCount fuel p rc ex = .ok ex') :
    s.getAroundData conf iStatus iType iMaxCount fuel' p rc ex = .ok ex' := by
  induction fuel generalizing fuel' p rc ex ex' with
  | zero => cases h
  | succ fuel ih =>
      obtain ⟨fuel', rfl⟩ : ∃ k, fuel' = k + 1 := ⟨fuel' - 1, by omega⟩
      cases p with
      | none => exact h
      | some p =>
          rw [getAroundData] at h ⊢
          obtain ⟨m, hm, h⟩ := Library.bind_eq_ok.mp h
          refine Library.bind_eq_ok.mpr ⟨m, hm, ?_⟩
          split_ifs at h ⊢
          · exact h
          · exact leafLoop_mono (by omega) h
          · exact h
          · apply foldlM_mono _ h
            intro ex i ex' hi
            obtain ⟨c, hc, hi⟩ := Library.bind_eq_ok.mp hi
            obtain ⟨k, hk, hi⟩ := Library.bind_eq_ok.mp hi
            refine Library.bind_eq_ok.mpr ⟨c, hc, Library.bind_eq_ok.mpr ⟨k, hk, ?_⟩⟩
            cases hr : intersectRc k.rc rc with
            | none =>
                rw [hr] at hi
                exact hi
            | some newRc =>
                rw [hr] at hi
                exact ih (by omega) hi

/-- A query has one result. -/
theorem Returns.unique (h : Returns conf s rc iStatus iType iMaxCount ex)
    (h' : Returns conf s rc iStatus iType iMaxCount ex') : ex = ex' := by
  obtain ⟨fuel, hf⟩ := h
  obtain ⟨fuel', hf'⟩ := h'
  have h1 := getAroundData_mono (Nat.le_max_left fuel fuel') hf
  have h2 := getAroundData_mono (Nat.le_max_right fuel fuel') hf'
  rw [h1] at h2
  exact Except.ok.inj h2

end Fuel

/-! ## What a query writes -/

section Emits

variable {conf : Conf} {s : NlaCoreData} {rc : NlaRect} {iStatus iType : Int32} {iMaxCount : Int}
  {ex ex' ex'' : NlaExParam}

/-- From `ex` to `ex'` only records of data nodes were printed. -/
def Emits (s : NlaCoreData) (ex ex' : NlaExParam) : Prop :=
  ∃ l : List Entry, ex' = ex.emitAll l ∧ ∀ e ∈ l, s.item e.1 = some e.2

/-- In addition the records passed the tests of the query. -/
def Prints (s : NlaCoreData) (rc : NlaRect) (iStatus iType : Int32) (ex ex' : NlaExParam) : Prop :=
  ∃ l : List Entry, ex' = ex.emitAll l ∧ ∀ e ∈ l, s.item e.1 = some e.2 ∧ passes rc iStatus iType e.2 = true

theorem Prints.refl (s : NlaCoreData) (rc : NlaRect) (iStatus iType : Int32) (ex : NlaExParam) :
    Prints s rc iStatus iType ex ex :=
  ⟨[], rfl, fun _ he => by cases he⟩

theorem Prints.trans (h : Prints s rc iStatus iType ex ex') (h' : Prints s rc iStatus iType ex' ex'') :
    Prints s rc iStatus iType ex ex'' := by
  obtain ⟨l, rfl, hl⟩ := h
  obtain ⟨l', rfl, hl'⟩ := h'
  refine ⟨l ++ l', (emitAll_append ex l l').symm, fun e he => ?_⟩
  rcases List.mem_append.mp he with he | he
  · exact hl e he
  · exact hl' e he

theorem passes_iff {data : NlaDataItem} : passes rc iStatus iType data = true ↔
    (iType = invalidFilter ∨ iType = data.iType) ∧ (iStatus = invalidFilter ∨ iStatus = data.iStatus) ∧
      isLocInRC rc data.loc = true := by
  simp [passes, and_assoc]

/-- What passes in the clipped rectangle passes in the one that was clipped. -/
theorem Prints.of_intersectRc {rc1 newRc : NlaRect} (hrc : intersectRc rc1 rc = some newRc)
    (h : Prints s newRc iStatus iType ex ex') : Prints s rc iStatus iType ex ex' := by
  obtain ⟨l, hl, hmem⟩ := h
  refine ⟨l, hl, fun e he => ⟨(hmem e he).1, ?_⟩⟩
  obtain ⟨htype, hstatus, hin⟩ := passes_iff.mp (hmem e he).2
  exact passes_iff.mpr ⟨htype, hstatus, ((mem_intersectRc rc1 rc e.2.loc).mp ⟨newRc, hrc, hin⟩).2⟩

theorem leafLoop_prints {fuel : Nat} {q : Option DataPtr}
    (h : s.leafLoop rc iStatus iType iMaxCount fuel q ex = .ok ex') : Prints s rc iStatus iType ex ex' := by
  induction fuel generalizing q ex with
  | zero => cases h
  | succ fuel ih =>
      unfold leafLoop at h
      split_ifs at h with hcount
      · cases q with
        | none =>
            cases h
            exact .refl s rc _ _ _
        | some d =>
            obtain ⟨n, hn, h⟩ := Library.bind_eq_ok.mp h
            have hitem : s.item d = some n.data := by
              rw [item, getElem?_of_dataAt hn, Option.map_some]
            refine Prints.trans ?_ (ih h)
            split_ifs with hpass
            · refine ⟨[(d, n.data)], rfl, fun e he => ?_⟩
              rw [List.mem_singleton.mp he]
              exact ⟨hitem, hpass⟩
            · exact .refl s rc _ _ _
      · cases h
        exact .refl s rc _ _ _

theorem foldlM_prints {f : NlaExParam → Fin 4 → Except Fault NlaExParam}
    (hf : ∀ ex i ex', f ex i = .ok ex' → Prints s rc iStatus iType ex ex') {is : List (Fin 4)}
    (h : is.foldlM f ex = .ok ex') : Prints s rc iStatus iType ex ex' := by
  induction is generalizing ex with
  | nil =>
      cases h
      exact .refl s rc _ _ _
  | cons i is ih =>
      rw [List.foldlM_cons] at h
      obtain ⟨ex1, h1, h⟩ := Library.bind_eq_ok.mp h
      exact (hf ex i ex1 h1).trans (ih h)

/-- Whatever a query answers, it printed records that pass its tests and nothing else, also when a list has a cycle. -/
theorem getAroundData_prints {fuel : Nat} {p : Option MapPtr}
    (h : s.getAroundData conf iStatus iType iMaxCount fuel p rc ex = .ok ex') : Prints s rc iStatus iType ex ex' := by
  induction fuel generalizing p rc ex ex' with
  | zero => cases h
  | succ fuel ih =>
      cases p with
      | none =>
          cases h
          exact .refl s rc _ _ _
      | some p =>
          rw [getAroundData] at h
          obtain ⟨m, -, h⟩ := Library.bind_eq_ok.mp h
          split_ifs at h
          · cases h
            exact .refl s rc _ _ _
          · exact leafLoop_prints h
          · cases h
            exact .refl s rc _ _ _
          · apply foldlM_prints _ h
            intro ex i ex' hi
            obtain ⟨c, -, hi⟩ := Library.bind_eq_ok.mp hi
            obtain ⟨k, -, hi⟩ := Library.bind_eq_ok.mp hi
            split at hi
            · cases hi
              exact .refl s rc _ _ _
            · rename_i newRc hrc
              exact (ih hi).of_intersectRc hrc

theorem getAroundData_emits {fuel : Nat} {p : Option MapPtr}
    (h : s.getAroundData conf iStatus iType iMaxCount fuel p rc ex = .ok ex') : Emits s ex ex' := by
  obtain ⟨l, hl, hmem⟩ := getAroundData_prints h
  exact ⟨l, hl, fun e he => (hmem e he).1⟩

end Emits

/-! ## Tidy trees -/

/-- Rectangles are quadrants, entries are in the rectangle of their leaf, and a node with an entry beneath it has a
count. -/
inductive QTree.Tidy : NlaRect → QTree → Prop
  | leaf {rc : NlaRect} {count : UInt32} {l : List Entry} (hin : ∀ e ∈ l, isLocInRC rc e.2.loc = true) (hnd : l.Nodup)
      (hcount : l ≠ [] → count ≠ 0) : Tidy rc (.leaf count l)
  | bare {rc : NlaRect} : Tidy rc .bare
  | node {rc : NlaRect} {count : UInt32} {t : Fin 4 → QTree} (ht : ∀ i, Tidy (childRect rc i) (t i))
      (hcount : (QTree.node count (childRect rc) t).entries ≠ [] → count ≠ 0) : Tidy rc (.node count (childRect rc) t)

namespace QTree.Tidy

variable {rc q : NlaRect} {t : QTree} {iStatus iType : Int32}

theorem inside (h : Tidy rc t) (hok : rc.Ok) : ∀ e ∈ t.entries, isLocInRC rc e.2.loc = true := by
  induction h with
  | leaf hin _ _ => exact hin
  | bare => exact fun e he => absurd he List.not_mem_nil
  | node ht hcount ih =>
      intro e he
      rw [QTree.entries, List.mem_flatMap] at he
      obtain ⟨i, -, he⟩ := he
      exact isLocInRC_of_childRect hok (ih i (ok_childRect hok i) e he)

theorem nodup (h : Tidy rc t) (hok : rc.Ok) : t.entries.Nodup := by
  induction h with
  | leaf _ hnd _ => exact hnd
  | bare => exact List.nodup_nil
  | node ht hcount ih =>
      rw [QTree.entries, List.nodup_flatMap]
      refine ⟨fun i _ => ih i (ok_childRect hok i), ?_⟩
      have hnd : ([0, 1, 2, 3] : List (Fin 4)).Nodup := by decide
      refine hnd.imp fun {i j} hij e hi hj => hij ?_
      exact childRect_disjoint hok ((ht i).inside (ok_childRect hok i) e hi) ((ht j).inside (ok_childRect hok j) e hj)

/-- For a location in the first rectangle, the intersection tests what the second does. -/
theorem isLocInRC_intersectRc {rc1 : NlaRect} {loc : Nla2dloc} (h : isLocInRC rc1 loc = true) (rc2 : NlaRect) :
    ((intersectRc rc1 rc2).elim false fun rc => isLocInRC rc loc) = isLocInRC rc2 loc := by
  have hmem := mem_intersectRc rc1 rc2 loc
  cases hi : intersectRc rc1 rc2 with
  | none =>
      rw [hi] at hmem
      simpa [h] using hmem
  | some r =>
      rw [hi] at hmem
      have : isLocInRC r loc = true ↔ isLocInRC rc2 loc = true := by simpa [h] using hmem
      exact Bool.eq_iff_iff.mpr this

/-- **Clipping loses nothing**: the scan of a tidy tree is the naive one. -/
theorem scan_eq (h : Tidy rc t) (hok : rc.Ok) (q : NlaRect) :
    t.scan iStatus iType q = t.entries.filter fun e => passes q iStatus iType e.2 := by
  induction h generalizing q with
  | @leaf rc count l _ _ hcount =>
      rw [QTree.scan, QTree.entries]
      split_ifs with h0
      · have hl : l = [] := by
          by_contra hl
          exact hcount hl h0
        rw [hl, List.filter_nil]
      · rfl
  | bare => rfl
  | @node rc count t ht hcount ih =>
      rw [QTree.scan]
      split_ifs with h0
      · have hl : (QTree.node count (childRect rc) t).entries = [] := by
          by_contra hl
          exact hcount hl h0
        rw [hl, List.filter_nil]
      · rw [QTree.entries, List.filter_flatMap]
        congr 1
        funext i
        have hin : ∀ e ∈ (t i).entries, isLocInRC (childRect rc i) e.2.loc = true :=
          (ht i).inside (ok_childRect hok i)
        cases hi : intersectRc (childRect rc i) q with
        | none =>
            refine (List.filter_eq_nil_iff.mpr fun e he => ?_).symm
            have hq := isLocInRC_intersectRc (hin e he) q
            rw [hi, Option.elim_none] at hq
            simp [passes, ← hq]
        | some r =>
            refine (ih i (ok_childRect hok i) r).trans (List.filter_congr fun e he => ?_)
            have hq := isLocInRC_intersectRc (hin e he) q
            rw [hi, Option.elim_some] at hq
            rw [passes, passes, hq]

end QTree.Tidy

/-! ## Well-formed indexes -/

/-- `p` is a node of the index of level `L`: the root, or a child of a node below level `L`. -/
inductive InTree (L : Int) (s : NlaCoreData) : MapPtr → Prop
  | root : InTree L s s.pMapRoot
  | child {p c : MapPtr} {m : NlaMapNode} {i : Fin 4} (hp : InTree L s p) (hm : s.mapNodes[p]? = some m)
      (hL : m.iLevel < L) (hc : m.apChilds i = some c) : InTree L s c

theorem InTree.exists_node {L : Int} {s : NlaCoreData} {p : Nat} (hp : InTree L s p)
    (h : Grid s.mapNodes s.pMapRoot) : ∃ m, s.mapNodes[p]? = some m := by
  cases hp with
  | root =>
      obtain ⟨m, hm, -⟩ := h.top
      exact ⟨m, hm⟩
  | child _ hm _ hc =>
      obtain ⟨k, hk, -⟩ := h.child hm hc
      exact ⟨k, hk⟩

/-- The counter of a node with items is not zero: a number of fewer than `2 ^ 32` items does not wrap. -/
theorem ofNat_itemCount_ne_zero {n len : Nat} (h0 : 0 < n) (hle : n ≤ len) (hlen : len < 2 ^ 32) :
    UInt32.ofNat n ≠ 0 := by
  intro hzero
  have hval := congrArg UInt32.toNat hzero
  rw [UInt32.toNat_ofNat_of_lt' (lt_of_le_of_lt hle hlen)] at hval
  change _ = 0 at hval
  omega

/-- The data node `d` is in the list of `p` or of a node below it. -/
inductive Beneath (L : Int) (s : NlaCoreData) (d : DataPtr) : MapPtr → Prop
  | list {p : MapPtr} {m : NlaMapNode} (hm : s.mapNodes[p]? = some m) (hd : Library.Reaches s.next d m.pDataNode) :
      Beneath L s d p
  | child {p c : MapPtr} {m : NlaMapNode} {i : Fin 4} (hm : s.mapNodes[p]? = some m) (hL : m.iLevel < L)
      (hc : m.apChilds i = some c) (h : Beneath L s d c) : Beneath L s d p

/-- The data node `d` is in a list that a query from `p` reads, that of a node from level `L` on. -/
inductive Seen (L : Int) (s : NlaCoreData) (d : DataPtr) : MapPtr → Prop
  | list {p : MapPtr} {m : NlaMapNode} (hm : s.mapNodes[p]? = some m) (hL : L ≤ m.iLevel)
      (hd : Library.Reaches s.next d m.pDataNode) : Seen L s d p
  | child {p c : MapPtr} {m : NlaMapNode} {i : Fin 4} (hm : s.mapNodes[p]? = some m) (hL : m.iLevel < L)
      (hc : m.apChilds i = some c) (h : Seen L s d c) : Seen L s d p

/-- What a query with level `L` needs of a node: quadrants, lists that end with items in the rectangle, and a count where
there is an item to read. -/
structure ReadableNode (L : Int) (s : NlaCoreData) (p : MapPtr) (m : NlaMapNode) : Prop where
  childs : m.iLevel < L → (∀ i, m.apChilds i = none) ∨ ∀ i, ∃ c k, m.apChilds i = some c ∧ s.mapNodes[c]? = some k ∧
    k.iLevel = m.iLevel + 1 ∧ k.rc = childRect m.rc i
  leaf : L ≤ m.iLevel → ∃ l, Listed s m.pDataNode l ∧ ∀ e ∈ l, isLocInRC m.rc e.2.loc = true
  count : ∀ d, Seen L s d p → m.iItemCount ≠ 0

structure Readable (L : Int) (s : NlaCoreData) : Prop where
  top : ∃ m, s.mapNodes[s.pMapRoot]? = some m ∧ m.iLevel = 0 ∧ m.rc = initRootRect
  node : ∀ p, InTree L s p → ∃ m, s.mapNodes[p]? = some m ∧ ReadableNode L s p m

/-- The items a query reads that pass its tests. -/
def seenMatching (L : Int) (s : NlaCoreData) (rc : NlaRect) (iStatus iType : Int32) : Set DataPtr :=
  { d | Seen L s d s.pMapRoot ∧ ∃ data, s.item d = some data ∧ passes rc iStatus iType data = true }

/-- One node of a well-formed index. -/
structure WellFormedNode (L : Int) (s : NlaCoreData) (p : MapPtr) (m : NlaMapNode) : Prop where
  childs : m.iLevel < L → (∀ i, m.apChilds i = none) ∨ ∀ i, ∃ c k, m.apChilds i = some c ∧ s.mapNodes[c]? = some k ∧
    k.iLevel = m.iLevel + 1 ∧ k.rc = childRect m.rc i
  inner : m.iLevel < L → m.pDataNode = none
  leaf : L ≤ m.iLevel → ∃ l, Listed s m.pDataNode l ∧ ∀ e ∈ l, isLocInRC m.rc e.2.loc = true
  count : ∀ d, Beneath L s d p → m.iItemCount ≠ 0

/-- An index is well-formed for the level `L`. -/
structure WellFormed (L : Int) (s : NlaCoreData) : Prop where
  top : ∃ m, s.mapNodes[s.pMapRoot]? = some m ∧ m.iLevel = 0 ∧ m.rc = initRootRect
  node : ∀ p, InTree L s p → ∃ m, s.mapNodes[p]? = some m ∧ WellFormedNode L s p m

/-- The stored items a query is about. -/
def matching (L : Int) (s : NlaCoreData) (rc : NlaRect) (iStatus iType : Int32) : Set DataPtr :=
  { d | Beneath L s d s.pMapRoot ∧ ∃ data, s.item d = some data ∧ passes rc iStatus iType data = true }

section WellFormed

variable {conf : Conf} {s : NlaCoreData} {p : Nat} {m : NlaMapNode} {t : QTree}

/-- A set of nodes closed under children, with finite lists at the leaf level, has the trees below its nodes. -/
theorem exists_represents {R : Nat → Prop}
    (hR : ∀ p, R p → ∃ m : NlaMapNode, s.mapNodes[p]? = some m ∧
      (m.iLevel < conf.nMapMaxLevel → (∀ i, m.apChilds i = none) ∨ ∀ i, ∃ (c : Nat) (k : NlaMapNode),
        m.apChilds i = some c ∧ s.mapNodes[c]? = some k ∧ k.iLevel = m.iLevel + 1 ∧ R c) ∧
      (conf.nMapMaxLevel ≤ m.iLevel → ∃ l, Listed s m.pDataNode l))
    (hp : R p) : ∃ t, Represents conf s p t := by
  obtain ⟨m, hm, -⟩ := hR p hp
  obtain ⟨n, hn⟩ : ∃ n, (conf.nMapMaxLevel - m.iLevel).toNat = n := ⟨_, rfl⟩
  -- on the distance to the leaf level
  induction n generalizing p m with
  | zero =>
      obtain ⟨m', hm', -, hleaf⟩ := hR p hp
      obtain rfl := Option.some.inj (hm.symm.trans hm')
      obtain ⟨l, hl⟩ := hleaf (by omega)
      exact ⟨_, .leaf hm (by omega) hl⟩
  | succ n ih =>
      obtain ⟨m', hm', hchilds, -⟩ := hR p hp
      obtain rfl := Option.some.inj (hm.symm.trans hm')
      have hL : m.iLevel < conf.nMapMaxLevel := by omega
      rcases hchilds hL with h0 | hc
      · exact ⟨_, .bare hm hL h0⟩
      · choose c k h1 h2 h3 h4 using hc
        have ht : ∀ i, ∃ t, Represents conf s (c i) t := by
          intro i
          have hlev := h3 i
          exact ih (h4 i) (k i) (h2 i) (by omega)
        choose t ht using ht
        exact ⟨_, .node hm hL h1 h2 ht⟩

theorem Readable.exists_represents (h : Readable conf.nMapMaxLevel s) : ∃ t, Represents conf s s.pMapRoot t := by
  refine Lookaround.exists_represents (R := InTree conf.nMapMaxLevel s) (fun p hp => ?_) .root
  obtain ⟨m, hm, hnode⟩ := h.node p hp
  refine ⟨m, hm, fun hL => (hnode.childs hL).imp id fun hc i => ?_, fun hL => ?_⟩
  · obtain ⟨c, k, h1, h2, h3, -⟩ := hc i
    exact ⟨c, k, h1, h2, h3, .child hp hm hL h1⟩
  · obtain ⟨l, hl, -⟩ := hnode.leaf hL
    exact ⟨l, hl⟩

theorem Listed.reaches_iff {q : Option DataPtr} {l : List Entry} (h : Listed s q l) (e : Entry) :
    e ∈ l ↔ Library.Reaches s.next e.1 q ∧ s.item e.1 = some e.2 := by
  rw [← h.chain.mem_iff_reaches, List.mem_map]
  constructor
  · intro he
    exact ⟨⟨e, he, rfl⟩, h.item e he⟩
  · rintro ⟨⟨e', he', hfst⟩, hitem⟩
    have hsnd := h.item e' he'
    rw [hfst, hitem] at hsnd
    obtain ⟨d, data⟩ := e
    obtain ⟨d', data'⟩ := e'
    cases Option.some.inj hsnd
    cases hfst
    exact he'

/-- The entries of the tree are the items a query reads beneath the node. -/
theorem Represents.mem_entries (ht : Represents conf s p t) (e : Entry) :
    e ∈ t.entries ↔ Seen conf.nMapMaxLevel s e.1 p ∧ s.item e.1 = some e.2 := by
  induction ht with
  | @leaf p m l hm hL hl =>
      rw [QTree.entries, hl.reaches_iff]
      refine and_congr_left fun _ => ⟨fun hr => .list hm hL hr, fun hb => ?_⟩
      cases hb with
      | list hm' _ hr =>
          obtain rfl := Option.some.inj (hm.symm.trans hm')
          exact hr
      | child hm' hlt _ _ =>
          obtain rfl := Option.some.inj (hm.symm.trans hm')
          omega
  | @bare p m hm hL h0 =>
      refine iff_of_false List.not_mem_nil ?_
      rintro ⟨hb, -⟩
      cases hb with
      | list hm' hle _ =>
          obtain rfl := Option.some.inj (hm.symm.trans hm')
          omega
      | @child _ c m' i hm' _ hc _ =>
          obtain rfl := Option.some.inj (hm.symm.trans hm')
          rw [h0 i] at hc
          cases hc
  | @node p m c k t hm hL hc hk ht ih =>
      rw [QTree.entries, List.mem_flatMap]
      constructor
      · rintro ⟨i, -, he⟩
        obtain ⟨hb, hitem⟩ := (ih i).mp he
        exact ⟨.child hm hL (hc i) hb, hitem⟩
      · rintro ⟨hb, hitem⟩
        cases hb with
        | list hm' hle _ =>
            obtain rfl := Option.some.inj (hm.symm.trans hm')
            omega
        | @child _ c' m' i hm' _ hc' hb =>
            obtain rfl := Option.some.inj (hm.symm.trans hm')
            obtain rfl := Option.some.inj ((hc i).symm.trans hc')
            exact ⟨i, by fin_cases i <;> simp, (ih i).mpr ⟨hb, hitem⟩⟩

theorem Readable.tidy (h : Readable conf.nMapMaxLevel s) (ht : Represents conf s p t)
    (hp : InTree conf.nMapMaxLevel s p) (hm : s.mapNodes[p]? = some m) : t.Tidy m.rc := by
  -- a node with an entry has an item to read beneath it, so it is counted
  have hcount : ∀ {p : Nat} {m : NlaMapNode} {t : QTree}, Represents conf s p t → InTree conf.nMapMaxLevel s p →
      s.mapNodes[p]? = some m → t.entries ≠ [] → m.iItemCount ≠ 0 := by
    intro p m t ht hp hm hne
    obtain ⟨m', hm', hnode⟩ := h.node p hp
    obtain rfl := Option.some.inj (hm.symm.trans hm')
    obtain ⟨e, he⟩ := List.exists_mem_of_ne_nil _ hne
    exact hnode.count e.1 ((ht.mem_entries e).mp he).1
  induction ht generalizing m with
  | @leaf p k l hk hL hl =>
      obtain rfl := Option.some.inj (hm.symm.trans hk)
      obtain ⟨m', hm', hnode⟩ := h.node p hp
      obtain rfl := Option.some.inj (hm.symm.trans hm')
      obtain ⟨l', hl', hin⟩ := hnode.leaf hL
      refine .leaf (fun e he => ?_) hl.chain.nodup.of_map (hcount (.leaf hm hL hl) hp hm)
      exact hin e ((hl'.reaches_iff e).mpr ((hl.reaches_iff e).mp he))
  | bare hk hL h0 => exact .bare
  | @node p k c kc t hk hL hc hkc ht ih =>
      obtain rfl := Option.some.inj (hm.symm.trans hk)
      obtain ⟨m', hm', hnode⟩ := h.node p hp
      obtain rfl := Option.some.inj (hm.symm.trans hm')
      have hrc : (fun i => (kc i).rc) = childRect m.rc := by
        funext i
        rcases hnode.childs hL with h0 | hcs
        · have := hc i
          rw [h0 i] at this
          cases this
        · obtain ⟨c', k', h1, h2, -, h4⟩ := hcs i
          obtain rfl := Option.some.inj ((hc i).symm.trans h1)
          obtain rfl := Option.some.inj ((hkc i).symm.trans h2)
          exact h4
      have hne := hcount (.node hm hL hc hkc ht) hp hm
      rw [hrc] at hne ⊢
      refine .node (fun i => ?_) hne
      rw [← hrc]
      exact ih i (.child hp hm hL (hc i)) (hkc i)

/-- What a query on a readable index returns: the first of the items it reads that pass, in an order that does not depend
on the bound. -/
theorem Readable.returns (h : Readable conf.nMapMaxLevel s) (rc : NlaRect) (iStatus iType : Int32) :
    ∃ all : List Entry, (all.map Prod.fst).Nodup ∧
      (∀ d, d ∈ all.map Prod.fst ↔ d ∈ seenMatching conf.nMapMaxLevel s rc iStatus iType) ∧
      (∀ e ∈ all, s.item e.1 = some e.2) ∧
      ∀ iMaxCount : Int, Returns conf s rc iStatus iType iMaxCount
        (NlaExParam.emitAll ⟨0, [], []⟩ (all.take iMaxCount.toNat)) := by
  obtain ⟨t, ht⟩ := h.exists_represents
  obtain ⟨m, hm, -, hrc⟩ := h.top
  have hok : m.rc.Ok := by rw [hrc]; exact ok_initRootRect
  have htidy := h.tidy ht .root hm
  have hmem := ht.mem_entries
  have hitem : ∀ e ∈ t.entries.filter fun e => passes rc iStatus iType e.2, s.item e.1 = some e.2 := by
    intro e he
    exact ((hmem e).mp (List.mem_filter.mp he).1).2
  refine ⟨t.entries.filter fun e => passes rc iStatus iType e.2, ?_, fun d => ?_, hitem, fun iMaxCount => ?_⟩
  · refine ((htidy.nodup hok).filter _).map_on fun e he e' he' hee => Prod.ext hee ?_
    have h1 := hitem e he
    rw [hee, hitem e' he'] at h1
    exact (Option.some.inj h1).symm
  · rw [List.mem_map]
    constructor
    · rintro ⟨e, he, rfl⟩
      obtain ⟨he, hp⟩ := List.mem_filter.mp he
      obtain ⟨hb, hi⟩ := (hmem e).mp he
      exact ⟨hb, e.2, hi, hp⟩
    · rintro ⟨hb, data, hi, hp⟩
      exact ⟨(d, data), List.mem_filter.mpr ⟨(hmem (d, data)).mpr ⟨hb, hi⟩, hp⟩, rfl⟩
  · obtain ⟨N, hN⟩ := getAroundData_represents iStatus iType iMaxCount ht
    refine ⟨N, ?_⟩
    rw [hN N (le_refl N), htidy.scan_eq hok]
    congr 3
    simp

/-- In a well-formed index every item is in a list that is read. -/
theorem WellFormed.seen_iff {d : Nat} (h : WellFormed conf.nMapMaxLevel s) (hp : InTree conf.nMapMaxLevel s p) :
    Seen conf.nMapMaxLevel s d p ↔ Beneath conf.nMapMaxLevel s d p := by
  constructor
  · intro hs
    clear hp
    induction hs with
    | list hm _ hd => exact .list hm hd
    | child hm hL hc _ ih => exact .child hm hL hc ih
  · intro hb
    induction hb with
    | @list p m hm hd =>
        obtain ⟨m', hm', hnode⟩ := h.node p hp
        obtain rfl := Option.some.inj (hm.symm.trans hm')
        refine .list hm (not_lt.mp fun hL => ?_) hd
        rw [hnode.inner hL] at hd
        cases hd
    | child hm hL hc _ ih => exact .child hm hL hc (ih (.child hp hm hL hc))

theorem WellFormed.readable (h : WellFormed conf.nMapMaxLevel s) : Readable conf.nMapMaxLevel s := by
  refine ⟨h.top, fun p hp => ?_⟩
  obtain ⟨m, hm, hnode⟩ := h.node p hp
  exact ⟨m, hm, hnode.childs, hnode.leaf, fun d hd => hnode.count d ((h.seen_iff hp).mp hd)⟩

theorem WellFormed.returns (h : WellFormed conf.nMapMaxLevel s) (rc : NlaRect) (iStatus iType : Int32) :
    ∃ all : List Entry, (all.map Prod.fst).Nodup ∧
      (∀ d, d ∈ all.map Prod.fst ↔ d ∈ matching conf.nMapMaxLevel s rc iStatus iType) ∧ (∀ e ∈ all, s.item e.1 = some e.2) ∧
      ∀ iMaxCount : Int, Returns conf s rc iStatus iType iMaxCount
        (NlaExParam.emitAll ⟨0, [], []⟩ (all.take iMaxCount.toNat)) := by
  obtain ⟨all, hnd, hall, hitem, hret⟩ := h.readable.returns rc iStatus iType
  refine ⟨all, hnd, fun d => (hall d).trans ?_, hitem, hret⟩
  exact and_congr_left fun _ => h.seen_iff .root

theorem finite_and_ncard {S : Set DataPtr} {l : List DataPtr} (hnd : l.Nodup) (hl : ∀ d, d ∈ l ↔ d ∈ S) :
    S.Finite ∧ S.ncard = l.length := by
  have hset : S = (l.toFinset : Set DataPtr) := by
    ext d
    rw [Finset.mem_coe, List.mem_toFinset, hl]
  rw [hset, Set.ncard_coe_finset, List.toFinset_card_of_nodup hnd]
  exact ⟨Finset.finite_toSet _, rfl⟩

/-- **A query on a well-formed index is the naive scan**: it returns, and it emits pairwise distinct matching items, as
many as there are or as the bound allows; a smaller bound emits a prefix. -/
theorem getAroundData_naive (h : WellFormed conf.nMapMaxLevel s) (rc : NlaRect) (iStatus iType : Int32) :
    (matching conf.nMapMaxLevel s rc iStatus iType).Finite ∧
      (∀ iMaxCount : Int, 0 ≤ iMaxCount → ∃ ex, Returns conf s rc iStatus iType iMaxCount ex ∧ ex.emitted.Nodup ∧
        (∀ d ∈ ex.emitted, d ∈ matching conf.nMapMaxLevel s rc iStatus iType) ∧
        (ex.emitted.length : Int) = min iMaxCount ((matching conf.nMapMaxLevel s rc iStatus iType).ncard : Int)) ∧
      ∀ (iMaxCount iMaxCount' : Int) (ex ex' : NlaExParam), 0 ≤ iMaxCount → iMaxCount ≤ iMaxCount' →
        Returns conf s rc iStatus iType iMaxCount ex → Returns conf s rc iStatus iType iMaxCount' ex' →
          ex.emitted <+: ex'.emitted := by
  obtain ⟨all, hnd, hall, -, hret⟩ := h.returns rc iStatus iType
  obtain ⟨hfin, hcard⟩ := finite_and_ncard hnd hall
  refine ⟨hfin, fun iMaxCount h0 => ?_, fun a b ex ex' h0 hab hex hex' => ?_⟩
  · have hem : (NlaExParam.emitAll ⟨0, [], []⟩ (all.take iMaxCount.toNat)).emitted =
        (all.map Prod.fst).take iMaxCount.toNat := by
      rw [emitted_emitAll, List.map_take, List.nil_append]
    refine ⟨_, hret iMaxCount, ?_, fun d hd => ?_, ?_⟩
    · rw [hem]
      exact hnd.sublist (List.take_sublist _ _)
    · rw [hem] at hd
      exact (hall d).mp (List.mem_of_mem_take hd)
    · rw [hem, hcard, List.length_take]
      omega
  · obtain rfl := hex.unique (hret a)
    obtain rfl := hex'.unique (hret b)
    rw [emitted_emitAll, emitted_emitAll, List.map_take, List.map_take, List.nil_append, List.nil_append]
    exact List.take_prefix_take_left (by omega)

end WellFormed

/-- An item, and the index of level 1 that has it in the last quadrant. -/
def oneItem : NlaDataItem := { achId := ascii "a", iStatus := 1, iType := 2, loc := ⟨5, 5⟩, lastUpdateTime := 0 }

def oneItemChild (i : Fin 4) : NlaMapNode where
  rc := childRect initRootRect i
  apChilds := fun _ => none
  pParent := some 0
  iLevel := 1
  pDataNode := if i = 3 then some 0 else none
  iItemCount := if i = 3 then 1 else 0

def oneItemIndex : NlaCoreData where
  mapNodes :=
    { rc := initRootRect, apChilds := fun i => some (1 + i), pParent := none, iLevel := 0, pDataNode := none,
      iItemCount := 1 } :: List.ofFn oneItemChild
  dataNodes := [{ data := oneItem, prev := none, next := none, pMapNode := some 4 }]
  pMapRoot := 0
  pId2dataMap := smNew DataPtr 1 (by decide)

theorem wellFormed_oneItemIndex : WellFormed 1 oneItemIndex := by
  have hchild : ∀ i : Fin 4, oneItemIndex.mapNodes[1 + i.val]? = some (oneItemChild i) := by
    intro i
    fin_cases i <;> rfl
  have htree : ∀ p, InTree 1 oneItemIndex p → p = 0 ∨ ∃ i : Fin 4, p = 1 + i.val := by
    intro p hp
    induction hp with
    | root => exact Or.inl rfl
    | @child p c m i _ hm _ hc ih =>
        rcases ih with rfl | ⟨j, rfl⟩
        · cases hm
          exact Or.inr ⟨i, (Option.some.inj hc).symm⟩
        · obtain rfl := Option.some.inj ((hchild j).symm.trans hm)
          cases hc
  refine ⟨⟨_, rfl, rfl, rfl⟩, fun p hp => ?_⟩
  rcases htree p hp with rfl | ⟨i, rfl⟩
  · refine ⟨_, rfl, fun _ => Or.inr fun i => ⟨_, _, rfl, hchild i, rfl, rfl⟩, fun _ => rfl, fun hL => ?_, fun _ _ => ?_⟩
    · exact absurd hL (by decide)
    · exact by decide
  · have hlev : ¬ (1 : Int) < 1 := lt_irrefl 1
    refine ⟨_, hchild i, fun hL => absurd hL hlev, fun hL => absurd hL hlev, fun _ => ?_, fun d hd => ?_⟩
    · by_cases hi : i = 3
      · subst hi
        refine ⟨[(0, oneItem)], ⟨.cons .nil, ?_⟩, ?_⟩ <;> intro e he <;> rw [List.mem_singleton.mp he] <;> rfl
      · have hnil : (oneItemChild i).pDataNode = none := if_neg hi
        rw [hnil]
        exact ⟨[], ⟨.nil, fun e he => absurd he List.not_mem_nil⟩, fun e he => absurd he List.not_mem_nil⟩
    · by_cases hi : i = 3
      · subst hi
        decide
      · have hnil : (oneItemChild i).pDataNode = none := if_neg hi
        cases hd with
        | list hm hr =>
            obtain rfl := Option.some.inj ((hchild i).symm.trans hm)
            rw [hnil] at hr
            cases hr
        | child hm _ hc _ =>
            obtain rfl := Option.some.inj ((hchild i).symm.trans hm)
            cases hc

theorem getAroundData_naive_oneItemIndex :
    ∃ ex, Returns ⟨1⟩ oneItemIndex initRootRect 1 (-1) 7 ex ∧
      (ex.emitted.length : Int) = min 7 ((matching 1 oneItemIndex initRootRect 1 (-1)).ncard : Int) := by
  have hwf : WellFormed (Conf.mk 1).nMapMaxLevel oneItemIndex := wellFormed_oneItemIndex
  obtain ⟨-, hmax, -⟩ := getAroundData_naive hwf initRootRect 1 (-1)
  obtain ⟨ex, hret, -, -, hlen⟩ := hmax 7 (by decide)
  exact ⟨ex, hret, hlen⟩

end Lookaround
