import Lookaround.Sections

/-!
# A query beside the workers

`get_around_data` takes no lock. Here a query takes single steps, as a machine with a stack of the calls and loops it is in,
and the workers of `SpinMoves` take theirs between them.

* `Frame`, `readStep` : the steps of a query; `ReadMove` : what a step can do;
* `querySteps_getAroundData` : on data that does not change they lead to the answer of `getAroundData`;
* `Reading` : the steps of a query and of the workers, in any order;
* `Pointers`, `Partial` : what holds of the shared data in the middle of a section;
* `Grows` : what a query has read stays good for its next step;
* `reading_fault_iff` : a query faults when it comes to a child that is not created yet, and never otherwise.
-/

namespace Lookaround

open NlaCoreData Library

/-! ## The steps of a query -/

/-- What a query is about. -/
structure AroundQuery where
  rc : NlaRect
  iStatus : Int32
  iType : Int32
  iMaxCount : Int

/-- A call of `get_around_data` or one of its loops, with what is left of it: a node to enter, the head of the leaf loop, the
step to the next item, the children of a node that are left. -/
inductive Frame where
  | node (p : MapPtr) (rc : NlaRect)
  | list (cur : Option DataPtr) (rc : NlaRect)
  | next (d : DataPtr) (rc : NlaRect)
  | childs (p : MapPtr) (rc : NlaRect) (left : List (Fin 4))

/-- One step of a query. -/
def readStep (conf : Conf) (q : AroundQuery) (s : NlaCoreData) :
    List Frame → NlaExParam → Except Fault (List Frame × NlaExParam)
  | [], ex => .ok ([], ex)
  | .node p rc :: fs, ex => do
    let m ← s.mapAt p
    if m.iItemCount = 0 then
      return (fs, ex)
    if conf.nMapMaxLevel ≤ m.iLevel then
      return (.list m.pDataNode rc :: fs, ex)
    if m.apChilds 0 = none then
      return (fs, ex)
    return (.childs p rc [0, 1, 2, 3] :: fs, ex)
  | .list cur rc :: fs, ex =>
    if ex.count < q.iMaxCount then
      match cur with
      | none => .ok (fs, ex)
      | some d => do
        let n ← s.dataAt d
        return (.next d rc :: fs, if passes rc q.iStatus q.iType n.data then emit ex d n.data else ex)
    else .ok (fs, ex)
  | .next d rc :: fs, ex => do
    let n ← s.dataAt d
    return (.list n.next rc :: fs, ex)
  | .childs _ _ [] :: fs, ex => .ok (fs, ex)
  | .childs p rc (i :: left) :: fs, ex => do
    let m ← s.mapAt p
    let child ← nonNull (m.apChilds i)
    let c ← s.mapAt child
    match intersectRc c.rc rc with
    | none => return (.childs p rc left :: fs, ex)
    | some newRc => return (.node child newRc :: .childs p rc left :: fs, ex)

/-- The steps of a query on data that does not change. -/
abbrev QuerySteps (conf : Conf) (q : AroundQuery) (s : NlaCoreData) :
    List Frame × NlaExParam → List Frame × NlaExParam → Prop :=
  Relation.ReflTransGen fun a b => readStep conf q s a.1 a.2 = .ok b

variable {conf : Conf} {q : AroundQuery} {s s' : NlaCoreData} {fs fs' : List Frame} {ex ex' : NlaExParam} {rc : NlaRect}
  {p d fuel : Nat} {m : NlaMapNode}

/-- What a step of a query can do. -/
inductive ReadMove (conf : Conf) (q : AroundQuery) (s : NlaCoreData) :
    List Frame → NlaExParam → List Frame → NlaExParam → Prop
  | stop {ex : NlaExParam} : ReadMove conf q s [] ex [] ex
  | empty {p : Nat} {rc : NlaRect} {fs : List Frame} {ex : NlaExParam} {m : NlaMapNode} (hm : s.mapNodes[p]? = some m)
      (h1 : m.iItemCount = 0) : ReadMove conf q s (.node p rc :: fs) ex fs ex
  | leaf {p : Nat} {rc : NlaRect} {fs : List Frame} {ex : NlaExParam} {m : NlaMapNode} (hm : s.mapNodes[p]? = some m)
      (h1 : m.iItemCount ≠ 0) (hL : conf.nMapMaxLevel ≤ m.iLevel) :
      ReadMove conf q s (.node p rc :: fs) ex (.list m.pDataNode rc :: fs) ex
  | bare {p : Nat} {rc : NlaRect} {fs : List Frame} {ex : NlaExParam} {m : NlaMapNode} (hm : s.mapNodes[p]? = some m)
      (h1 : m.iItemCount ≠ 0) (hL : m.iLevel < conf.nMapMaxLevel) (h0 : m.apChilds 0 = none) :
      ReadMove conf q s (.node p rc :: fs) ex fs ex
  | inner {p : Nat} {rc : NlaRect} {fs : List Frame} {ex : NlaExParam} {m : NlaMapNode} (hm : s.mapNodes[p]? = some m)
      (h1 : m.iItemCount ≠ 0) (hL : m.iLevel < conf.nMapMaxLevel) (h0 : m.apChilds 0 ≠ none) :
      ReadMove conf q s (.node p rc :: fs) ex (.childs p rc [0, 1, 2, 3] :: fs) ex
  | full {cur : Option DataPtr} {rc : NlaRect} {fs : List Frame} {ex : NlaExParam} (hc : ¬ ex.count < q.iMaxCount) :
      ReadMove conf q s (.list cur rc :: fs) ex fs ex
  | tail {rc : NlaRect} {fs : List Frame} {ex : NlaExParam} : ReadMove conf q s (.list none rc :: fs) ex fs ex
  | item {d : Nat} {rc : NlaRect} {fs : List Frame} {ex : NlaExParam} {n : NlaDataNode} (hc : ex.count < q.iMaxCount)
      (hn : s.dataNodes[d]? = some n) : ReadMove conf q s (.list (some d) rc :: fs) ex (.next d rc :: fs)
        (if passes rc q.iStatus q.iType n.data then emit ex d n.data else ex)
  | next {d : Nat} {rc : NlaRect} {fs : List Frame} {ex : NlaExParam} {n : NlaDataNode} (hn : s.dataNodes[d]? = some n) :
      ReadMove conf q s (.next d rc :: fs) ex (.list n.next rc :: fs) ex
  | last {p : Nat} {rc : NlaRect} {fs : List Frame} {ex : NlaExParam} : ReadMove conf q s (.childs p rc [] :: fs) ex fs ex
  | miss {p child : Nat} {rc : NlaRect} {left : List (Fin 4)} {i : Fin 4} {fs : List Frame} {ex : NlaExParam}
      {m k : NlaMapNode} (hm : s.mapNodes[p]? = some m) (hc : m.apChilds i = some child)
      (hk : s.mapNodes[child]? = some k) (hrc : intersectRc k.rc rc = none) :
      ReadMove conf q s (.childs p rc (i :: left) :: fs) ex (.childs p rc left :: fs) ex
  | enter {p child : Nat} {rc newRc : NlaRect} {left : List (Fin 4)} {i : Fin 4} {fs : List Frame} {ex : NlaExParam}
      {m k : NlaMapNode} (hm : s.mapNodes[p]? = some m) (hc : m.apChilds i = some child)
      (hk : s.mapNodes[child]? = some k) (hrc : intersectRc k.rc rc = some newRc) :
      ReadMove conf q s (.childs p rc (i :: left) :: fs) ex (.node child newRc :: .childs p rc left :: fs) ex

theorem eq_some_of_nonNull {α : Type} {a : Option α} {b : α} (h : nonNull a = .ok b) : a = some b := by
  cases a with
  | none => cases h
  | some a =>
      cases h
      rfl

theorem readMove_node {rc : NlaRect} (h : readStep conf q s (.node p rc :: fs) ex = .ok (fs', ex')) :
    ReadMove conf q s (.node p rc :: fs) ex fs' ex' := by
  obtain ⟨m, hm, h⟩ := bind_eq_ok.mp h
  have hm := getElem?_of_mapAt hm
  by_cases h1 : m.iItemCount = 0
  · rw [if_pos h1] at h
    cases h
    exact .empty hm h1
  rw [if_neg h1] at h
  by_cases h2 : conf.nMapMaxLevel ≤ m.iLevel
  · rw [if_pos h2] at h
    cases h
    exact .leaf hm h1 h2
  rw [if_neg h2] at h
  by_cases h3 : m.apChilds 0 = none
  · rw [if_pos h3] at h
    cases h
    exact .bare hm h1 (not_le.mp h2) h3
  · rw [if_neg h3] at h
    cases h
    exact .inner hm h1 (not_le.mp h2) h3

theorem readMove_list {rc : NlaRect} {cur : Option DataPtr}
    (h : readStep conf q s (.list cur rc :: fs) ex = .ok (fs', ex')) :
    ReadMove conf q s (.list cur rc :: fs) ex fs' ex' := by
  simp only [readStep] at h
  by_cases hc : ex.count < q.iMaxCount
  · rw [if_pos hc] at h
    cases cur with
    | none =>
        cases h
        exact .tail
    | some d =>
        obtain ⟨n, hn, h⟩ := bind_eq_ok.mp h
        cases h
        exact .item hc (getElem?_of_dataAt hn)
  · rw [if_neg hc] at h
    cases h
    exact .full hc

theorem readMove_childs {rc : NlaRect} {left : List (Fin 4)}
    (h : readStep conf q s (.childs p rc left :: fs) ex = .ok (fs', ex')) :
    ReadMove conf q s (.childs p rc left :: fs) ex fs' ex' := by
  cases left with
  | nil =>
      cases h
      exact .last
  | cons i left =>
      obtain ⟨m, hm, h⟩ := bind_eq_ok.mp h
      obtain ⟨child, hchild, h⟩ := bind_eq_ok.mp h
      obtain ⟨k, hk, h⟩ := bind_eq_ok.mp h
      have hm := getElem?_of_mapAt hm
      have hc := eq_some_of_nonNull hchild
      have hk := getElem?_of_mapAt hk
      cases hrc : intersectRc k.rc rc with
      | none =>
          rw [hrc] at h
          cases h
          exact .miss hm hc hk hrc
      | some newRc =>
          rw [hrc] at h
          cases h
          exact .enter hm hc hk hrc

/-- **The cases of `readStep`.** -/
theorem readStep_eq_ok : readStep conf q s fs ex = .ok (fs', ex') ↔ ReadMove conf q s fs ex fs' ex' := by
  constructor
  · intro h
    cases fs with
    | nil =>
        cases h
        exact .stop
    | cons f fs =>
        cases f with
        | node p rc => exact readMove_node h
        | list cur rc => exact readMove_list h
        | next d rc =>
            obtain ⟨n, hn, h⟩ := bind_eq_ok.mp h
            cases h
            exact .next (getElem?_of_dataAt hn)
        | childs p rc left => exact readMove_childs h
  · intro h
    cases h with
    | stop => rfl
    | empty hm h1 => simp only [readStep, mapAt_ok hm, bind, Except.bind, pure, Except.pure, if_pos h1]
    | leaf hm h1 hL => simp only [readStep, mapAt_ok hm, bind, Except.bind, pure, Except.pure, if_neg h1, if_pos hL]
    | bare hm h1 hL h0 =>
        simp only [readStep, mapAt_ok hm, bind, Except.bind, pure, Except.pure, if_neg h1, if_neg (not_le.mpr hL), if_pos h0]
    | inner hm h1 hL h0 =>
        simp only [readStep, mapAt_ok hm, bind, Except.bind, pure, Except.pure, if_neg h1, if_neg (not_le.mpr hL), if_neg h0]
    | full hc => simp only [readStep, if_neg hc]
    | tail => simp only [readStep, ite_self]
    | item hc hn => simp only [readStep, if_pos hc, dataAt_ok hn, bind, Except.bind, pure, Except.pure]
    | next hn => simp only [readStep, dataAt_ok hn, bind, Except.bind, pure, Except.pure]
    | last => rfl
    | miss hm hc hk hrc =>
        simp only [readStep, mapAt_ok hm, hc, nonNull, mapAt_ok hk, hrc, bind, Except.bind, pure, Except.pure]
    | enter hm hc hk hrc =>
        simp only [readStep, mapAt_ok hm, hc, nonNull, mapAt_ok hk, hrc, bind, Except.bind, pure, Except.pure]

/-- The leaf loop. -/
theorem querySteps_leafLoop {cur : Option DataPtr}
    (h : s.leafLoop rc q.iStatus q.iType q.iMaxCount fuel cur ex = .ok ex') :
    QuerySteps conf q s (.list cur rc :: fs, ex) (fs, ex') := by
  induction fuel generalizing cur ex with
  | zero => cases h
  | succ fuel ih =>
      unfold leafLoop at h
      by_cases hc : ex.count < q.iMaxCount
      · rw [if_pos hc] at h
        cases cur with
        | none =>
            cases h
            exact .single (readStep_eq_ok.mpr .tail)
        | some d =>
            obtain ⟨n, hn, h⟩ := bind_eq_ok.mp h
            have hn := getElem?_of_dataAt hn
            exact .head (readStep_eq_ok.mpr (.item hc hn)) (.head (readStep_eq_ok.mpr (.next hn)) (ih h))
      · rw [if_neg hc] at h
        cases h
        exact .single (readStep_eq_ok.mpr (.full hc))

/-- The loop over the children, given the calls it makes. The induction is on the children that are left. -/
theorem querySteps_childs {left : List (Fin 4)} (hm : s.mapNodes[p]? = some m)
    (hcall : ∀ (child : Nat) (newRc : NlaRect) (fs : List Frame) (ex ex' : NlaExParam),
      s.getAroundData conf q.iStatus q.iType q.iMaxCount fuel (some child) newRc ex = .ok ex' →
        QuerySteps conf q s (.node child newRc :: fs, ex) (fs, ex'))
    (h : left.foldlM (fun ex i => do
      let child ← nonNull (m.apChilds i)
      let c ← s.mapAt child
      match intersectRc c.rc rc with
      | none => return ex
      | some newRc => s.getAroundData conf q.iStatus q.iType q.iMaxCount fuel (some child) newRc ex) ex = .ok ex') :
    QuerySteps conf q s (.childs p rc left :: fs, ex) (fs, ex') := by
  induction left generalizing ex with
  | nil =>
      cases h
      exact .single rfl
  | cons i left ih =>
      obtain ⟨ex1, h1, h⟩ := bind_eq_ok.mp h
      obtain ⟨child, hchild, h1⟩ := bind_eq_ok.mp h1
      obtain ⟨c, hc, h1⟩ := bind_eq_ok.mp h1
      have hchild := eq_some_of_nonNull hchild
      have hc := getElem?_of_mapAt hc
      cases hrc : intersectRc c.rc rc with
      | none =>
          rw [hrc] at h1
          cases h1
          exact .head (readStep_eq_ok.mpr (.miss hm hchild hc hrc)) (ih h)
      | some newRc =>
          rw [hrc] at h1
          exact .head (readStep_eq_ok.mpr (.enter hm hchild hc hrc)) ((hcall child newRc _ ex ex1 h1).trans (ih h))

/-- **The steps of a query lead to its answer**, on data that does not change. -/
theorem querySteps_getAroundData (h : s.getAroundData conf q.iStatus q.iType q.iMaxCount fuel (some p) rc ex = .ok ex') :
    QuerySteps conf q s (.node p rc :: fs, ex) (fs, ex') := by
  induction fuel generalizing p rc ex ex' fs with
  | zero => cases h
  | succ fuel ih =>
      unfold getAroundData at h
      obtain ⟨m, hm, h⟩ := bind_eq_ok.mp h
      have hm := getElem?_of_mapAt hm
      by_cases h1 : m.iItemCount = 0
      · rw [if_pos h1] at h
        cases h
        exact .single (readStep_eq_ok.mpr (.empty hm h1))
      · rw [if_neg h1] at h
        by_cases h2 : conf.nMapMaxLevel ≤ m.iLevel
        · rw [if_pos h2] at h
          exact .head (readStep_eq_ok.mpr (.leaf hm h1 h2)) (querySteps_leafLoop h)
        · rw [if_neg h2] at h
          by_cases h3 : m.apChilds 0 = none
          · rw [if_pos h3] at h
            cases h
            exact .single (readStep_eq_ok.mpr (.bare hm h1 (not_le.mp h2) h3))
          · rw [if_neg h3] at h
            exact .head (readStep_eq_ok.mpr (.inner hm h1 (not_le.mp h2) h3)) (querySteps_childs hm (fun _ _ _ _ _ => ih) h)

/-! ## The data in the middle of a section -/

/-- The pointers a query follows are those of nodes, and the children of a node come in order. -/
structure Pointers (s : NlaCoreData) : Prop where
  root : s.pMapRoot < s.mapNodes.length
  childs : ∀ (p c : Nat) (m : NlaMapNode) (i : Fin 4), s.mapNodes[p]? = some m → m.apChilds i = some c →
    c < s.mapNodes.length
  first : ∀ (p : Nat) (m : NlaMapNode), s.mapNodes[p]? = some m → m.apChilds 0 = none → ∀ i, m.apChilds i = none
  heads : s.HeadsOk
  nexts : ∀ d e : Nat, s.next d = some e → e < s.dataNodes.length

/-- The children that are missing in a node that has its first are those the stage still has to create. -/
structure Partial (o : Option Stage) (ms : List NlaMapNode) : Prop where
  done : ∀ (p : Nat) (m : NlaMapNode) (i : Fin 4), ms[p]? = some m → m.apChilds 0 ≠ none → m.apChilds i = none →
    ∃ l, o = some (.grow p l) ∧ i ∈ l
  left : ∀ (p : Nat) (l : List (Fin 4)), o = some (.grow p l) → l <:+ [0, 1, 2, 3] ∧
    ∀ (m : NlaMapNode) (i : Fin 4), ms[p]? = some m → (i ∈ l ↔ m.apChilds i = none)

variable {op : SetItem} {c : Stage} {o o' : Option Stage}

/-- Outside `create_child_mapnode` no child is missing. -/
theorem Partial.outside {ms : List NlaMapNode} (h : Partial o ms) (ho : ∀ p l, o ≠ some (.grow p l))
    (ho' : ∀ p l, o' ≠ some (.grow p l)) : Partial o' ms := by
  refine ⟨fun p m i hm h0 hi => ?_, fun p l hl => absurd hl (ho' p l)⟩
  obtain ⟨l, hl, -⟩ := h.done p m i hm h0 hi
  exact absurd hl (ho p l)

/-- A write to a map node that leaves its children. -/
theorem NlaCoreData.modifyMap_cases {f : NlaMapNode → NlaMapNode} {r : Nat} {k : NlaMapNode}
    (hk : (s.modifyMap p f).mapNodes[r]? = some k) (hf : ∀ m, (f m).apChilds = m.apChilds) :
    ∃ m, s.mapNodes[r]? = some m ∧ k.apChilds = m.apChilds := by
  rw [mapNodes_modifyMap] at hk
  split_ifs at hk
  · obtain ⟨m, hm, rfl⟩ := Option.map_eq_some_iff.mp hk
    exact ⟨m, hm, hf m⟩
  · exact ⟨k, hk, rfl⟩

theorem Pointers.modifyMap {f : NlaMapNode → NlaMapNode} (h : Pointers s) (hf : ∀ m, (f m).apChilds = m.apChilds)
    (hh : ∀ (m : NlaMapNode) (e : Nat), s.mapNodes[p]? = some m → (f m).pDataNode = some e → e < s.dataNodes.length) :
    Pointers (s.modifyMap p f) where
  root := by
    rw [length_modifyMap]
    exact h.root
  childs := by
    intro r c k i hk hc
    obtain ⟨m, hm, heq⟩ := modifyMap_cases hk hf
    rw [length_modifyMap]
    exact h.childs r c m i hm (by rw [← heq, hc])
  first := by
    intro r k hk h0 i
    obtain ⟨m, hm, heq⟩ := modifyMap_cases hk hf
    rw [heq]
    exact h.first r m hm (by rw [← heq, h0]) i
  heads := by
    intro r e he
    rw [NlaCoreData.head, mapNodes_modifyMap] at he
    split_ifs at he with hpr
    · subst hpr
      obtain ⟨k, hk, he⟩ := Option.bind_eq_some_iff.mp he
      obtain ⟨m, hm, rfl⟩ := Option.map_eq_some_iff.mp hk
      exact hh m e hm he
    · exact h.heads r e he
  nexts := h.nexts

theorem Partial.modifyMap {f : NlaMapNode → NlaMapNode} (h : Partial o s.mapNodes)
    (hf : ∀ m, (f m).apChilds = m.apChilds) : Partial o (s.modifyMap p f).mapNodes where
  done := by
    intro r k i hk h0 hi
    obtain ⟨m, hm, heq⟩ := modifyMap_cases hk hf
    rw [heq] at h0 hi
    exact h.done r m i hm h0 hi
  left := by
    intro r l hl
    obtain ⟨hsuf, hleft⟩ := h.left r l hl
    refine ⟨hsuf, fun k i hk => ?_⟩
    obtain ⟨m, hm, heq⟩ := modifyMap_cases hk hf
    rw [heq]
    exact hleft m i hm

/-- The nodes after a round of `create_child_mapnode`. -/
theorem NlaCoreData.getElem?_withChild (hm : s.mapNodes[p]? = some m) (i : Fin 4) (r : Nat) :
    (s.withChild p m i).mapNodes[r]? =
      if r = p then some { m with apChilds := Function.update m.apChilds i (some s.mapNodes.length) }
      else if r = s.mapNodes.length then some (newChild p m i) else s.mapNodes[r]? := by
  have hp : p < s.mapNodes.length := (List.getElem?_eq_some_iff.mp hm).1
  unfold NlaCoreData.withChild
  rw [mapNodes_modifyMap]
  by_cases hpr : r = p
  · rw [if_pos hpr.symm, if_pos hpr, hpr, List.getElem?_append_left hp, hm]
    rfl
  · rw [if_neg (Ne.symm hpr), if_neg hpr]
    by_cases hr : r = s.mapNodes.length
    · rw [if_pos hr, hr]
      exact List.getElem?_concat_length
    · rw [if_neg hr, List.getElem?_append, List.getElem?_singleton]
      split_ifs with hlt h0
      · rfl
      · omega
      · exact (List.getElem?_eq_none_iff.mpr (not_lt.mp hlt)).symm

theorem NlaCoreData.withChild_cases {i : Fin 4} {r : Nat} {k : NlaMapNode} (hm : s.mapNodes[p]? = some m)
    (hk : (s.withChild p m i).mapNodes[r]? = some k) :
    (r = p ∧ k = { m with apChilds := Function.update m.apChilds i (some s.mapNodes.length) }) ∨
      (r ≠ p ∧ s.mapNodes[r]? = some k) ∨ (r = s.mapNodes.length ∧ k = newChild p m i) := by
  rw [getElem?_withChild hm] at hk
  split_ifs at hk with hpr hr
  · exact Or.inl ⟨hpr, (Option.some.inj hk).symm⟩
  · exact Or.inr (Or.inr ⟨hr, (Option.some.inj hk).symm⟩)
  · exact Or.inr (Or.inl ⟨hpr, hk⟩)

theorem length_withChild (s : NlaCoreData) (p : Nat) (m : NlaMapNode) (i : Fin 4) :
    (s.withChild p m i).mapNodes.length = s.mapNodes.length + 1 := by
  unfold NlaCoreData.withChild
  rw [length_modifyMap, List.length_append]
  rfl

/-- Only the whole list of the children has the first. -/
theorem zero_not_mem_of_suffix {i : Fin 4} {l : List (Fin 4)} (h : (i :: l) <:+ [0, 1, 2, 3]) : (0 : Fin 4) ∉ l := by
  rcases List.suffix_cons_iff.mp h with h | h
  · cases h
    decide
  · intro h0
    have := h.subset (List.mem_cons_of_mem i h0)
    revert this
    decide

theorem Pointers.withChild {i : Fin 4} {l : List (Fin 4)} (h : Pointers s)
    (hpart : Partial (some (.grow p (i :: l))) s.mapNodes) (hm : s.mapNodes[p]? = some m) :
    Pointers (s.withChild p m i) where
  root := by
    rw [length_withChild]
    exact Nat.lt_succ_of_lt h.root
  childs := by
    intro r c k j hk hc
    rw [length_withChild]
    rcases withChild_cases hm hk with ⟨-, rfl⟩ | ⟨-, hk⟩ | ⟨-, rfl⟩
    · change Function.update m.apChilds i _ j = some c at hc
      rw [Function.update_apply] at hc
      split_ifs at hc
      · cases hc
        exact Nat.lt_succ_self _
      · exact Nat.lt_succ_of_lt (h.childs p c m j hm hc)
    · exact Nat.lt_succ_of_lt (h.childs r c k j hk hc)
    · cases hc
  first := by
    intro r k hk h0 j
    rcases withChild_cases hm hk with ⟨-, rfl⟩ | ⟨-, hk⟩ | ⟨-, rfl⟩
    · -- the first child is created before the others
      obtain ⟨hsuf, hleft⟩ := hpart.left p (i :: l) rfl
      change Function.update m.apChilds i _ 0 = none at h0
      rw [Function.update_apply] at h0
      split_ifs at h0 with hi
      rcases List.mem_cons.mp ((hleft m 0 hm).mpr h0) with h0i | h0l
      · exact absurd h0i hi
      · exact absurd h0l (zero_not_mem_of_suffix hsuf)
    · exact h.first r k hk h0 j
    · rfl
  heads := by
    intro r e he
    obtain ⟨k, hk, he⟩ := Option.bind_eq_some_iff.mp he
    rcases withChild_cases hm hk with ⟨-, rfl⟩ | ⟨-, hk⟩ | ⟨-, rfl⟩
    · exact h.heads p e (by rw [head_eq hm]; exact he)
    · exact h.heads r e (by rw [head_eq hk, he])
    · cases he
  nexts := h.nexts

theorem Partial.withChild {i : Fin 4} {l : List (Fin 4)} (h : Partial (some (.grow p (i :: l))) s.mapNodes)
    (hm : s.mapNodes[p]? = some m) : Partial (some (.grow p l)) (s.withChild p m i).mapNodes := by
  obtain ⟨hsuf, hleft⟩ := h.left p (i :: l) rfl
  have hnodup : (i :: l).Nodup := hsuf.sublist.nodup (by decide)
  have hnew : ∀ j : Fin 4, j ∈ l ↔ Function.update m.apChilds i (some s.mapNodes.length) j = none := by
    intro j
    rw [Function.update_apply]
    by_cases hji : j = i
    · rw [if_pos hji, hji]
      exact ⟨fun hj => absurd hj (List.nodup_cons.mp hnodup).1, fun hj => by cases hj⟩
    · rw [if_neg hji, ← hleft m j hm, List.mem_cons]
      exact ⟨Or.inr, fun hj => hj.resolve_left hji⟩
  refine ⟨fun r k j hk h0 hj => ?_, fun r l' hl => ?_⟩
  · rcases withChild_cases hm hk with ⟨rfl, rfl⟩ | ⟨hrp, hk⟩ | ⟨-, rfl⟩
    · exact ⟨l, rfl, (hnew j).mpr hj⟩
    · obtain ⟨l', hl', -⟩ := h.done r k j hk h0 hj
      cases hl'
      exact absurd rfl hrp
    · exact absurd rfl h0
  · cases hl
    refine ⟨(List.suffix_cons i l).trans hsuf, fun k j hk => ?_⟩
    rcases withChild_cases hm hk with ⟨-, rfl⟩ | ⟨hrp, -⟩ | ⟨hlen, -⟩
    · exact hnew j
    · exact absurd rfl hrp
    · have := (List.getElem?_eq_some_iff.mp hm).1
      omega

theorem NlaCoreData.next_setLoc (s : NlaCoreData) (d : DataPtr) (loc : Nla2dloc) : (s.setLoc d loc).next = s.next :=
  funext fun e => view_modifyData NlaDataNode.next (f := fun n => { n with data := { n.data with loc := loc } })
    (fun _ => rfl) e

theorem Pointers.link (h : Pointers s) (hm : s.mapNodes[p]? = some m) (hd : d < s.dataNodes.length) :
    Pointers (s.link p m.pDataNode d) := by
  have hmap := h.modifyMap (p := p) (f := fun m => { m with pDataNode := some d }) (fun _ => rfl) fun _ _ _ he => by
    cases he
    exact hd
  obtain ⟨hnext, -, -⟩ := views_link (p := p) m.pDataNode hd
  have hmaps := mapNodes_link s p m.pDataNode d
  have hroot : (s.link p m.pDataNode d).pMapRoot = s.pMapRoot := by cases m.pDataNode <;> rfl
  refine ⟨?_, ?_, ?_, ?_, ?_⟩
  · rw [hmaps, hroot]
    exact hmap.root
  · rw [hmaps]
    exact hmap.childs
  · rw [hmaps]
    exact hmap.first
  · intro r e he
    rw [head_link hm] at he
    rw [length_link]
    split_ifs at he
    · cases he
      exact hd
    · exact h.heads r e he
  · intro f e he
    rw [hnext, Function.update_apply] at he
    rw [length_link]
    split_ifs at he
    · exact h.heads p e (by rw [head_eq hm, he])
    · exact h.nexts f e he

/-- **A step of a section keeps the pointers a query follows.** -/
theorem MicroStep.pointers (hs : MicroStep conf op d s c s' o) (h : Pointers s) (hpart : Partial (some c) s.mapNodes) :
    Pointers s' ∧ Partial o s'.mapNodes := by
  cases hs with
  | put =>
      refine ⟨⟨h.root, h.childs, h.first, h.heads, h.nexts⟩, hpart.outside ?_ ?_⟩
      · exact fun _ _ hc => by cases hc
      · exact fun _ _ hc => by cases hc
  | remove =>
      refine ⟨h, hpart.outside ?_ ?_⟩
      · exact fun _ _ hc => by cases hc
      · exact fun _ _ hc => by cases hc
  | setLoc hn =>
      refine ⟨⟨h.root, h.childs, h.first, fun r e he => ?_, fun f e he => ?_⟩, hpart.outside ?_ ?_⟩
      · rw [NlaCoreData.setLoc, length_modifyData]
        exact h.heads r e he
      · rw [next_setLoc] at he
        rw [NlaCoreData.setLoc, length_modifyData]
        exact h.nexts f e he
      · exact fun _ _ hc => by cases hc
      · exact fun _ _ hc => by cases hc
  | @visit p m hm =>
      have hbump := hpart.modifyMap (p := p) (f := fun m => { m with iItemCount := m.iItemCount + 1 }) fun _ => rfl
      refine ⟨h.modifyMap (fun _ => rfl) fun k e hk he => h.heads p e (by rw [head_eq hk]; exact he), ?_⟩
      unfold afterVisit
      split_ifs with hL h0
      · exact hbump.outside (fun _ _ hc => by cases hc) fun _ _ hc => by cases hc
      · -- the children of a node that has none are all to come
        refine ⟨fun r k i hk hk0 hi => ?_, fun r l hl => ?_⟩
        · obtain ⟨l, hl, -⟩ := hbump.done r k i hk hk0 hi
          cases hl
        · cases hl
          refine ⟨List.suffix_rfl, fun k i hk => ?_⟩
          obtain ⟨m', hm', heq⟩ := modifyMap_cases hk fun _ => rfl
          obtain rfl := Option.some.inj (hm.symm.trans hm')
          have hall : ∀ i : Fin 4, i ∈ ([0, 1, 2, 3] : List (Fin 4)) := by decide
          rw [heq]
          exact ⟨fun _ => h.first p m hm h0 i, fun _ => hall i⟩
      · exact hbump.outside (fun _ _ hc => by cases hc) fun _ _ hc => by cases hc
  | @grown p =>
      refine ⟨h, fun r k i hk h0 hi => ?_, fun r l hl => by cases hl⟩
      obtain ⟨l, hl, hil⟩ := hpart.done r k i hk h0 hi
      cases hl
      cases hil
  | grow hm => exact ⟨h.withChild hpart hm, hpart.withChild hm⟩
  | out _ _ _ =>
      refine ⟨h, hpart.outside ?_ ?_⟩
      · exact fun _ _ hc => by cases hc
      · exact fun _ _ hc => by cases hc
  | down _ _ _ _ =>
      refine ⟨h, hpart.outside ?_ ?_⟩
      · exact fun _ _ hc => by cases hc
      · exact fun _ _ hc => by cases hc
  | @link p m hm hd hh =>
      have hnone : Partial none s.mapNodes := hpart.outside (fun _ _ hc => by cases hc) fun _ _ hc => by cases hc
      refine ⟨h.link hm hd, ?_⟩
      rw [mapNodes_link]
      exact hnone.modifyMap fun _ => rfl

theorem Touch.next_apply (u : Touch) (s : NlaCoreData) : (u.apply s).next = s.next := by
  cases u with
  | nothing => rfl
  | alloc op => exact (views_withItem s op).1
  | loc e l => exact next_setLoc s e l
  | time e now =>
      exact funext fun k => view_modifyData NlaDataNode.next
        (f := fun n => { n with data := { n.data with lastUpdateTime := now } }) (fun _ => rfl) k

theorem Pointers.apply (h : Pointers s) (u : Touch) : Pointers (u.apply s) where
  root := by
    rw [u.mapNodes_apply, u.pMapRoot_apply]
    exact h.root
  childs := by
    rw [u.mapNodes_apply]
    exact h.childs
  first := by
    rw [u.mapNodes_apply]
    exact h.first
  heads := by
    intro r e he
    rw [NlaCoreData.head, u.mapNodes_apply] at he
    exact (h.heads r e he).trans_le (u.length_le_apply s)
  nexts := by
    intro f e he
    rw [u.next_apply] at he
    exact (h.nexts f e he).trans_le (u.length_le_apply s)

/-! ## Runs -/

/-- What holds of the shared data in every run. -/
structure ReadOk (c : SpinCfg) : Prop where
  locked : Locked c
  pointers : Pointers c.shared.data
  free : c.shared.lock = 0 → Partial none c.shared.data.mapNodes
  held : ∀ (i : Nat) (w : Proc SpinPhase SetItem) (job : Job) (o : Option Stage), c.procs[i]? = some w →
    w.phase = .inside job o → Partial o c.shared.data.mapNodes

/-- What a query has read stays good. -/
structure Grows (s s' : NlaCoreData) : Prop where
  maps : s.mapNodes.length ≤ s'.mapNodes.length
  data : s.dataNodes.length ≤ s'.dataNodes.length
  opened : ∀ (p : Nat) (m : NlaMapNode), s.mapNodes[p]? = some m → m.apChilds 0 ≠ none →
    ∃ m', s'.mapNodes[p]? = some m' ∧ m'.apChilds 0 ≠ none

theorem Grows.refl (s : NlaCoreData) : Grows s s := ⟨le_refl _, le_refl _, fun _ m hm h0 => ⟨m, hm, h0⟩⟩

theorem Grows.apply (s : NlaCoreData) (u : Touch) : Grows s (u.apply s) where
  maps := by rw [u.mapNodes_apply]
  data := u.length_le_apply s
  opened := by
    rw [u.mapNodes_apply]
    exact fun _ m hm h0 => ⟨m, hm, h0⟩

theorem Grows.modifyMap {f : NlaMapNode → NlaMapNode} (hf : ∀ m, m.apChilds 0 ≠ none → (f m).apChilds 0 ≠ none) :
    Grows s (s.modifyMap p f) := by
  refine ⟨(length_modifyMap f).ge, le_refl _, fun r m hm h0 => ?_⟩
  rw [mapNodes_modifyMap, hm]
  split_ifs
  · exact ⟨f m, rfl, hf m h0⟩
  · exact ⟨m, rfl, h0⟩

theorem Grows.trans {s'' : NlaCoreData} (h : Grows s s') (h' : Grows s' s'') : Grows s s'' where
  maps := h.maps.trans h'.maps
  data := h.data.trans h'.data
  opened := by
    intro r m hm h0
    obtain ⟨m', hm', h0'⟩ := h.opened r m hm h0
    exact h'.opened r m' hm' h0'

theorem MicroStep.grows (hs : MicroStep conf op d s c s' o) : Grows s s' := by
  cases hs with
  | put => exact ⟨le_refl _, le_refl _, fun _ m hm h0 => ⟨m, hm, h0⟩⟩
  | remove => exact Grows.refl s
  | setLoc hn => exact ⟨le_refl _, (length_modifyData _).ge, fun _ m hm h0 => ⟨m, hm, h0⟩⟩
  | visit hm => exact Grows.modifyMap fun _ h0 => h0
  | grown => exact Grows.refl s
  | @grow p m i childs hm =>
      have happend : Grows s { s with mapNodes := s.mapNodes ++ [newChild p m i] } := by
        refine ⟨?_, le_refl _, fun r k hk h0 => ⟨k, ?_, h0⟩⟩
        · rw [List.length_append]
          omega
        · rw [List.getElem?_append_left (List.getElem?_eq_some_iff.mp hk).1, hk]
      apply happend.trans
      apply Grows.modifyMap
      intro k h0
      change Function.update k.apChilds i _ 0 ≠ none
      rw [Function.update_apply]
      split_ifs
      · exact Option.some_ne_none _
      · exact h0
  | out _ _ _ => exact Grows.refl s
  | down _ _ _ _ => exact Grows.refl s
  | @link p m hm hd hh =>
      have hmap : Grows s (s.modifyMap p fun m => { m with pDataNode := some d }) := Grows.modifyMap fun _ h0 => h0
      refine ⟨?_, (length_link _ _ _ _).ge, ?_⟩
      · rw [mapNodes_link]
        exact hmap.maps
      · rw [mapNodes_link]
        exact hmap.opened

variable {ncpu i : Nat} {P : SpinCfg → Nat → Prop} {c c' : SpinCfg} {w w' : Proc SpinPhase SetItem} {iHashSize : Nat}
  {todos : List (List SetItem)}

/-- A step of a worker outside the sections. -/
theorem ReadOk.outside {u : Touch} (h : ReadOk c) (hout : ¬ w'.phase.Inside)
    (hlocked : Locked { shared := { c.shared with data := u.apply c.shared.data }, procs := c.procs.set i w' }) :
    ReadOk { shared := { c.shared with data := u.apply c.shared.data }, procs := c.procs.set i w' } where
  locked := hlocked
  pointers := h.pointers.apply u
  free := by
    intro h0
    rw [u.mapNodes_apply]
    exact h.free h0
  held := by
    intro j v job o hv hphase
    rw [u.mapNodes_apply]
    rcases Net.procs_cases hv with ⟨-, rfl⟩ | ⟨-, hv⟩
    · exact absurd ⟨job, o, hphase⟩ hout
    · exact h.held j v job o hv hphase

/-- **Every step keeps the pointers, and what a query has read.** -/
theorem ReadOk.step (h : ReadOk c) (hs : SpinStep conf ncpu i c c') :
    ReadOk c' ∧ Grows c.shared.data c'.shared.data := by
  have hlocked := h.locked.step hs
  cases hs with
  | @mk w op rest shared next hw htodo hop =>
      generalize hphase : w.phase = phase at hop
      cases hop with
      | @out phase s' next hout =>
          obtain rfl := hout.eq_apply
          refine ⟨h.outside ?_ hlocked, Grows.apply _ _⟩
          rintro ⟨job, o, hin⟩
          cases next <;> cases hin
      | @spin job pc pc' hspin =>
          refine ⟨h.outside (u := .nothing) ?_ hlocked, Grows.refl _⟩
          rintro ⟨job', o, hin⟩
          cases hin
      | @acquire job n h0 =>
          refine ⟨⟨hlocked, h.pointers, (fun hz => by cases hz), fun j v job' o hv hin => ?_⟩, Grows.refl _⟩
          rcases Net.procs_cases hv with ⟨-, rfl⟩ | ⟨-, hv⟩
          · cases hin
            exact (h.free h0).outside (fun _ _ hc => by cases hc) fun _ _ hc => by cases job <;> cases hc
          · exact absurd ⟨job', o, hin⟩ (h.locked.free h0 j v hv)
      | @micro job stage s' next hm =>
          have hm := micro_eq_ok.mp hm
          obtain ⟨hptr, hpart⟩ := hm.pointers h.pointers (h.held i w job _ hw hphase)
          refine ⟨⟨hlocked, hptr, fun hz => ?_, fun j v job' o hv hin => ?_⟩, hm.grows⟩
          · exact absurd ⟨job, _, hphase⟩ (h.locked.free hz i w hw)
          · rcases Net.procs_cases hv with ⟨-, rfl⟩ | ⟨hji, hv⟩
            · cases hin
              exact hpart
            · exact absurd (h.locked.unique j i v w hv hw ⟨job', o, hin⟩ ⟨job, _, hphase⟩) hji
      | @release job =>
          refine ⟨⟨hlocked, h.pointers, fun _ => h.held i w job none hw hphase, fun j v job' o hv hin => ?_⟩, Grows.refl _⟩
          exact absurd ⟨job', o, hin⟩ (hlocked.free rfl j v hv)

theorem readOk_start (h0 : 0 < iHashSize) (todos : List (List SetItem)) :
    ReadOk (startSpinCfg (initCoreData iHashSize h0) todos) where
  locked := locked_start _ todos
  pointers := by
    have hs := (inv_init ⟨0⟩ iHashSize h0).sound
    refine ⟨Nat.one_pos, fun p c m i hm hc => ?_, fun p m hm h0 i => ?_, hs.heads, hs.nexts⟩
    · rw [startSpinCfg, Net.start, initCoreData, List.getElem?_singleton] at hm
      split_ifs at hm
      cases hm
      cases hc
    · exact hs.grid.no_childs hm h0 i
  free := by
    intro _
    refine ⟨fun p m i hm hm0 hi => ?_, fun p l hl => by cases hl⟩
    rw [startSpinCfg, Net.start, initCoreData, List.getElem?_singleton] at hm
    split_ifs at hm
    cases hm
    exact absurd rfl hm0
  held := by
    intro i w job o hw hphase
    rw [Net.phase_start hw] at hphase
    cases hphase

/-- A query and the workers, in any order of their steps; every step of a worker meets `P`. -/
inductive Reading (conf : Conf) (ncpu : Nat) (P : SpinCfg → Nat → Prop) (q : AroundQuery) (c0 : SpinCfg) :
    SpinCfg → List Frame → NlaExParam → Prop
  | start {c : SpinCfg} (hr : SpinReach conf ncpu P c0 c) :
      Reading conf ncpu P q c0 c [.node c.shared.data.pMapRoot q.rc] ⟨0, [], []⟩
  | world {c c' : SpinCfg} {i : Nat} {fs : List Frame} {ex : NlaExParam} (h : Reading conf ncpu P q c0 c fs ex) (hP : P c i)
      (hs : SpinStep conf ncpu i c c') : Reading conf ncpu P q c0 c' fs ex
  | read {c : SpinCfg} {fs fs' : List Frame} {ex ex' : NlaExParam} (h : Reading conf ncpu P q c0 c fs ex)
      (hs : readStep conf q c.shared.data fs ex = .ok (fs', ex')) : Reading conf ncpu P q c0 c fs' ex'

/-- What a frame holds on to. -/
def Frame.Ok (s : NlaCoreData) : Frame → Prop
  | .node p _ => p < s.mapNodes.length
  | .list cur _ => ∀ d : Nat, cur = some d → d < s.dataNodes.length
  | .next d _ => d < s.dataNodes.length
  | .childs p _ _ => ∃ m, s.mapNodes[p]? = some m ∧ m.apChilds 0 ≠ none

theorem Frame.Ok.grows {f : Frame} (h : f.Ok s) (hg : Grows s s') : f.Ok s' := by
  cases f with
  | node p rc => exact Nat.lt_of_lt_of_le h hg.maps
  | list cur rc => exact fun d hd => (h d hd).trans_le hg.data
  | next d rc => exact Nat.lt_of_lt_of_le h hg.data
  | childs p rc left =>
      obtain ⟨m, hm, h0⟩ := h
      exact hg.opened p m hm h0

/-- A step of a query: it goes on with frames that hold on to nodes, or it comes to a child that is not there. -/
theorem readStep_cases (conf : Conf) (q : AroundQuery) (ex : NlaExParam) (h : Pointers s) (hfs : ∀ f ∈ fs, f.Ok s) :
    (∃ fs' ex', readStep conf q s fs ex = .ok (fs', ex') ∧ ∀ f ∈ fs', f.Ok s) ∨
      ∃ p rc i left rest m, fs = .childs p rc (i :: left) :: rest ∧ s.mapNodes[p]? = some m ∧ m.apChilds 0 ≠ none ∧
        m.apChilds i = none ∧ readStep conf q s fs ex = .error .nullDeref := by
  cases fs with
  | nil => exact Or.inl ⟨[], ex, rfl, hfs⟩
  | cons f fs =>
      obtain ⟨hf, hrest⟩ := List.forall_mem_cons.mp hfs
      cases f with
      | node p rc =>
          left
          have hm : s.mapNodes[p]? = some s.mapNodes[p] := List.getElem?_eq_getElem hf
          by_cases h1 : s.mapNodes[p].iItemCount = 0
          · exact ⟨fs, ex, readStep_eq_ok.mpr (.empty hm h1), hrest⟩
          by_cases h2 : conf.nMapMaxLevel ≤ s.mapNodes[p].iLevel
          · refine ⟨_, ex, readStep_eq_ok.mpr (.leaf hm h1 h2), List.forall_mem_cons.mpr ⟨fun d hd => ?_, hrest⟩⟩
            exact h.heads p d (by rw [head_eq hm, hd])
          by_cases h3 : s.mapNodes[p].apChilds 0 = none
          · exact ⟨fs, ex, readStep_eq_ok.mpr (.bare hm h1 (not_le.mp h2) h3), hrest⟩
          · exact ⟨_, ex, readStep_eq_ok.mpr (.inner hm h1 (not_le.mp h2) h3),
              List.forall_mem_cons.mpr ⟨⟨_, hm, h3⟩, hrest⟩⟩
      | list cur rc =>
          left
          by_cases hc : ex.count < q.iMaxCount
          · cases cur with
            | none => exact ⟨fs, ex, readStep_eq_ok.mpr .tail, hrest⟩
            | some d =>
                have hd : d < s.dataNodes.length := hf d rfl
                have hn : s.dataNodes[d]? = some s.dataNodes[d] := List.getElem?_eq_getElem hd
                exact ⟨_, _, readStep_eq_ok.mpr (.item hc hn), List.forall_mem_cons.mpr ⟨hd, hrest⟩⟩
          · exact ⟨fs, ex, readStep_eq_ok.mpr (.full hc), hrest⟩
      | next d rc =>
          left
          have hn : s.dataNodes[d]? = some s.dataNodes[d] := List.getElem?_eq_getElem hf
          refine ⟨_, ex, readStep_eq_ok.mpr (.next hn), List.forall_mem_cons.mpr ⟨fun e he => ?_, hrest⟩⟩
          exact h.nexts d e (by rw [NlaCoreData.next, hn, Option.bind_some, he])
      | childs p rc left =>
          obtain ⟨m, hm, h0⟩ := hf
          cases left with
          | nil => exact Or.inl ⟨fs, ex, rfl, hrest⟩
          | cons i left =>
              cases hi : m.apChilds i with
              | none =>
                  refine Or.inr ⟨p, rc, i, left, fs, m, rfl, hm, h0, hi, ?_⟩
                  simp only [readStep, mapAt_ok hm, hi, nonNull, bind, Except.bind]
              | some child =>
                  left
                  have hlt := h.childs p child m i hm hi
                  have hk : s.mapNodes[child]? = some s.mapNodes[child] := List.getElem?_eq_getElem hlt
                  have hchilds : (Frame.childs p rc left).Ok s := ⟨m, hm, h0⟩
                  cases hrc : intersectRc s.mapNodes[child].rc rc with
                  | none =>
                      exact ⟨_, ex, readStep_eq_ok.mpr (.miss hm hi hk hrc), List.forall_mem_cons.mpr ⟨hchilds, hrest⟩⟩
                  | some newRc =>
                      exact ⟨_, ex, readStep_eq_ok.mpr (.enter hm hi hk hrc),
                        List.forall_mem_cons.mpr ⟨hlt, List.forall_mem_cons.mpr ⟨hchilds, hrest⟩⟩⟩

theorem Reading.readOk {c0 : SpinCfg} (h0 : ReadOk c0) (h : Reading conf ncpu P q c0 c fs ex) :
    ReadOk c ∧ ∀ f ∈ fs, f.Ok c.shared.data := by
  induction h with
  | start hr =>
      have hok := hr.invariant h0 fun _ _ _ h _ hs => (h.step hs).1
      refine ⟨hok, fun f hf => ?_⟩
      rw [List.mem_singleton.mp hf]
      exact hok.pointers.root
  | world _ _ hs ih =>
      obtain ⟨hok, hfs⟩ := ih
      obtain ⟨hok', hg⟩ := hok.step hs
      exact ⟨hok', fun f hf => (hfs f hf).grows hg⟩
  | read _ hs ih =>
      obtain ⟨hok, hfs⟩ := ih
      refine ⟨hok, ?_⟩
      rcases readStep_cases conf q _ hok.pointers hfs with ⟨fs1, ex1, h1, hfs1⟩ | ⟨_, _, _, _, _, _, -, -, -, -, hfault⟩
      · rw [hs] at h1
        cases h1
        exact hfs1
      · rw [hs] at hfault
        cases hfault

/-- The child `i` of the node `p` is one that a worker has still to create. -/
def Creating (c : SpinCfg) (p : MapPtr) (i : Fin 4) : Prop :=
  ∃ (j : Nat) (w : Proc SpinPhase SetItem) (job : Job) (l : List (Fin 4)), c.procs[j]? = some w ∧
    w.phase = .inside job (some (.grow p l)) ∧ i ∈ l

/-- A step that fails is at a child that is not there yet: the worker that has the lock is to create it. -/
theorem ReadOk.creating {e : Fault} (h : ReadOk c) (hfs : ∀ f ∈ fs, f.Ok c.shared.data)
    (he : readStep conf q c.shared.data fs ex = .error e) :
    ∃ p rc i left rest, fs = .childs p rc (i :: left) :: rest ∧ Creating c p i := by
  rcases readStep_cases conf q ex h.pointers hfs with
    ⟨fs', ex', hs, -⟩ | ⟨p, rc, i, left, rest, m, hf, hm, hm0, hi, -⟩
  · rw [he] at hs
    cases hs
  · refine ⟨p, rc, i, left, rest, hf, ?_⟩
    by_cases hl : c.shared.lock = 0
    · obtain ⟨l, hc, -⟩ := (h.free hl).done p m i hm hm0 hi
      cases hc
    · obtain ⟨-, j, w, hw, job, o, hphase⟩ := h.locked.held hl
      obtain ⟨l, rfl, hil⟩ := (h.held j w job o hw hphase).done p m i hm hm0 hi
      exact ⟨j, w, job, l, hw, hphase, hil⟩

/-- **What a query can run into.** Beside any number of workers, whatever the order of all their steps, a query faults
exactly when it comes to a child that a worker in `create_child_mapnode` has still to create; every other pointer it
follows is good. -/
theorem reading_fault_iff (h0 : 0 < iHashSize)
    (h : Reading conf ncpu P q (startSpinCfg (initCoreData iHashSize h0) todos) c fs ex) :
    (∃ e, readStep conf q c.shared.data fs ex = .error e) ↔
      ∃ p rc i left rest, fs = .childs p rc (i :: left) :: rest ∧ Creating c p i := by
  obtain ⟨hok, hfs⟩ := h.readOk (readOk_start h0 todos)
  constructor
  · rintro ⟨e, he⟩
    exact hok.creating hfs he
  · rintro ⟨p, rc, i, left, rest, rfl, j, w, job, l, hw, hphase, hil⟩
    obtain ⟨m, hm, -⟩ : Frame.Ok c.shared.data (.childs p rc (i :: left)) := hfs _ List.mem_cons_self
    have hi : m.apChilds i = none := (((hok.held j w job _ hw hphase).left p l rfl).2 m i hm).mp hil
    refine ⟨.nullDeref, ?_⟩
    simp only [readStep, mapAt_ok hm, hi, nonNull, bind, Except.bind]

/-- A query comes to the root when its first child is there and the second is not. -/
theorem reading_fault_second_child : ∃ (c : SpinCfg) (fs : List Frame) (ex : NlaExParam),
    Reading ⟨1⟩ 1 (fun _ _ => True) ⟨initRootRect, -1, -1, 10⟩ (startSpinCfg (initCoreData 1 Nat.one_pos) [[setA 5 5]]) c fs ex ∧
      ∃ e, readStep ⟨1⟩ ⟨initRootRect, -1, -1, 10⟩ c.shared.data fs ex = .error e := by
  have hrun : ∃ (c : SpinCfg) (ex : NlaExParam),
      Reading ⟨1⟩ 1 (fun _ _ => True) ⟨initRootRect, -1, -1, 10⟩ (startSpinCfg (initCoreData 1 Nat.one_pos) [[setA 5 5]]) c
        [.childs 0 initRootRect [1, 2, 3]] ex ∧ Creating c 0 1 := by
    have h0 : Reading ⟨1⟩ 1 (fun _ _ => True) ⟨initRootRect, -1, -1, 10⟩ (startSpinCfg (initCoreData 1 Nat.one_pos) [[setA 5 5]])
        (startSpinCfg (initCoreData 1 Nat.one_pos) [[setA 5 5]]) [.node 0 initRootRect] ⟨0, [], []⟩ := .start .init
    have h1 := h0.world trivial (.mk (i := 0) rfl rfl (.out (.lookupNone rfl)))
    have h2 := h1.world trivial (.mk (i := 0) rfl rfl (.out .alloc))
    have h3 := h2.world trivial (.mk (i := 0) rfl rfl (.spin rfl))
    have h4 := h3.world trivial (.mk (i := 0) rfl rfl (.acquire rfl))
    have h5 := h4.world trivial (.mk (i := 0) rfl rfl (.micro rfl))
    have h6 := h5.world trivial (.mk (i := 0) rfl rfl (.micro rfl))
    have h7 := h6.world trivial (.mk (i := 0) rfl rfl (.micro rfl))
    have h8 := ((h7.read rfl).read rfl).read rfl
    exact ⟨_, _, h8, 0, _, _, [1, 2, 3], rfl, rfl, by decide⟩
  obtain ⟨c, ex, hr, hc⟩ := hrun
  exact ⟨c, _, ex, hr, (reading_fault_iff Nat.one_pos hr).mpr ⟨0, initRootRect, 1, [2, 3], [], rfl, hc⟩⟩

end Lookaround
