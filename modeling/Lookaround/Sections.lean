import Lookaround.Spin

/-!
# Inside a section

What one step of a section can do, what other workers may write meanwhile, and where the steps end.

* `MicroStep` : the cases of `micro`; `micro_eq_ok` : there are no others;
* `Kept` : what a step leaves alone, besides the links of its own node;
* `Touch`, `micro_touch` : a write outside the lock commutes with every step of a section for another node;
* `Heap`, `sectionOf_ok` : from data whose pointers are in order the steps reach an end, and it is what the code of the
  section answers.
-/

namespace Lookaround

open NlaCoreData Library

variable {conf : Conf} {op : SetItem} {s s1 t : NlaCoreData} {c : Stage} {o : Option Stage} {d p : Nat}
  {m : NlaMapNode} {n : NlaDataNode}

/-! ## One step -/

/-- A child of the node `p`, which is `m`. -/
def NlaCoreData.withChild (s : NlaCoreData) (p : MapPtr) (m : NlaMapNode) (i : Fin 4) : NlaCoreData :=
  { s with mapNodes := s.mapNodes ++ [newChild p m i] }.modifyMap p fun k =>
    { k with apChilds := Function.update k.apChilds i (some s.mapNodes.length) }

/-- What a step of a section can do. -/
inductive MicroStep (conf : Conf) (op : SetItem) (d : DataPtr) (s : NlaCoreData) :
    Stage → NlaCoreData → Option Stage → Prop
  | put : MicroStep conf op d s .put (s.putNode op d) (some (.visit s.pMapRoot))
  | remove : MicroStep conf op d s .remove s (some .setLoc)
  | setLoc {n : NlaDataNode} (hn : s.dataNodes[d]? = some n) :
      MicroStep conf op d s .setLoc (s.setLoc d op.loc) (some (.visit s.pMapRoot))
  | visit {p : Nat} {m : NlaMapNode} (hm : s.mapNodes[p]? = some m) :
      MicroStep conf op d s (.visit p) (s.bump p) (some (afterVisit conf p m))
  | grown {p : Nat} : MicroStep conf op d s (.grow p []) s (some (.choose p))
  | grow {p : Nat} {m : NlaMapNode} {i : Fin 4} {childs : List (Fin 4)} (hm : s.mapNodes[p]? = some m) :
      MicroStep conf op d s (.grow p (i :: childs)) (s.withChild p m i) (some (.grow p childs))
  | out {p : Nat} {m : NlaMapNode} {n : NlaDataNode} (hm : s.mapNodes[p]? = some m) (hn : s.dataNodes[d]? = some n)
      (hi : getChildRcIdx m.rc n.data.loc = none) : MicroStep conf op d s (.choose p) s none
  | down {p child : Nat} {m : NlaMapNode} {n : NlaDataNode} {i : Fin 4} (hm : s.mapNodes[p]? = some m)
      (hn : s.dataNodes[d]? = some n) (hi : getChildRcIdx m.rc n.data.loc = some i) (hc : m.apChilds i = some child) :
      MicroStep conf op d s (.choose p) s (some (.visit child))
  | link {p : Nat} {m : NlaMapNode} (hm : s.mapNodes[p]? = some m) (hd : d < s.dataNodes.length)
      (hh : ∀ e, m.pDataNode = some e → e < s.dataNodes.length) :
      MicroStep conf op d s (.link p) (s.link p m.pDataNode d) none

/-- What `linkHead` reads is there when it answers. -/
theorem NlaCoreData.linkHead_eq_ok (h : s.linkHead p d = .ok s1) : ∃ m, s.mapNodes[p]? = some m ∧
    d < s.dataNodes.length ∧ (∀ e, m.pDataNode = some e → e < s.dataNodes.length) ∧ s1 = s.link p m.pDataNode d := by
  obtain ⟨m, hm, hrest⟩ := bind_eq_ok.mp h
  obtain ⟨n, hn, hrest⟩ := bind_eq_ok.mp hrest
  have hm := getElem?_of_mapAt hm
  have hd := (List.getElem?_eq_some_iff.mp (getElem?_of_dataAt hn)).1
  have hh : ∀ e, m.pDataNode = some e → e < s.dataNodes.length := by
    intro e he
    simp only [he] at hrest
    obtain ⟨k, hk, -⟩ := bind_eq_ok.mp hrest
    have hlt := (List.getElem?_eq_some_iff.mp (getElem?_of_dataAt hk)).1
    rwa [length_modifyData] at hlt
  exact ⟨m, hm, hd, hh, Except.ok.inj (h.symm.trans (linkHead_ok hm hd hh))⟩

/-- **The cases of `micro`.** -/
theorem micro_eq_ok : micro conf op d c s = .ok (s1, o) ↔ MicroStep conf op d s c s1 o := by
  constructor
  · intro h
    cases c with
    | put =>
        cases h
        exact .put
    | remove =>
        rw [micro, removeDatanodeFromMap_some] at h
        cases h
        exact .remove
    | setLoc =>
        obtain ⟨n, hn, h⟩ := bind_eq_ok.mp h
        cases h
        exact .setLoc (getElem?_of_dataAt hn)
    | visit p =>
        obtain ⟨m, hm, h⟩ := bind_eq_ok.mp h
        cases h
        exact .visit (getElem?_of_mapAt hm)
    | grow p childs =>
        cases childs with
        | nil =>
            cases h
            exact .grown
        | cons i childs =>
            obtain ⟨m, hm, h⟩ := bind_eq_ok.mp h
            cases h
            exact .grow (getElem?_of_mapAt hm)
    | choose p =>
        obtain ⟨m, hm, h⟩ := bind_eq_ok.mp h
        obtain ⟨n, hn, h⟩ := bind_eq_ok.mp h
        cases hi : getChildRcIdx m.rc n.data.loc with
        | none =>
            rw [hi] at h
            cases h
            exact .out (getElem?_of_mapAt hm) (getElem?_of_dataAt hn) hi
        | some i =>
            rw [hi] at h
            cases hc : m.apChilds i with
            | none =>
                simp only [hc] at h
                cases h
            | some child =>
                simp only [hc] at h
                cases h
                exact .down (getElem?_of_mapAt hm) (getElem?_of_dataAt hn) hi hc
    | link p =>
        obtain ⟨s2, h2, h⟩ := bind_eq_ok.mp h
        obtain ⟨m, hm, hd, hh, rfl⟩ := linkHead_eq_ok h2
        cases h
        exact .link hm hd hh
  · intro h
    cases h with
    | put => rfl
    | remove => rw [micro, removeDatanodeFromMap_some]; rfl
    | setLoc hn => rw [micro, dataAt_ok hn]; rfl
    | visit hm => rw [micro, mapAt_ok hm]; rfl
    | grown => rfl
    | grow hm => rw [micro, mapAt_ok hm]; rfl
    | out hm hn hi => simp only [micro, mapAt_ok hm, dataAt_ok hn, hi, bind, Except.bind, pure, Except.pure]
    | down hm hn hi hc =>
        simp only [micro, mapAt_ok hm, dataAt_ok hn, hi, hc, nonNull, bind, Except.bind, pure, Except.pure]
    | link hm hd hh => rw [micro, linkHead_ok hm hd hh]; rfl

/-! ## What a step leaves alone -/

/-- What the steps behind the one that stores the id leave alone: the id map, the number of data nodes, the cells of the
other nodes, and the rectangles of the map nodes. -/
structure Kept (d : DataPtr) (s s1 : NlaCoreData) : Prop where
  map : s1.pId2dataMap = s.pId2dataMap
  length : s1.dataNodes.length = s.dataNodes.length
  cell : ∀ e : Nat, e ≠ d → s1.cell e = s.cell e
  rc : ∀ (q : Nat) (k : NlaMapNode), s.mapNodes[q]? = some k → ∃ k', s1.mapNodes[q]? = some k' ∧ k'.rc = k.rc

theorem Kept.refl (d : Nat) (s : NlaCoreData) : Kept d s s :=
  ⟨rfl, rfl, fun _ _ => rfl, fun _ k hk => ⟨k, hk, rfl⟩⟩

theorem Kept.trans (h : Kept d s s1) (h' : Kept d s1 t) : Kept d s t where
  map := h'.map.trans h.map
  length := h'.length.trans h.length
  cell := fun e he => (h'.cell e he).trans (h.cell e he)
  rc := by
    intro q k hk
    obtain ⟨k1, hk1, e1⟩ := h.rc q k hk
    obtain ⟨k2, hk2, e2⟩ := h'.rc q k1 hk1
    exact ⟨k2, hk2, e2.trans e1⟩

/-- A write to a map node that leaves its rectangle. -/
theorem NlaCoreData.rc_modifyMap {f : NlaMapNode → NlaMapNode} {q : Nat} {k : NlaMapNode}
    (hk : s.mapNodes[q]? = some k) (hf : ∀ k, (f k).rc = k.rc) :
    ∃ k', (s.modifyMap p f).mapNodes[q]? = some k' ∧ k'.rc = k.rc := by
  rw [mapNodes_modifyMap, hk]
  split_ifs
  · exact ⟨f k, rfl, hf k⟩
  · exact ⟨k, rfl, rfl⟩

theorem NlaCoreData.cell_setLoc (s : NlaCoreData) (d : DataPtr) (loc : Nla2dloc) : (s.setLoc d loc).cell = s.cell :=
  funext fun e => view_modifyData NlaDataNode.pMapNode (f := fun n => { n with data := { n.data with loc := loc } })
    (fun _ => rfl) e

theorem NlaCoreData.pId2dataMap_link (s : NlaCoreData) (p : MapPtr) (h : Option DataPtr) (d : DataPtr) :
    (s.link p h d).pId2dataMap = s.pId2dataMap := by
  cases h <;> rfl

/-- A step behind `put` leaves alone what `Kept` says, and does not lead back to `put`. -/
theorem MicroStep.kept (h : MicroStep conf op d s c s1 o) (hc : c ≠ .put) :
    Kept d s s1 ∧ ∀ c', o = some c' → c' ≠ .put := by
  cases h with
  | put => exact absurd rfl hc
  | remove => exact ⟨Kept.refl d s, fun c' hc' => by cases hc'; exact Stage.noConfusion⟩
  | setLoc hn =>
      refine ⟨⟨rfl, length_modifyData _, fun e _ => ?_, fun q k hk => ⟨k, hk, rfl⟩⟩, ?_⟩
      · rw [cell_setLoc]
      · intro c' hc'
        cases hc'
        exact Stage.noConfusion
  | visit hm =>
      refine ⟨⟨rfl, rfl, fun _ _ => rfl, fun q k hk => ?_⟩, fun c' hc' => ?_⟩
      · apply rc_modifyMap hk
        intro k
        rfl
      · cases hc'
        unfold afterVisit
        split_ifs <;> exact Stage.noConfusion
  | grown => exact ⟨Kept.refl d s, fun c' hc' => by cases hc'; exact Stage.noConfusion⟩
  | @grow p m i childs hm =>
      refine ⟨⟨rfl, rfl, fun _ _ => rfl, fun q k hk => ?_⟩, fun c' hc' => by cases hc'; exact Stage.noConfusion⟩
      have hk' : { s with mapNodes := s.mapNodes ++ [newChild p m i] }.mapNodes[q]? = some k := by
        rw [List.getElem?_append_left (List.getElem?_eq_some_iff.mp hk).1]
        exact hk
      apply rc_modifyMap hk'
      intro k
      rfl
  | out _ _ _ => exact ⟨Kept.refl d s, fun c' hc' => by cases hc'⟩
  | down _ _ _ _ => exact ⟨Kept.refl d s, fun c' hc' => by cases hc'; exact Stage.noConfusion⟩
  | @link p m hm hd hh =>
      refine ⟨⟨pId2dataMap_link _ _ _ _, length_link _ _ _ _, fun e he => ?_, fun q k hk => ?_⟩, fun c' hc' => by cases hc'⟩
      · obtain ⟨-, hcell, -⟩ := views_link (p := p) m.pDataNode hd
        rw [hcell, Function.update_of_ne he]
      · rw [mapNodes_link]
        apply rc_modifyMap hk
        intro k
        rfl

/-- The cells are written at the end only. -/
theorem MicroStep.cell {c' : Stage} (h : MicroStep conf op d s c s1 (some c')) : s1.cell = s.cell := by
  cases h with
  | setLoc hn => exact cell_setLoc s d op.loc
  | put => rfl
  | remove => rfl
  | visit hm => rfl
  | grown => rfl
  | grow hm => rfl
  | down _ _ _ _ => rfl

/-- The cells are those of map nodes. -/
def NlaCoreData.CellsOk (s : NlaCoreData) : Prop := ∀ d q : Nat, s.cell d = some q → ∃ k, s.mapNodes[q]? = some k

theorem MicroStep.cellsOk (h : MicroStep conf op d s c s1 o) (hs : s.CellsOk) : s1.CellsOk := by
  have hold : ∀ e q : Nat, s1.cell e = some q → ∃ k, s.mapNodes[q]? = some k := by
    intro e q hq
    cases o with
    | some c' =>
        rw [h.cell] at hq
        exact hs e q hq
    | none =>
        cases h with
        | out _ _ _ => exact hs e q hq
        | @link p m hm hd hh =>
            obtain ⟨-, hcell, -⟩ := views_link (p := p) m.pDataNode hd
            rw [hcell, Function.update_apply] at hq
            split_ifs at hq
            · obtain rfl := Option.some.inj hq
              exact ⟨m, hm⟩
            · exact hs e q hq
  by_cases hc : c = .put
  · subst hc
    cases h
    exact hs
  · intro e q hq
    obtain ⟨k, hk⟩ := hold e q hq
    obtain ⟨k', hk', -⟩ := (h.kept hc).1.rc q k hk
    exact ⟨k', hk'⟩

theorem rest_kept {r : Option Stage} (h : Rest (micro conf op d) r s t) (hr : r ≠ some .put) : Kept d s t :=
  h.relates (Q := fun c => c ≠ .put) (Kept.refl d) (fun _ _ _ h h' => h.trans h')
    (fun _ _ _ _ hc hm => (micro_eq_ok.mp hm).kept hc) fun _ hc h => hr (by rw [hc, h])

/-! ## What other workers write meanwhile -/

/-- What a step outside the lock writes: nothing, a new data node, the location of an item in its cell, or a time stamp. -/
inductive Touch where
  | nothing
  | alloc (op : SetItem)
  | loc (e : DataPtr) (l : Nla2dloc)
  | time (e : DataPtr) (now : Int64)

namespace Touch

variable {u : Touch}

def apply : Touch → NlaCoreData → NlaCoreData
  | nothing, s => s
  | alloc op, s => s.withNewNode op
  | loc e l, s => s.setLoc e l
  | time e now, s => s.setTime e now

/-- The write does not change the location of `d`. -/
def Beside (d : DataPtr) : Touch → Prop
  | nothing => True
  | alloc _ => True
  | loc e _ => e ≠ d
  | time _ _ => True

@[simp] theorem mapNodes_apply (u : Touch) (s : NlaCoreData) : (u.apply s).mapNodes = s.mapNodes := by
  cases u <;> rfl

@[simp] theorem pMapRoot_apply (u : Touch) (s : NlaCoreData) : (u.apply s).pMapRoot = s.pMapRoot := by
  cases u <;> rfl

@[simp] theorem pId2dataMap_apply (u : Touch) (s : NlaCoreData) : (u.apply s).pId2dataMap = s.pId2dataMap := by
  cases u <;> rfl

theorem length_le_apply (u : Touch) (s : NlaCoreData) : s.dataNodes.length ≤ (u.apply s).dataNodes.length := by
  cases u with
  | nothing => exact le_refl _
  | alloc op =>
      change _ ≤ (s.dataNodes ++ [_]).length
      rw [List.length_append]
      omega
  | loc e l => exact (length_modifyData _).ge
  | time e now => exact (length_modifyData _).ge

/-- No cell is written: a new node is in none. -/
theorem cell_apply (u : Touch) (s : NlaCoreData) : (u.apply s).cell = s.cell := by
  cases u with
  | nothing => rfl
  | alloc op => exact (views_withItem s op).2.1
  | loc e l => exact cell_setLoc s e l
  | time e now =>
      exact funext fun k => view_modifyData NlaDataNode.pMapNode
        (f := fun n => { n with data := { n.data with lastUpdateTime := now } }) (fun _ => rfl) k

/-- A node after the write: the same location, when the write is beside it. -/
theorem getElem?_apply (hu : u.Beside d) (hn : s.dataNodes[d]? = some n) :
    ∃ n', (u.apply s).dataNodes[d]? = some n' ∧ n'.data.loc = n.data.loc := by
  cases u with
  | nothing => exact ⟨n, hn, rfl⟩
  | alloc op =>
      refine ⟨n, ?_, rfl⟩
      change (s.dataNodes ++ [_])[d]? = _
      rw [List.getElem?_append_left (List.getElem?_eq_some_iff.mp hn).1, hn]
  | loc e l =>
      refine ⟨n, ?_, rfl⟩
      change (s.modifyData e _).dataNodes[d]? = _
      rw [dataNodes_modifyData, if_neg hu, hn]
  | time e now =>
      change ∃ n', (s.modifyData e _).dataNodes[d]? = some n' ∧ _
      rw [dataNodes_modifyData, hn]
      split_ifs
      · exact ⟨_, rfl, rfl⟩
      · exact ⟨n, rfl, rfl⟩

/-- Two writes to data nodes that commute on every node, or are to different ones. -/
theorem modifyData_comm {e : Nat} {f g : NlaDataNode → NlaDataNode} (h : e ≠ d ∨ ∀ n, f (g n) = g (f n)) :
    (s.modifyData d g).modifyData e f = (s.modifyData e f).modifyData d g := by
  unfold modifyData
  congr 1
  apply List.ext_getElem?
  intro j
  rw [List.getElem?_modify, List.getElem?_modify, List.getElem?_modify, List.getElem?_modify]
  by_cases hd : d = j
  · by_cases he : e = j
    · rcases h with hne | hcomm
      · exact absurd (he.trans hd.symm) hne
      · cases s.dataNodes[j]? with
        | none => rfl
        | some n => simp [hd, he, hcomm]
    · simp [he]
  · simp [hd]

/-- The links of a node and the writes of the others are different fields. -/
theorem apply_modifyData {g : NlaDataNode → NlaDataNode} (u : Touch) (hd : d < s.dataNodes.length)
    (hg : ∀ n (f : NlaDataItem → NlaDataItem), g { n with data := f n.data } = { g n with data := f (g n).data }) :
    u.apply (s.modifyData d g) = (u.apply s).modifyData d g := by
  cases u with
  | nothing => rfl
  | alloc op =>
      change { s with dataNodes := s.dataNodes.modify d g ++ [_] } = { s with dataNodes := (s.dataNodes ++ [_]).modify d g }
      rw [modify_append_left g hd]
  | loc e l => exact modifyData_comm (Or.inr fun n => (hg n fun data => { data with loc := l }).symm)
  | time e now => exact modifyData_comm (Or.inr fun n => (hg n fun data => { data with lastUpdateTime := now }).symm)

theorem apply_modifyMap (u : Touch) (s : NlaCoreData) (f : NlaMapNode → NlaMapNode) :
    u.apply (s.modifyMap p f) = (u.apply s).modifyMap p f := by
  cases u <;> rfl

theorem apply_link (u : Touch) {h : Option DataPtr} (hd : d < s.dataNodes.length)
    (hh : ∀ e, h = some e → e < s.dataNodes.length) : u.apply (s.link p h d) = (u.apply s).link p h d := by
  unfold NlaCoreData.link
  rw [apply_modifyMap]
  cases h with
  | none => rw [apply_modifyData u hd fun _ _ => rfl]
  | some e =>
      have he : e < (s.modifyData d fun n => { n with next := some e, prev := none, pMapNode := some p }).dataNodes.length := by
        rw [length_modifyData]
        exact hh e rfl
      rw [apply_modifyData u he fun _ _ => rfl, apply_modifyData u hd fun _ _ => rfl]

theorem apply_setLoc (hu : u.Beside d) (hd : d < s.dataNodes.length) (l : Nla2dloc) :
    u.apply (s.setLoc d l) = (u.apply s).setLoc d l := by
  cases u with
  | nothing => rfl
  | alloc op =>
      change { s with dataNodes := s.dataNodes.modify d _ ++ [_] } = { s with dataNodes := (s.dataNodes ++ [_]).modify d _ }
      rw [modify_append_left _ hd]
  | loc e l' => exact modifyData_comm (Or.inl hu)
  | time e now => exact modifyData_comm (Or.inr fun _ => rfl)

end Touch

/-- What a step from the phase writes. -/
def OutPhase.touch (op : SetItem) : OutPhase → Touch
  | .idle => .nothing
  | .absent => .alloc op
  | .found _ => .nothing
  | .inPlace d => .loc d op.loc
  | .stamp d => .time d op.now

theorem OutStep.eq_apply {phase : OutPhase} {next : OutNext} (h : OutStep op s phase s1 next) :
    s1 = (phase.touch op).apply s := by
  cases h <;> rfl

/-- **The writes of the other workers commute with the steps of a section**, as long as they leave the location of its
node alone. -/
theorem micro_touch {u : Touch} (hu : u.Beside d) (h : micro conf op d c s = .ok (s1, o)) :
    micro conf op d c (u.apply s) = .ok (u.apply s1, o) := by
  have hmap : ∀ {q : Nat} {k : NlaMapNode}, s.mapNodes[q]? = some k → (u.apply s).mapNodes[q]? = some k := by
    intro q k hk
    rw [u.mapNodes_apply, hk]
  rw [micro_eq_ok] at h ⊢
  cases h with
  | put =>
      rw [← u.pMapRoot_apply]
      have hput : u.apply (s.putNode op d) = (u.apply s).putNode op d := by cases u <;> rfl
      rw [hput]
      exact .put
  | remove => exact .remove
  | setLoc hn =>
      obtain ⟨n', hn', -⟩ := Touch.getElem?_apply hu hn
      rw [Touch.apply_setLoc hu (List.getElem?_eq_some_iff.mp hn).1, ← u.pMapRoot_apply]
      exact .setLoc hn'
  | visit hm =>
      rw [bump, Touch.apply_modifyMap]
      exact .visit (hmap hm)
  | grown => exact .grown
  | @grow p m i childs hm =>
      have hchild : u.apply (s.withChild p m i) = (u.apply s).withChild p m i := by cases u <;> rfl
      rw [hchild]
      exact .grow (hmap hm)
  | out hm hn hi =>
      obtain ⟨n', hn', hloc⟩ := Touch.getElem?_apply hu hn
      exact .out (hmap hm) hn' (by rw [hloc, hi])
  | down hm hn hi hc =>
      obtain ⟨n', hn', hloc⟩ := Touch.getElem?_apply hu hn
      exact .down (hmap hm) hn' (by rw [hloc, hi]) hc
  | link hm hd hh =>
      rw [Touch.apply_link u hd hh]
      have hle := u.length_le_apply s
      exact .link (hmap hm) (hd.trans_le hle) fun e he => (hh e he).trans_le hle

/-! ## The end of a section -/

/-- The critical section of `setdataloc` for a new item, and for one that leaves its cell. -/
def sectionOf (conf : Conf) (op : SetItem) : Job → NlaCoreData → Except Fault NlaCoreData
  | .insert d, s => (s.putNode op d).adddatanode conf .succeed (conf.nMapMaxLevel.toNat + 1) s.pMapRoot d
  | .move d, s => do
    let s ← s.removeDatanodeFromMap conf (conf.nMapMaxLevel.toNat + 1) (some s.pMapRoot) (some d)
    (s.setLoc d op.loc).adddatanode conf .succeed (conf.nMapMaxLevel.toNat + 1) s.pMapRoot d

/-- The pointers of the shared data are in order. -/
structure Heap (s : NlaCoreData) : Prop where
  grid : Grid s.mapNodes s.pMapRoot
  heads : s.HeadsOk
  cells : s.CellsOk

/-- The rounds of `create_child_mapnode`, one behind the other. The induction is on the rounds that are left. -/
theorem rest_grow {k : NlaMapNode} {l : List (Fin 4)} (hk : s.mapNodes[p]? = some k) (hrc : k.rc = m.rc)
    (hlev : k.iLevel = m.iLevel) (hfold : l.foldlM (createChild .succeed p m) s = .ok s1)
    (h : Rest (micro conf op d) (some (.choose p)) s1 t) : Rest (micro conf op d) (some (.grow p l)) s t := by
  induction l generalizing s k with
  | nil =>
      cases hfold
      exact .more (micro_eq_ok.mpr .grown) h
  | cons i l ih =>
      have hnew : s.withChild p k i = s.withChild p m i := by
        unfold NlaCoreData.withChild newChild
        rw [hrc, hlev]
      have hself : (s.withChild p m i).mapNodes[p]? =
          some { k with apChilds := Function.update k.apChilds i (some s.mapNodes.length) } := by
        unfold NlaCoreData.withChild
        rw [mapNodes_modifyMap, if_pos rfl, List.getElem?_append_left (List.getElem?_eq_some_iff.mp hk).1, hk]
        rfl
      have hstep : micro conf op d (.grow p (i :: l)) s = .ok (s.withChild p k i, some (.grow p l)) :=
        micro_eq_ok.mpr (.grow hk)
      rw [hnew] at hstep
      exact .more hstep (ih hself hrc hlev hfold)

/-- Above the leaves: the count, the children where there are none, and then the choice. -/
theorem rest_opened (hm : s.mapNodes[p]? = some m) (hL : m.iLevel < conf.nMapMaxLevel)
    (h : Rest (micro conf op d) (some (.choose p)) (s.opened p m) t) :
    Rest (micro conf op d) (some (.visit p)) s t := by
  apply Rest.more (micro_eq_ok.mpr (.visit hm))
  unfold afterVisit
  rw [if_neg (not_le.mpr hL)]
  have hself := bump_self hm
  by_cases h0 : m.apChilds 0 = none
  · rw [if_pos h0]
    have hopen : s.opened p m = (s.bump p).expand p { m with iItemCount := m.iItemCount + 1 } := by
      rw [opened, grow, if_pos h0]
    have hfold := createChildMapnode_ok hself h0
    rw [createChildMapnode, mapAt_ok hself] at hfold
    change (if m.apChilds 0 ≠ none then _ else _) = _ at hfold
    rw [if_neg (not_not.mpr h0), ← hopen] at hfold
    exact rest_grow hself rfl rfl hfold h
  · rw [if_neg h0]
    have hopen : s.opened p m = s.bump p := by rw [opened, grow, if_neg h0]
    rw [hopen] at h
    exact h

theorem HeadsOk.opened (h : s.HeadsOk) (hm : s.mapNodes[p]? = some m) : (s.opened p m).HeadsOk := by
  intro q e he
  rw [head_opened hm] at he
  rw [dataNodes_opened]
  exact h q e he

/-- **A descent in steps.** -/
theorem Added.rest {loc : Nla2dloc} {root : Nat} (ha : Added conf d loc p s t) (hg : Grid s.mapNodes root)
    (hh : s.HeadsOk) (hn : s.dataNodes[d]? = some n) (hloc : n.data.loc = loc) :
    Rest (micro conf op d) (some (.visit p)) s t := by
  induction ha with
  | @leaf p s m hm hL =>
      apply Rest.more (micro_eq_ok.mpr (.visit hm))
      unfold afterVisit
      rw [if_pos hL]
      refine .more (micro_eq_ok.mpr (.link (bump_self hm) (List.getElem?_eq_some_iff.mp hn).1 fun e he => ?_)) (.done _)
      exact hh p e (by rw [head_eq hm]; exact he)
  | @out p s m hm hL hout =>
      obtain ⟨m', -, -, hm', hrc', -⟩ := hg.opened_child hm 0
      have hn' : (s.opened p m).dataNodes[d]? = some n := by rw [dataNodes_opened, hn]
      have hi : getChildRcIdx m'.rc n.data.loc = none := by rw [hrc', hloc, getChildRcIdx_eq_none_iff.mpr hout]
      exact rest_opened hm hL (.more (micro_eq_ok.mpr (.out hm' hn' hi)) (.done _))
  | @down p c s s' m m' k i hm hL hi hm' hc _ _ _ _ _ ih =>
      have hn' : (s.opened p m).dataNodes[d]? = some n := by rw [dataNodes_opened, hn]
      have hrc : m'.rc = m.rc := by
        obtain ⟨m'', -, -, hm'', hrc'', -⟩ := hg.opened_child hm 0
        obtain rfl := Option.some.inj (hm'.symm.trans hm'')
        exact hrc''
      have hchoose : micro conf op d (.choose p) (s.opened p m) = .ok (s.opened p m, some (.visit c)) :=
        micro_eq_ok.mpr (.down hm' hn' (by rw [hrc, hloc]; exact hi) hc)
      exact rest_opened hm hL (.more hchoose (ih (hg.opened hm) (HeadsOk.opened hh hm) hn'))

theorem Added.headsOk {loc : Nla2dloc} (ha : Added conf d loc p s t) (h : s.HeadsOk) (hd : d < s.dataNodes.length) :
    t.HeadsOk := by
  induction ha with
  | @leaf p s m hm hL =>
      intro q e he
      rw [head_link (bump_self hm), head_bump] at he
      rw [length_link]
      split_ifs at he
      · obtain rfl := Option.some.inj he
        exact hd
      · exact h q e he
  | out hm hL hout => exact HeadsOk.opened h hm
  | down hm _ _ _ _ _ _ _ _ _ ih => exact ih (HeadsOk.opened h hm) (by rw [dataNodes_opened]; exact hd)

theorem rest_cellsOk {r : Option Stage} (h : Rest (micro conf op d) r s t) (hs : s.CellsOk) : t.CellsOk :=
  h.relates (Q := fun _ => True) (R := fun s t => s.CellsOk → t.CellsOk) (fun _ h => h) (fun _ _ _ h h' hs => h' (h hs))
    (fun _ _ _ _ _ hm => ⟨(micro_eq_ok.mp hm).cellsOk, fun _ _ => trivial⟩) (fun _ _ => trivial) hs

/-- `adddatanode` from the root, in steps. -/
theorem Heap.adddatanode (h : Heap s) (hn : s.dataNodes[d]? = some n) (conf : Conf) (op : SetItem) :
    ∃ t, s.adddatanode conf .succeed (conf.nMapMaxLevel.toNat + 1) s.pMapRoot d = .ok t ∧ Heap t ∧
      Rest (micro conf op d) (some (.visit s.pMapRoot)) s t := by
  obtain ⟨m, hm, -, hlev, -⟩ := h.grid.top
  have hfuel : (conf.nMapMaxLevel - m.iLevel).toNat < conf.nMapMaxLevel.toNat + 1 := by omega
  obtain ⟨t, ht, hadd⟩ := adddatanode_added h.grid h.heads hm hn hfuel
  have hrest : Rest (micro conf op d) (some (.visit s.pMapRoot)) s t := hadd.rest h.grid h.heads hn rfl
  refine ⟨t, ht, ⟨?_, hadd.headsOk h.heads (List.getElem?_eq_some_iff.mp hn).1, rest_cellsOk hrest h.cells⟩, hrest⟩
  rw [hadd.frame.1]
  exact hadd.grid h.grid

/-- **A section ends**, and where its steps lead to is what its code answers. -/
theorem sectionOf_ok (h : Heap s) (conf : Conf) (op : SetItem) (job : Job) (hd : job.node < s.dataNodes.length) :
    ∃ t, sectionOf conf op job s = .ok t ∧ Heap t ∧ Rest (micro conf op job.node) (some job.start) s t := by
  have hn : s.dataNodes[job.node]? = some s.dataNodes[job.node] := List.getElem?_eq_getElem hd
  cases job with
  | insert d =>
      have hput : Heap (s.putNode op d) := ⟨h.grid, h.heads, h.cells⟩
      obtain ⟨t, ht, hheap, hrest⟩ := hput.adddatanode hn conf op
      exact ⟨t, ht, hheap, .more (micro_eq_ok.mpr .put) hrest⟩
  | move d =>
      have hset : Heap (s.setLoc d op.loc) := by
        refine ⟨h.grid, fun q e he => ?_, fun e q hq => ?_⟩
        · rw [setLoc, length_modifyData]
          exact h.heads q e he
        · rw [cell_setLoc] at hq
          exact h.cells e q hq
      have hn' : ∃ n', (s.setLoc d op.loc).dataNodes[d]? = some n' := by
        rw [setLoc, dataNodes_modifyData, if_pos rfl]
        exact ⟨_, congrArg (Option.map _) hn⟩
      obtain ⟨n', hn'⟩ := hn'
      obtain ⟨t, ht, hheap, hrest⟩ := hset.adddatanode hn' conf op
      refine ⟨t, ?_, hheap, .more (micro_eq_ok.mpr .remove) (.more (micro_eq_ok.mpr (.setLoc hn)) hrest)⟩
      rw [sectionOf, removeDatanodeFromMap_some]
      exact ht

end Lookaround
