import Lookaround.Found
import Lookaround.Inserting

/-!
# A query beside insertions

Workers that insert new items, and a query that takes no lock: in any order of their steps, what the query answers.

* `Frame.Has`, `Frame.May` : the items that are left to a frame, and those it may still emit;
* `Report` : what a query has emitted, and what is left to it;
* `Comes`, `Frame.Pops` : the query on its own gets a frame done;
* `reading_between` : the answer has no item twice, nothing that is not stored at the end, and everything that was stored
  at the start;
* `reading_ends` : from every state the steps of the query end.
-/

namespace Lookaround

open NlaCoreData Library

variable {conf : Conf} {ncpu : Nat} {s s' : NlaCoreData} {c cq : SpinCfg} {d e p : Nat} {q : AroundQuery}
  {fs fs' gs : List Frame} {f : Frame} {ex ex' : NlaExParam} {m : NlaMapNode} {T : Set DataPtr} {L : Int}

/-! ## What is left to a frame -/

/-- The pointer is none, or that of a node in a list. -/
def OnList (s : NlaCoreData) (cur : Option DataPtr) : Prop := ∀ d : Nat, cur = some d → ∃ r, Reaches s.next d (s.head r)

def Frame.rc : Frame → NlaRect
  | .node _ rc => rc
  | .list _ rc => rc
  | .next _ rc => rc
  | .childs _ rc _ => rc

/-- The items that are left to the frame. -/
def Frame.Has (s : NlaCoreData) (d : DataPtr) : Frame → Prop
  | .node p _ => d ∈ itemsUnder s p
  | .list cur _ => Reaches s.next d cur
  | .next e _ => Reaches s.next d (s.next e)
  | .childs p _ left => ∃ i ∈ left, ∃ m c, s.mapNodes[p]? = some m ∧ m.apChilds i = some c ∧ d ∈ itemsUnder s c

/-- The locations of the items the frame may still emit. -/
def Frame.Area (s : NlaCoreData) (loc : Nla2dloc) : Frame → Prop
  | .node _ rc => isLocInRC rc loc = true
  | .list _ rc => isLocInRC rc loc = true
  | .next _ rc => isLocInRC rc loc = true
  | .childs p rc left => isLocInRC rc loc = true ∧
      ∃ i ∈ left, ∃ m, s.mapNodes[p]? = some m ∧ isLocInRC (childRect m.rc i) loc = true

/-- The rest of the list the frame is in. -/
def Frame.walk (s : NlaCoreData) : Frame → Option (Option DataPtr)
  | .node _ _ => none
  | .list cur _ => some cur
  | .next e _ => some (s.next e)
  | .childs _ _ _ => none

/-- The frame may still emit an item `d` with the location. -/
def Frame.May (s : NlaCoreData) (d : DataPtr) (loc : Nla2dloc) (f : Frame) : Prop :=
  f.Area s loc ∧ ∀ cur, f.walk s = some cur → Reaches s.next d cur

/-- What the frame has in hand. -/
def Frame.Keeps (s : NlaCoreData) : Frame → Prop
  | .node _ _ => True
  | .list cur _ => OnList s cur
  | .next e _ => OnList s (some e)
  | .childs p _ left => left.Nodup ∧ ∃ m, s.mapNodes[p]? = some m

/-- What the frame has in hand is there, and its rectangle is in that of the query. -/
structure Frame.Good (q : AroundQuery) (s : NlaCoreData) (f : Frame) : Prop where
  clip : ∀ loc, isLocInRC f.rc loc = true → isLocInRC q.rc loc = true
  keeps : f.Keeps s

theorem OnList.next (h : OnList s (some e)) : OnList s (s.next e) := by
  intro d hd
  obtain ⟨r, hr⟩ := h e rfl
  exact ⟨r, hr.follow hd⟩

/-- The rest of a list ends, and it is in the list. -/
theorem Lists.chain {cur : Option DataPtr} (h : Lists s) (hcur : OnList s cur) :
    ∃ l, Chain s.next cur l ∧ ∀ d ∈ l, ∃ r, Reaches s.next d (s.head r) := by
  cases cur with
  | none => exact ⟨[], .nil, fun d hd => absurd hd List.not_mem_nil⟩
  | some e =>
      obtain ⟨r, hr⟩ := hcur e rfl
      obtain ⟨l, hl⟩ := h.ends r
      obtain ⟨pre, l', heq, hc⟩ := hl.suffix (hl.mem_iff_reaches.mpr hr)
      refine ⟨e :: l', hc, fun d hd => ⟨r, hl.mem_iff_reaches.mp ?_⟩⟩
      rw [heq]
      exact List.mem_append_right pre hd

/-- The rest of a list stays. -/
theorem Later.reaches_iff {cur : Option DataPtr} (h : Later s s') (hl : Lists s) (hcur : OnList s cur) (d : Nat) :
    Reaches s'.next d cur ↔ Reaches s.next d cur := by
  obtain ⟨l, hc, hmem⟩ := hl.chain hcur
  have hc' : Chain s'.next cur l := hc.congr fun e he => by
    obtain ⟨r, hr⟩ := hmem e he
    exact h.next e r hr
  rw [← hc'.mem_iff_reaches, ← hc.mem_iff_reaches]

theorem Later.onList {cur : Option DataPtr} (h : Later s s') (hcur : OnList s cur) : OnList s' cur := by
  intro d hd
  obtain ⟨r, hr⟩ := hcur d hd
  exact ⟨r, h.reach d r hr⟩

theorem Later.itemsUnder (h : Later s s') (hd : d ∈ itemsUnder s p) : d ∈ itemsUnder s' p := by
  obtain ⟨r, hu, hr⟩ := hd
  exact ⟨r, hu.keeps h.keeps, h.reach d r hr⟩

theorem Later.stored (h : Later s s') (rc : NlaRect) (iStatus iType : Int32) :
    stored s rc iStatus iType ⊆ stored s' rc iStatus iType := by
  rintro d ⟨⟨r, hr⟩, data, hdata, hpass⟩
  obtain ⟨data', hdata', hsame⟩ := h.item d data hdata
  exact ⟨⟨r, h.reach d r hr⟩, data', hdata', by rw [hsame.passes]; exact hpass⟩

theorem Frame.Good.later (h : f.Good q s) (hl : Later s s') : f.Good q s' := by
  refine ⟨h.clip, ?_⟩
  have hkeeps := h.keeps
  cases f with
  | node p rc => trivial
  | list cur rc => exact hl.onList hkeeps
  | next e rc => exact hl.onList hkeeps
  | childs p rc left =>
      obtain ⟨hnodup, m, hm⟩ := hkeeps
      obtain ⟨m', hm', -⟩ := hl.keeps p m hm
      exact ⟨hnodup, m', hm'⟩

/-- What is left to a frame stays. -/
theorem Frame.Has.later (h : f.Has s d) (hf : f.Good q s) (hl : Later s s') (hlists : Lists s) : f.Has s' d := by
  cases f with
  | node p rc => exact hl.itemsUnder h
  | list cur rc => exact (hl.reaches_iff hlists hf.keeps d).mpr h
  | next e rc =>
      have hcur : OnList s (some e) := hf.keeps
      obtain ⟨r, hr⟩ := hcur e rfl
      change Reaches s'.next d (s'.next e)
      rw [hl.next e r hr, hl.reaches_iff hlists hcur.next]
      exact h
  | childs p rc left =>
      obtain ⟨i, hi, m, c, hm, hc, hd⟩ := h
      obtain ⟨m', hm', -, -, -, hcs⟩ := hl.keeps p m hm
      exact ⟨i, hi, m', c, hm', hcs i c hc, hl.itemsUnder hd⟩

/-- The area of a frame stays. -/
theorem Frame.Area.later {loc : Nla2dloc} (h : f.Area s' loc) (hf : f.Good q s) (hl : Later s s') : f.Area s loc := by
  cases f with
  | node p rc => exact h
  | list cur rc => exact h
  | next e rc => exact h
  | childs p rc left =>
      obtain ⟨hrc, i, hi, m', hm', hin⟩ := h
      obtain ⟨-, m, hm⟩ := hf.keeps
      obtain ⟨m'', hm'', heq, -⟩ := hl.keeps p m hm
      obtain rfl := Option.some.inj (hm'.symm.trans hm'')
      exact ⟨hrc, i, hi, m, hm, by rw [← heq]; exact hin⟩

theorem Frame.May.later {loc : Nla2dloc} (h : f.May s' d loc) (hf : f.Good q s) (hl : Later s s') (hlists : Lists s) :
    f.May s d loc := by
  obtain ⟨harea, hreach⟩ := h
  refine ⟨harea.later hf hl, fun cur hcur => ?_⟩
  cases f with
  | node p rc => cases hcur
  | list cur' rc =>
      cases hcur
      rw [← hl.reaches_iff hlists hf.keeps]
      exact hreach cur rfl
  | next e rc =>
      cases hcur
      have hon : OnList s (some e) := hf.keeps
      obtain ⟨r, hr⟩ := hon e rfl
      rw [← hl.reaches_iff hlists hon.next]
      apply hreach
      rw [← hl.next e r hr]
      rfl
  | childs p rc left => cases hcur

/-! ## The report of a query -/

/-- What a query has emitted and what is left to it; `T` are items that were stored before it started. -/
structure Report (q : AroundQuery) (T : Set DataPtr) (s : NlaCoreData) (fs : List Frame) (ex : NlaExParam) : Prop where
  kept : T ⊆ stored s q.rc q.iStatus q.iType
  nodup : ex.emitted.Nodup
  count : ex.count = ex.emitted.length
  max : ex.count ≤ max q.iMaxCount 0
  good : ∀ f ∈ fs, f.Good q s
  apart : fs.Pairwise fun f g => ∀ loc, f.Area s loc → ¬ g.Area s loc
  sound : ∀ d ∈ ex.emitted, d ∈ stored s q.rc q.iStatus q.iType
  fresh : ∀ d ∈ ex.emitted, ∀ f ∈ fs, ∀ data, s.item d = some data → ¬ f.May s d data.loc
  complete : ex.count < q.iMaxCount → ∀ d ∈ T, d ∈ ex.emitted ∨
    ∃ f ∈ fs, f.Has s d ∧ ∀ data, s.item d = some data → isLocInRC f.rc data.loc = true

/-- A record that was there before is the same to the tests of a query. -/
theorem Later.item_loc {data data' : NlaDataItem} (h : Later s s') (hd : s.item d = some data)
    (hd' : s'.item d = some data') : data'.loc = data.loc := by
  obtain ⟨data'', hd'', hsame⟩ := h.item d data hd
  obtain rfl := Option.some.inj (hd'.symm.trans hd'')
  exact hsame.loc

/-- A step of a worker. -/
theorem Report.later (h : Report q T s fs ex) (hl : Later s s') (hlists : Lists s) : Report q T s' fs ex where
  kept := h.kept.trans (hl.stored _ _ _)
  nodup := h.nodup
  count := h.count
  max := h.max
  good := fun f hf => (h.good f hf).later hl
  apart := by
    apply h.apart.imp_of_mem
    intro f g hf hg hne loc ha hb
    exact hne loc (ha.later (h.good f hf) hl) (hb.later (h.good g hg) hl)
  sound := fun d hd => hl.stored _ _ _ (h.sound d hd)
  fresh := by
    intro d hd f hf data' hdata' hmay
    obtain ⟨-, data, hdata, -⟩ := h.sound d hd
    rw [hl.item_loc hdata hdata'] at hmay
    exact h.fresh d hd f hf data hdata (hmay.later (h.good f hf) hl hlists)
  complete := by
    intro hc d hd
    obtain ⟨-, data, hdata, -⟩ := h.kept hd
    rcases h.complete hc d hd with hem | ⟨f, hf, hhas, hloc⟩
    · exact Or.inl hem
    · refine Or.inr ⟨f, hf, hhas.later (h.good f hf) hl hlists, fun data' hdata' => ?_⟩
      rw [hl.item_loc hdata hdata']
      exact hloc data hdata

/-- A step of the query that emits nothing: the frame at the top gives way to frames for what is left to it. -/
theorem Report.replace (h : Report q T s (f :: fs) ex) (hgood : ∀ g ∈ gs, g.Good q s)
    (hmay : ∀ g ∈ gs, ∀ loc, g.Area s loc → f.Area s loc ∧ ∀ d, g.May s d loc → f.May s d loc)
    (hpair : gs.Pairwise fun f g => ∀ loc, f.Area s loc → ¬ g.Area s loc)
    (hcover : ex.count < q.iMaxCount → ∀ d data, s.item d = some data → passes q.rc q.iStatus q.iType data = true →
      f.Has s d → isLocInRC f.rc data.loc = true → ∃ g ∈ gs, g.Has s d ∧ isLocInRC g.rc data.loc = true) :
    Report q T s (gs ++ fs) ex := by
  obtain ⟨htop, hrest⟩ := List.pairwise_cons.mp h.apart
  refine ⟨h.kept, h.nodup, h.count, h.max, fun g hg => ?_, ?_, h.sound, fun d hd g hg data hdata hm => ?_, fun hc d hd => ?_⟩
  · rcases List.mem_append.mp hg with hg | hg
    · exact hgood g hg
    · exact h.good g (List.mem_cons_of_mem f hg)
  · refine List.pairwise_append.mpr ⟨hpair, hrest, fun g hg g' hg' loc ha => ?_⟩
    exact htop g' hg' loc (hmay g hg loc ha).1
  · rcases List.mem_append.mp hg with hg | hg
    · exact h.fresh d hd f List.mem_cons_self data hdata ((hmay g hg data.loc hm.1).2 d hm)
    · exact h.fresh d hd g (List.mem_cons_of_mem f hg) data hdata hm
  · obtain ⟨-, data, hdata, hpass⟩ := h.kept hd
    rcases h.complete hc d hd with hem | ⟨g, hg, hhas, hloc⟩
    · exact Or.inl hem
    · right
      rcases List.mem_cons.mp hg with rfl | hg
      · obtain ⟨g', hg', hhas', hin⟩ := hcover hc d data hdata hpass hhas (hloc data hdata)
        refine ⟨g', List.mem_append_left _ hg', hhas', fun data' hdata' => ?_⟩
        obtain rfl := Option.some.inj (hdata.symm.trans hdata')
        exact hin
      · exact ⟨g, List.mem_append_right _ hg, hhas, hloc⟩

/-- Nothing is left to the frame at the top. -/
theorem Report.pop (h : Report q T s (f :: fs) ex)
    (hnone : ex.count < q.iMaxCount → ∀ d data, s.item d = some data → f.Has s d → isLocInRC f.rc data.loc = true → False) :
    Report q T s fs ex := by
  have hnil : Report q T s ([] ++ fs) ex := by
    apply h.replace
    · exact fun _ hg => absurd hg List.not_mem_nil
    · exact fun _ hg => absurd hg List.not_mem_nil
    · exact .nil
    · exact fun hc d data hdata _ hhas hin => (hnone hc d data hdata hhas hin).elim
  exact hnil

/-- The node of the next item is not met again. -/
theorem Lists.not_reaches_next (h : Lists s) (hd : OnList s (some d)) : ¬ Reaches s.next d (s.next d) := by
  intro hr
  obtain ⟨l, hl, -⟩ := h.chain hd
  have hnodup := hl.nodup
  cases hl with
  | cons hc => exact (List.nodup_cons.mp hnodup).1 (hc.mem_iff_reaches.mpr hr)

/-- The filters do not depend on the rectangle. -/
theorem passes_of_loc {rc rc' : NlaRect} {iStatus iType : Int32} {data : NlaDataItem} (hin : isLocInRC rc' data.loc = true)
    (h : passes rc iStatus iType data = true) : passes rc' iStatus iType data = true := by
  obtain ⟨hty, hst, -⟩ := passes_iff.mp h
  exact passes_iff.mpr ⟨hty, hst, hin⟩

/-- The item the query comes to is a new one. -/
theorem Report.not_emitted {rc : NlaRect} {data : NlaDataItem} (h : Report q T s (.list (some d) rc :: fs) ex)
    (hdata : s.item d = some data) (hin : isLocInRC rc data.loc = true) : d ∉ ex.emitted := by
  intro hd
  refine h.fresh d hd _ List.mem_cons_self data hdata ⟨hin, fun cur hcur => ?_⟩
  cases hcur
  exact .here

/-- What was emitted is not emitted behind the item. -/
theorem Report.not_may_next {rc : NlaRect} {data : NlaDataItem} {g : Frame}
    (h : Report q T s (.list (some d) rc :: fs) ex) (he : e ∈ ex.emitted) (hg : g ∈ Frame.next d rc :: fs)
    (hdata : s.item e = some data) : ¬ g.May s e data.loc := by
  intro hm
  rcases List.mem_cons.mp hg with rfl | hg
  · refine h.fresh e he _ List.mem_cons_self data hdata ⟨hm.1, fun cur hcur => ?_⟩
    cases hcur
    exact .step (hm.2 _ rfl)
  · exact h.fresh e he g (List.mem_cons_of_mem _ hg) data hdata hm

/-- What is left to the query is the item or behind it. -/
theorem Report.left_next {rc : NlaRect} (h : Report q T s (.list (some d) rc :: fs) ex) (hc : ex.count < q.iMaxCount)
    (he : e ∈ T) : e ∈ ex.emitted ∨ e = d ∨ ∃ f ∈ Frame.next d rc :: fs, f.Has s e ∧
      ∀ data, s.item e = some data → isLocInRC f.rc data.loc = true := by
  rcases h.complete hc e he with hem | ⟨g, hg, hhas, hloc⟩
  · exact Or.inl hem
  · right
    rcases List.mem_cons.mp hg with rfl | hg
    · cases hhas with
      | here => exact Or.inl rfl
      | step hr => exact Or.inr ⟨.next d rc, List.mem_cons_self, hr, hloc⟩
    · exact Or.inr ⟨g, List.mem_cons_of_mem _ hg, hhas, hloc⟩

/-- An item is emitted. -/
theorem Report.emit {rc : NlaRect} {data : NlaDataItem} (h : Report q T s (.list (some d) rc :: fs) ex) (hlists : Lists s)
    (hdata : s.item d = some data) (hcount : ex.count < q.iMaxCount) (hpass : passes rc q.iStatus q.iType data = true) :
    Report q T s (.next d rc :: fs) (emit ex d data) := by
  obtain ⟨htop, hrest⟩ := List.pairwise_cons.mp h.apart
  have hgood := h.good _ List.mem_cons_self
  have hon : OnList s (some d) := hgood.keeps
  have hin : isLocInRC rc data.loc = true := (passes_iff.mp hpass).2.2
  have hemitted : ∀ e, e ∈ (Lookaround.emit ex d data).emitted ↔ e ∈ ex.emitted ∨ e = d := by
    intro e
    change e ∈ ex.emitted ++ [d] ↔ _
    rw [List.mem_append, List.mem_singleton]
  refine ⟨h.kept, ?_, ?_, ?_, fun g hg => ?_, List.pairwise_cons.mpr ⟨htop, hrest⟩, fun e he => ?_,
    fun e he g hg data' hdata' hm => ?_, fun hc e he => ?_⟩
  · change (ex.emitted ++ [d]).Nodup
    rw [← List.concat_eq_append]
    exact h.nodup.concat (h.not_emitted hdata hin)
  · change ex.count + 1 = ((ex.emitted ++ [d]).length : Int)
    rw [h.count, List.length_append]
    rfl
  · change ex.count + 1 ≤ _
    omega
  · rcases List.mem_cons.mp hg with rfl | hg
    · exact ⟨hgood.clip, hon⟩
    · exact h.good g (List.mem_cons_of_mem _ hg)
  · rcases (hemitted e).mp he with he | rfl
    · exact h.sound e he
    · exact ⟨hon e rfl, data, hdata, passes_of_loc (hgood.clip _ hin) hpass⟩
  · rcases (hemitted e).mp he with he | rfl
    · exact h.not_may_next he hg hdata' hm
    · obtain rfl := Option.some.inj (hdata.symm.trans hdata')
      rcases List.mem_cons.mp hg with rfl | hg
      · exact hlists.not_reaches_next hon (hm.2 _ rfl)
      · exact htop g hg data.loc hin hm.1
  · rw [hemitted, or_assoc]
    exact h.left_next hcount he

/-! ## What is beneath a node -/

/-- The nodes beneath a node are itself and those beneath its children. -/
theorem Under.top_cases {r : Nat} (h : Under s p r) : r = p ∨ ∃ m i c, s.mapNodes[p]? = some m ∧ m.apChilds i = some c ∧
    Under s c r := by
  induction h with
  | self => exact Or.inl rfl
  | @child r c' k j _ hk hc ih =>
      right
      rcases ih with rfl | ⟨m, i, c, hm, hi, hu⟩
      · exact ⟨k, j, c', hk, hc, .self⟩
      · exact ⟨m, i, c, hm, hi, .child hu hk hc⟩

/-- A count of 0 hides nothing. -/
theorem Lists.not_mem_of_count (h : Lists s) (h0 : s.countAt p = 0) : d ∉ itemsUnder s p := by
  rintro ⟨r, hu, hr⟩
  rw [h.pruned.list r (h.pruned.under h0 hu)] at hr
  cases hr

/-- The items of a leaf are those of its list. -/
theorem Growing.items_leaf (hg : Growing L s) (hm : s.mapNodes[p]? = some m) (hL : L ≤ m.iLevel)
    (hd : d ∈ itemsUnder s p) : Reaches s.next d m.pDataNode := by
  obtain ⟨r, hu, hr⟩ := hd
  rcases hu.top_cases with rfl | ⟨m', i, c, hm', hc, -⟩
  · rw [head_eq hm] at hr
    exact hr
  · obtain rfl := Option.some.inj (hm.symm.trans hm')
    rw [hg.leaf p m hm hL i] at hc
    cases hc

/-- The items of a node above the leaves are those of its children. -/
theorem Growing.items_inner (hg : Growing L s) (hm : s.mapNodes[p]? = some m) (hL : m.iLevel < L)
    (hd : d ∈ itemsUnder s p) : ∃ i c, m.apChilds i = some c ∧ d ∈ itemsUnder s c := by
  obtain ⟨r, hu, hr⟩ := hd
  rcases hu.top_cases with rfl | ⟨m', i, c, hm', hc, hu⟩
  · rw [head_eq hm, hg.inner r m hm hL] at hr
    cases hr
  · obtain rfl := Option.some.inj (hm.symm.trans hm')
    exact ⟨i, c, hc, r, hu, hr⟩

/-- A child has the locations of its items. -/
theorem Growing.items_loc {c : Nat} {i : Fin 4} {k : NlaMapNode} {data : NlaDataItem} (hg : Growing L s) (hlists : Lists s)
    (hm : s.mapNodes[p]? = some m) (hc : m.apChilds i = some c) (hk : s.mapNodes[c]? = some k) (hd : d ∈ itemsUnder s c)
    (hdata : s.item d = some data) : isLocInRC k.rc data.loc = true := by
  obtain ⟨r, hu, hr⟩ := hd
  obtain ⟨k', data', hk', hdata', hin⟩ := hlists.item d r hr
  obtain rfl := Option.some.inj (hdata.symm.trans hdata')
  have hroot : r ≠ s.pMapRoot := by
    cases hu with
    | self => exact hg.child_ne_root hm hc
    | child _ hm' hc' => exact hg.child_ne_root hm' hc'
  exact hg.rc_under hu hk hk' (hin hroot)

/-! ## A step of the query -/

/-- The frame at the top turns into another one with the same rectangle. -/
theorem Report.turn (h : Report q T s (f :: fs) ex) (g : Frame) (hrc : g.rc = f.rc) (hkeeps : g.Keeps s)
    (harea : ∀ loc, g.Area s loc → f.Area s loc) (hmay : ∀ d loc, g.May s d loc → f.May s d loc)
    (hcover : ∀ d data, s.item d = some data → passes q.rc q.iStatus q.iType data = true → f.Has s d →
      isLocInRC f.rc data.loc = true → g.Has s d) : Report q T s (g :: fs) ex := by
  have hone : ∀ g' ∈ [g], g' = g := fun g' hg' => List.mem_singleton.mp hg'
  change Report q T s ([g] ++ fs) ex
  refine h.replace (fun g' hg' => ?_) (fun g' hg' loc ha => ?_) (List.pairwise_singleton _ _)
    fun _ d data hdata hpass hhas hin => ?_
  · rw [hone g' hg']
    refine ⟨?_, hkeeps⟩
    rw [hrc]
    exact (h.good f List.mem_cons_self).clip
  · rw [hone g' hg'] at ha ⊢
    exact ⟨harea loc ha, fun d => hmay d loc⟩
  · refine ⟨g, List.mem_singleton_self g, hcover d data hdata hpass hhas hin, ?_⟩
    rw [hrc]
    exact hin

/-- The query comes to a list. -/
theorem Report.leaf {rc : NlaRect} (h : Report q T s (.node p rc :: fs) ex) (hg : Growing L s)
    (hm : s.mapNodes[p]? = some m) (hL : L ≤ m.iLevel) : Report q T s (.list m.pDataNode rc :: fs) ex := by
  refine h.turn (.list m.pDataNode rc) rfl (fun d hd => ⟨p, ?_⟩) (fun loc ha => ha)
    (fun d loc ha => ⟨ha.1, fun cur hcur => ?_⟩) fun d data _ _ hhas _ => hg.items_leaf hm hL hhas
  · rw [head_eq hm, hd]
    exact .here
  · cases hcur

/-- The query comes to the children of a node. -/
theorem Report.inner {rc : NlaRect} (h : Report q T s (.node p rc :: fs) ex) (hg : Growing L s)
    (hm : s.mapNodes[p]? = some m) (hL : m.iLevel < L) : Report q T s (.childs p rc [0, 1, 2, 3] :: fs) ex := by
  have hall : ∀ i : Fin 4, i ∈ ([0, 1, 2, 3] : List (Fin 4)) := by decide
  refine h.turn (.childs p rc [0, 1, 2, 3]) rfl ⟨by decide, m, hm⟩ (fun loc ha => ha.1)
    (fun d loc ha => ⟨ha.1.1, fun cur hcur => ?_⟩) fun d data _ _ hhas _ => ?_
  · cases hcur
  · obtain ⟨i, c, hc, hd⟩ := hg.items_inner hm hL hhas
    exact ⟨i, hall i, m, c, hm, hc, hd⟩

/-- The query passes an item by. -/
theorem Report.skip {rc : NlaRect} {data : NlaDataItem} (h : Report q T s (.list (some d) rc :: fs) ex)
    (hdata : s.item d = some data) (hfail : passes rc q.iStatus q.iType data ≠ true) :
    Report q T s (.next d rc :: fs) ex := by
  refine h.turn (.next d rc) rfl (h.good _ List.mem_cons_self).keeps (fun loc ha => ha)
    (fun e loc hm => ⟨hm.1, fun cur hcur => ?_⟩) fun e data' hdata' hpass hhas hin => ?_
  · cases hcur
    exact .step (hm.2 _ rfl)
  · cases hhas with
    | here =>
        -- an item that passes the query's tests passes those of the frame
        obtain rfl := Option.some.inj (hdata.symm.trans hdata')
        exact absurd (passes_of_loc hin hpass) hfail
    | step hr => exact hr

/-- The query goes on in a list. -/
theorem Report.next {rc : NlaRect} {n : NlaDataNode} (h : Report q T s (.next d rc :: fs) ex)
    (hn : s.dataNodes[d]? = some n) : Report q T s (.list n.next rc :: fs) ex := by
  have hnext : s.next d = n.next := by rw [NlaCoreData.next, hn, Option.bind_some]
  have hon : OnList s (some d) := (h.good _ List.mem_cons_self).keeps
  rw [← hnext]
  refine h.turn (.list (s.next d) rc) rfl hon.next (fun loc ha => ha) (fun e loc hm => ⟨hm.1, fun cur hcur => ?_⟩)
    fun e data _ _ hhas _ => hhas
  cases hcur
  exact hm.2 _ rfl

section Childs

variable {rc : NlaRect} {i : Fin 4} {left : List (Fin 4)} {child : Nat} {k : NlaMapNode}
  (h : Report q T s (.childs p rc (i :: left) :: fs) ex) (hg : Growing L s) (hlists : Lists s)
  (hm : s.mapNodes[p]? = some m) (hc : m.apChilds i = some child) (hk : s.mapNodes[child]? = some k)

include h hg hlists hm hc hk

/-- The rectangle of a child is beside that of the query. -/
theorem Report.miss (hrc : intersectRc k.rc rc = none) : Report q T s (.childs p rc left :: fs) ex := by
  obtain ⟨hnodup, hnode⟩ := (h.good _ List.mem_cons_self).keeps
  have hsub : ∀ loc, Frame.Area s loc (.childs p rc left) → Frame.Area s loc (.childs p rc (i :: left)) := by
    rintro loc ⟨hin, j, hj, hrest⟩
    exact ⟨hin, j, List.mem_cons_of_mem i hj, hrest⟩
  refine h.turn (.childs p rc left) rfl ⟨(List.nodup_cons.mp hnodup).2, hnode⟩ hsub
    (fun d loc ha => ⟨hsub loc ha.1, fun cur hcur => ?_⟩) fun d data hdata _ hhas hin => ?_
  · cases hcur
  · obtain ⟨j, hj, m', c, hm', hc', hd⟩ := hhas
    rcases List.mem_cons.mp hj with rfl | hj
    · obtain rfl := Option.some.inj (hm.symm.trans hm')
      obtain rfl := Option.some.inj (hc.symm.trans hc')
      obtain ⟨newRc, hnew, -⟩ := (mem_intersectRc k.rc rc data.loc).mpr ⟨hg.items_loc hlists hm hc hk hd hdata, hin⟩
      rw [hrc] at hnew
      cases hnew
    · exact ⟨j, hj, m', c, hm', hc', hd⟩

/-- The query goes into a child. -/
theorem Report.enter {newRc : NlaRect} (hrc : intersectRc k.rc rc = some newRc) :
    Report q T s (.node child newRc :: .childs p rc left :: fs) ex := by
  have hgood := h.good _ List.mem_cons_self
  obtain ⟨hnodup, hnode⟩ := hgood.keeps
  obtain ⟨hni, hnl⟩ := List.nodup_cons.mp hnodup
  obtain ⟨k', hk', -, -, hkrc⟩ := hg.child p child m i hm hc
  obtain rfl := Option.some.inj (hk.symm.trans hk')
  have hmem : ∀ loc, isLocInRC newRc loc = true ↔ isLocInRC (childRect m.rc i) loc = true ∧ isLocInRC rc loc = true := by
    intro loc
    rw [← hkrc, ← mem_intersectRc k.rc rc loc, hrc]
    exact ⟨fun hin => ⟨newRc, rfl, hin⟩, fun ⟨_, heq, hin⟩ => Option.some.inj heq ▸ hin⟩
  have hcases : ∀ g ∈ [Frame.node child newRc, .childs p rc left], g = .node child newRc ∨ g = .childs p rc left := by
    intro g hg
    rcases List.mem_cons.mp hg with hg | hg
    · exact Or.inl hg
    · exact Or.inr (List.mem_singleton.mp hg)
  change Report q T s ([Frame.node child newRc, .childs p rc left] ++ fs) ex
  refine h.replace (fun g hg => ?_) (fun g hg loc ha => ?_) ?_ fun _ d data hdata _ hhas hin => ?_
  · rcases hcases g hg with rfl | rfl
    · exact ⟨fun loc hin => hgood.clip loc ((hmem loc).mp hin).2, trivial⟩
    · exact ⟨hgood.clip, hnl, hnode⟩
  · have harea : Frame.Area s loc (.childs p rc (i :: left)) := by
      rcases hcases g hg with rfl | rfl
      · obtain ⟨hin, hin'⟩ := (hmem loc).mp ha
        exact ⟨hin', i, List.mem_cons_self, m, hm, hin⟩
      · obtain ⟨hin, j, hj, hrest⟩ := ha
        exact ⟨hin, j, List.mem_cons_of_mem i hj, hrest⟩
    refine ⟨harea, fun d _ => ⟨harea, fun cur hcur => ?_⟩⟩
    cases hcur
  · refine List.pairwise_pair.mpr fun loc ha hb => ?_
    -- the quadrants have no location in common
    obtain ⟨-, j, hj, m', hm', hin'⟩ := hb
    obtain rfl := Option.some.inj (hm.symm.trans hm')
    have hij := childRect_disjoint (hg.ok p m hm).1 ((hmem loc).mp ha).1 hin'
    rw [hij] at hni
    exact hni hj
  · obtain ⟨j, hj, m', c, hm', hc', hd⟩ := hhas
    rcases List.mem_cons.mp hj with rfl | hj
    · obtain rfl := Option.some.inj (hm.symm.trans hm')
      obtain rfl := Option.some.inj (hc.symm.trans hc')
      have hloc := hg.items_loc hlists hm hc hk hd hdata
      rw [hkrc] at hloc
      exact ⟨_, List.mem_cons_self, hd, (hmem data.loc).mpr ⟨hloc, hin⟩⟩
    · exact ⟨.childs p rc left, List.mem_cons_of_mem _ (List.mem_singleton_self _), ⟨j, hj, m', c, hm', hc', hd⟩, hin⟩

end Childs

/-- **A step of a query keeps its report.** -/
theorem Report.read (h : Report q T s fs ex) (hg : Growing conf.nMapMaxLevel s) (hlists : Lists s) (hptr : Pointers s)
    (hs : ReadMove conf q s fs ex fs' ex') : Report q T s fs' ex' := by
  cases hs with
  | stop => exact h
  | @empty p rc _ _ m hm h1 =>
      apply h.pop
      intro _ d data _ hhas _
      exact hlists.not_mem_of_count (by rw [countAt_eq hm, h1]) hhas
  | leaf hm _ hL => exact h.leaf hg hm hL
  | @bare p rc _ _ m hm _ hL h0 =>
      apply h.pop
      intro _ d data _ hhas _
      obtain ⟨i, c, hc, -⟩ := hg.items_inner hm hL hhas
      rw [hptr.first p m hm h0 i] at hc
      cases hc
  | inner hm _ hL _ => exact h.inner hg hm hL
  | full hc => exact h.pop fun hlt => absurd hlt hc
  | tail =>
      apply h.pop
      intro _ d data _ hhas _
      cases hhas
  | item hc hn =>
      split_ifs with hpass
      · exact h.emit hlists (item_of_getElem? hn) hc hpass
      · exact h.skip (item_of_getElem? hn) hpass
  | next hn => exact h.next hn
  | last =>
      apply h.pop
      rintro _ d data _ ⟨i, hi, -⟩ _
      exact absurd hi List.not_mem_nil
  | miss hm hc hk hrc => exact h.miss hg hlists hm hc hk hrc
  | enter hm hc hk hrc => exact h.enter hg hlists hm hc hk hrc

/-! ## A query on its own -/

/-- The query comes to the frames `fs`, or to a step that fails. -/
def Comes (conf : Conf) (q : AroundQuery) (s : NlaCoreData) (a : List Frame × NlaExParam) (fs : List Frame) : Prop :=
  ∃ fs' ex', QuerySteps conf q s a (fs', ex') ∧ (fs' = fs ∨ ∃ e, readStep conf q s fs' ex' = .error e)

/-- The frame is taken off in the end. -/
def Frame.Pops (conf : Conf) (q : AroundQuery) (s : NlaCoreData) (f : Frame) : Prop :=
  ∀ fs ex, Comes conf q s (f :: fs, ex) fs

theorem Comes.refl (fs : List Frame) (ex : NlaExParam) : Comes conf q s (fs, ex) fs := ⟨fs, ex, .refl, Or.inl rfl⟩

theorem Comes.trans (h : Comes conf q s (fs, ex) gs) (h' : ∀ ex, Comes conf q s (gs, ex) fs') :
    Comes conf q s (fs, ex) fs' := by
  obtain ⟨fs1, ex1, hsteps, hend⟩ := h
  rcases hend with rfl | hfault
  · obtain ⟨fs2, ex2, hsteps', hend'⟩ := h' ex1
    exact ⟨fs2, ex2, hsteps.trans hsteps', hend'⟩
  · exact ⟨fs1, ex1, hsteps, Or.inr hfault⟩

/-- What holds after every step that a query can take holds before it. -/
theorem Comes.of_step (h : ∀ fs' ex', ReadMove conf q s fs ex fs' ex' → Comes conf q s (fs', ex') gs) :
    Comes conf q s (fs, ex) gs := by
  cases hs : readStep conf q s fs ex with
  | error e => exact ⟨fs, ex, .refl, Or.inr ⟨e, hs⟩⟩
  | ok a =>
      obtain ⟨fs1, ex1, hsteps, hend⟩ := h a.1 a.2 (readStep_eq_ok.mp hs)
      exact ⟨fs1, ex1, .head hs hsteps, hend⟩

theorem pops_next {rc : NlaRect} (h : (Frame.list (s.next d) rc).Pops conf q s) : (Frame.next d rc).Pops conf q s := by
  intro fs ex
  apply Comes.of_step
  intro fs' ex' hs
  cases hs with
  | @next _ _ _ _ n hn =>
      have hnext : s.next d = n.next := by rw [NlaCoreData.next, hn, Option.bind_some]
      rw [← hnext]
      exact h fs _

/-- The rest of a list. -/
theorem pops_list {cur : Option DataPtr} {l : List DataPtr} (hl : Chain s.next cur l) (rc : NlaRect) :
    (Frame.list cur rc).Pops conf q s := by
  induction hl with
  | nil =>
      intro fs ex
      apply Comes.of_step
      intro fs' ex' hs
      cases hs with
      | full _ => exact .refl fs _
      | tail => exact .refl fs _
  | @cons d l _ ih =>
      intro fs ex
      apply Comes.of_step
      intro fs' ex' hs
      cases hs with
      | full _ => exact .refl fs _
      | item _ _ => exact pops_next ih fs _

/-- The children that are left. -/
theorem pops_childs (hm : s.mapNodes[p]? = some m)
    (hchild : ∀ i c, m.apChilds i = some c → ∀ rc, (Frame.node c rc).Pops conf q s) (rc : NlaRect) (left : List (Fin 4)) :
    (Frame.childs p rc left).Pops conf q s := by
  induction left with
  | nil =>
      intro fs ex
      apply Comes.of_step
      intro fs' ex' hs
      cases hs
      exact .refl fs _
  | cons i left ih =>
      intro fs ex
      apply Comes.of_step
      intro fs' ex' hs
      cases hs with
      | miss _ _ _ _ => exact ih fs _
      | @enter _ child _ newRc _ _ _ _ m' k hm' hc _ _ =>
          obtain rfl := Option.some.inj (hm.symm.trans hm')
          exact (hchild i child hc newRc _ _).trans fun ex => ih fs ex

/-- A node whose children are taken off. -/
theorem pops_node_of_childs (hlists : Lists s) (hchild : ∀ m, s.mapNodes[p]? = some m → m.iLevel < conf.nMapMaxLevel →
    ∀ i c, m.apChilds i = some c → ∀ rc, (Frame.node c rc).Pops conf q s) (rc : NlaRect) :
    (Frame.node p rc).Pops conf q s := by
  intro fs ex
  apply Comes.of_step
  intro fs' ex' hs
  cases hs with
  | empty _ _ => exact .refl fs _
  | leaf hm _ _ =>
      obtain ⟨l, hl⟩ := hlists.ends p
      rw [head_eq hm] at hl
      exact pops_list hl rc fs _
  | bare _ _ _ _ => exact .refl fs _
  | inner hm _ hL _ => exact pops_childs hm (hchild _ hm hL) rc _ fs _

theorem pops_node (hg : Growing conf.nMapMaxLevel s) (hlists : Lists s) (p : Nat) (rc : NlaRect) :
    (Frame.node p rc).Pops conf q s := by
  -- the induction is on the levels between the node and the lists
  have hlevels : ∀ (k p : Nat), (∀ m, s.mapNodes[p]? = some m → conf.nMapMaxLevel ≤ m.iLevel + k) → ∀ rc,
      (Frame.node p rc).Pops conf q s := by
    intro k
    induction k with
    | zero =>
        intro p hk
        apply pops_node_of_childs hlists
        intro m hm hL
        have := hk m hm
        omega
    | succ k ih =>
        intro p hk
        apply pops_node_of_childs hlists
        intro m hm _ i c hc
        obtain ⟨k', hk', hlevel, -⟩ := hg.child p c m i hm hc
        apply ih c
        intro m' hm'
        obtain rfl := Option.some.inj (hk'.symm.trans hm')
        have := hk m hm
        omega
  apply hlevels conf.nMapMaxLevel.toNat p
  intro m hm
  have := (hg.ok p m hm).2
  omega

/-- Every frame is taken off in the end. -/
theorem Frame.Good.pops (hf : f.Good q s) (hg : Growing conf.nMapMaxLevel s) (hlists : Lists s) : f.Pops conf q s := by
  have hkeeps := hf.keeps
  cases f with
  | node p rc => exact pops_node hg hlists p rc
  | list cur rc =>
      obtain ⟨l, hl, -⟩ := hlists.chain hkeeps
      exact pops_list hl rc
  | next e rc =>
      have hon : OnList s (some e) := hkeeps
      obtain ⟨l, hl, -⟩ := hlists.chain hon.next
      exact pops_next (pops_list hl rc)
  | childs p rc left =>
      obtain ⟨-, m, hm⟩ := hkeeps
      exact pops_childs hm (fun i c _ => pops_node hg hlists c) rc left

theorem comes_nil (hg : Growing conf.nMapMaxLevel s) (hlists : Lists s) (hgood : ∀ f ∈ fs, f.Good q s) (ex : NlaExParam) :
    Comes conf q s (fs, ex) [] := by
  induction fs generalizing ex with
  | nil => exact .refl [] ex
  | cons f fs ih =>
      obtain ⟨hf, hfs⟩ := List.forall_mem_cons.mp hgood
      exact (hf.pops hg hlists fs ex).trans (ih hfs)

/-! ## Runs -/

/-- The report of a query that starts. -/
theorem report_start (hg : Growing L s) (hlists : Lists s) (hT : T ⊆ stored s q.rc q.iStatus q.iType) :
    Report q T s [.node s.pMapRoot q.rc] ⟨0, [], []⟩ where
  kept := hT
  nodup := List.nodup_nil
  count := rfl
  max := le_max_right _ _
  good := by
    intro f hf
    rw [List.mem_singleton.mp hf]
    exact ⟨fun _ hin => hin, trivial⟩
  apart := List.pairwise_singleton _ _
  sound := fun d hd => absurd hd List.not_mem_nil
  fresh := fun d hd => absurd hd List.not_mem_nil
  complete := by
    intro _ d hd
    obtain ⟨⟨r, hr⟩, data, hdata, hpass⟩ := hT hd
    obtain ⟨k, -, hk, -⟩ := hlists.item d r hr
    refine Or.inr ⟨_, List.mem_singleton_self _, ⟨r, hg.under_root hk, hr⟩, fun data' hdata' => ?_⟩
    obtain rfl := Option.some.inj (hdata.symm.trans hdata')
    exact (passes_iff.mp hpass).2.2

variable {iHashSize : Nat} {todos : List (List SetItem)} {done : Finset DataPtr}

/-- Data nodes are never taken back. -/
theorem Reading.length_le {P : SpinCfg → Nat → Prop} (hok : ReadOk cq) (h : Reading conf ncpu P q cq c fs ex) :
    cq.shared.data.dataNodes.length ≤ c.shared.data.dataNodes.length := by
  induction h with
  | start hr =>
      have hboth := hr.invariant
        (I := fun c => ReadOk c ∧ cq.shared.data.dataNodes.length ≤ c.shared.data.dataNodes.length) ⟨hok, le_refl _⟩
        fun _ _ _ h _ hs => ⟨(h.1.step hs).1, h.2.trans (h.1.step hs).2.data⟩
      exact hboth.2
  | world hprev _ hs ih => exact ih.trans ((hprev.readOk hok).1.step hs).2.data
  | read _ _ ih => exact ih

/-- The workers before the query starts. -/
theorem Inserting.reach (h : Inserting conf done cq) (hr : SpinReach conf ncpu FirstTime cq c)
    (hlen : c.shared.data.dataNodes.length < 2 ^ 32) : (∃ done', Inserting conf done' c) ∧
      ∀ rc iStatus iType, stored cq.shared.data rc iStatus iType ⊆ stored c.shared.data rc iStatus iType := by
  induction hr with
  | init => exact ⟨⟨done, h⟩, fun _ _ _ => subset_rfl⟩
  | @step c c' i hprev hfirst hs ih =>
      have hok : ReadOk c := hprev.invariant h.ok fun _ _ _ h _ hs => (h.step hs).1
      have hle := (hok.step hs).2.data
      obtain ⟨⟨done1, h1⟩, hsub⟩ := ih (hle.trans_lt hlen)
      obtain ⟨done', h', hlater⟩ := h1.step hfirst hs (hle.trans_lt hlen)
      exact ⟨⟨done', h'⟩, fun rc iStatus iType => (hsub rc iStatus iType).trans (hlater.stored rc iStatus iType)⟩

/-- The report of a query beside the workers. -/
theorem Reading.report (h : Inserting conf done cq) (hread : Reading conf ncpu FirstTime q cq c fs ex)
    (hlen : c.shared.data.dataNodes.length < 2 ^ 32) : (∃ done', Inserting conf done' c) ∧
      Report q (stored cq.shared.data q.rc q.iStatus q.iType) c.shared.data fs ex := by
  induction hread with
  | start hr =>
      obtain ⟨⟨done', h'⟩, hsub⟩ := h.reach hr hlen
      exact ⟨⟨done', h'⟩, report_start h'.growing h'.lists (hsub _ _ _)⟩
  | @world c c' i fs ex hprev hfirst hs ih =>
      have hle := ((hprev.readOk h.ok).1.step hs).2.data
      obtain ⟨⟨done1, h1⟩, hrep⟩ := ih (hle.trans_lt hlen)
      obtain ⟨done', h', hlater⟩ := h1.step hfirst hs (hle.trans_lt hlen)
      exact ⟨⟨done', h'⟩, hrep.later hlater h1.lists⟩
  | read _ hs ih =>
      obtain ⟨⟨done', h'⟩, hrep⟩ := ih hlen
      exact ⟨⟨done', h'⟩, hrep.read h'.growing h'.lists h'.ok.pointers (readStep_eq_ok.mp hs)⟩

/-- **What a query answers beside insertions.** In every run in which the calls insert new items, and for a query that runs
beside them without the lock, in any order of all steps: when the query returns, it has emitted no item twice and not more
than its count, only items that are stored at the end and pass its tests, and, below its count, every item that was stored
before it started and passes. The items are fewer than `2 ^ 32`, since the pool has 16 MB. -/
theorem reading_between (h0 : 0 < iHashSize)
    (hr : SpinReach conf ncpu FirstTime (startSpinCfg (initCoreData iHashSize h0) todos) cq)
    (h : Reading conf ncpu FirstTime q cq c [] ex) (hlen : c.shared.data.dataNodes.length < 2 ^ 32) :
    ex.emitted.Nodup ∧ ex.count = ex.emitted.length ∧ ex.count ≤ max q.iMaxCount 0 ∧
      (∀ d ∈ ex.emitted, d ∈ stored c.shared.data q.rc q.iStatus q.iType) ∧
      (ex.count < q.iMaxCount → ∀ d ∈ stored cq.shared.data q.rc q.iStatus q.iType, d ∈ ex.emitted) := by
  have hstart := inserting_start conf h0 todos
  have hok : ReadOk cq := hr.invariant hstart.ok fun _ _ _ h _ hs => (h.step hs).1
  obtain ⟨⟨done, hI⟩, -⟩ := hstart.reach hr ((h.length_le hok).trans_lt hlen)
  obtain ⟨-, hrep⟩ := h.report hI hlen
  refine ⟨hrep.nodup, hrep.count, hrep.max, hrep.sound, fun hc d hd => ?_⟩
  rcases hrep.complete hc d hd with hem | ⟨f, hf, -⟩
  · exact hem
  · exact absurd hf List.not_mem_nil

theorem firstTime_of {i : Nat} {w : Proc SpinPhase SetItem} {op : SetItem} {rest : List SetItem}
    (hw : c.procs[i]? = some w) (htodo : w.todo = op :: rest)
    (h : w.phase = .out .idle → c.shared.data.getdatanode op.id = none) : FirstTime c i := by
  intro w' op' rest' hw' htodo' hphase
  obtain rfl := Option.some.inj (hw.symm.trans hw')
  obtain rfl := (List.cons.inj (htodo.symm.trans htodo')).1
  exact h hphase

/-- One item is stored, and another one gets in front of it while the query is in the list. -/
theorem reading_between_one : ∃ (cq c : SpinCfg) (ex : NlaExParam),
    SpinReach ⟨0⟩ 1 FirstTime (startSpinCfg (initCoreData 1 Nat.one_pos) [[setA 5 5], [setB 5 5]]) cq ∧
      Reading ⟨0⟩ 1 FirstTime ⟨initRootRect, -1, -1, 10⟩ cq c [] ex ∧ cq.shared.data.head 0 = some 0 ∧
      c.shared.data.head 0 = some 1 ∧ ex.emitted = [0] ∧
      ∀ d ∈ stored cq.shared.data initRootRect (-1) (-1), d ∈ ex.emitted := by
  have query : ∀ {c0 c : SpinCfg}, SpinReach ⟨0⟩ 1 FirstTime c0 c → Reading ⟨0⟩ 1 FirstTime
      ⟨initRootRect, -1, -1, 10⟩ c c [.node c.shared.data.pMapRoot initRootRect] ⟨0, [], []⟩ := fun _ => .start .init
  have hrun : ∃ (cq c : SpinCfg) (ex : NlaExParam),
      SpinReach ⟨0⟩ 1 FirstTime (startSpinCfg (initCoreData 1 Nat.one_pos) [[setA 5 5], [setB 5 5]]) cq ∧
        Reading ⟨0⟩ 1 FirstTime ⟨initRootRect, -1, -1, 10⟩ cq c [] ex ∧ cq.shared.data.head 0 = some 0 ∧
        c.shared.data.head 0 = some 1 ∧ ex.emitted = [0] ∧ c.shared.data.dataNodes.length = 2 := by
    have h0 : SpinReach ⟨0⟩ 1 FirstTime (startSpinCfg (initCoreData 1 Nat.one_pos) [[setA 5 5], [setB 5 5]])
        (startSpinCfg (initCoreData 1 Nat.one_pos) [[setA 5 5], [setB 5 5]]) := .init
    have h1 := h0.step (firstTime_of rfl rfl fun _ => rfl) (.mk (i := 0) rfl rfl (.out (.lookupNone rfl)))
    have h2 := h1.step (firstTime_of rfl rfl (by nofun)) (.mk (i := 0) rfl rfl (.out .alloc))
    have h3 := h2.step (firstTime_of rfl rfl (by nofun)) (.mk (i := 0) rfl rfl (.spin rfl))
    have h4 := h3.step (firstTime_of rfl rfl (by nofun)) (.mk (i := 0) rfl rfl (.acquire rfl))
    have h5 := h4.step (firstTime_of rfl rfl (by nofun)) (.mk (i := 0) rfl rfl (.micro rfl))
    have h6 := h5.step (firstTime_of rfl rfl (by nofun)) (.mk (i := 0) rfl rfl (.micro rfl))
    have h7 := h6.step (firstTime_of rfl rfl (by nofun)) (.mk (i := 0) rfl rfl (.micro rfl))
    have h8 := h7.step (firstTime_of rfl rfl (by nofun)) (.mk (i := 0) rfl rfl .release)
    have r1 := (query h8).read rfl
    have r2 := r1.world (firstTime_of rfl rfl fun _ => rfl) (.mk (i := 1) rfl rfl (.out (.lookupNone rfl)))
    have r3 := r2.world (firstTime_of rfl rfl (by nofun)) (.mk (i := 1) rfl rfl (.out .alloc))
    have r4 := r3.world (firstTime_of rfl rfl (by nofun)) (.mk (i := 1) rfl rfl (.spin rfl))
    have r5 := r4.world (firstTime_of rfl rfl (by nofun)) (.mk (i := 1) rfl rfl (.acquire rfl))
    have r6 := r5.world (firstTime_of rfl rfl (by nofun)) (.mk (i := 1) rfl rfl (.micro rfl))
    have r7 := r6.world (firstTime_of rfl rfl (by nofun)) (.mk (i := 1) rfl rfl (.micro rfl))
    have r8 := r7.world (firstTime_of rfl rfl (by nofun)) (.mk (i := 1) rfl rfl (.micro rfl))
    have r9 := ((r8.read rfl).read rfl).read rfl
    exact ⟨_, _, _, h8, r9, rfl, rfl, rfl, rfl⟩
  obtain ⟨cq, c, ex, hr, hread, hq, hhead, hem, hlen⟩ := hrun
  have hbetween := reading_between Nat.one_pos hr hread (by rw [hlen]; decide)
  refine ⟨cq, c, ex, hr, hread, hq, hhead, hem, hbetween.2.2.2.2 ?_⟩
  rw [hbetween.2.1, hem]
  decide

/-- The query goes on while the workers stand still. -/
theorem Reading.querySteps {P : SpinCfg → Nat → Prop} {a : List Frame × NlaExParam} (h : Reading conf ncpu P q cq c fs ex)
    (hs : QuerySteps conf q c.shared.data (fs, ex) a) : Reading conf ncpu P q cq c a.1 a.2 := by
  induction hs with
  | refl => exact h
  | tail _ hs ih => exact ih.read hs

/-- **A query ends.** In those runs, wherever the query stands, its own steps come to its return, or to a child that a worker
in `create_child_mapnode` has still to create. -/
theorem reading_ends (h0 : 0 < iHashSize)
    (hr : SpinReach conf ncpu FirstTime (startSpinCfg (initCoreData iHashSize h0) todos) cq)
    (h : Reading conf ncpu FirstTime q cq c fs ex) (hlen : c.shared.data.dataNodes.length < 2 ^ 32) :
    ∃ fs' ex', QuerySteps conf q c.shared.data (fs, ex) (fs', ex') ∧
      (fs' = [] ∨ ∃ p rc i left rest, fs' = .childs p rc (i :: left) :: rest ∧ Creating c p i) := by
  have hstart := inserting_start conf h0 todos
  have hok : ReadOk cq := hr.invariant hstart.ok fun _ _ _ h _ hs => (h.step hs).1
  obtain ⟨⟨done, hI⟩, -⟩ := hstart.reach hr ((h.length_le hok).trans_lt hlen)
  obtain ⟨⟨done', hI'⟩, hrep⟩ := h.report hI hlen
  obtain ⟨fs', ex', hsteps, hend⟩ := comes_nil hI'.growing hI'.lists hrep.good ex
  refine ⟨fs', ex', hsteps, hend.imp id fun ⟨e, he⟩ => ?_⟩
  obtain ⟨hok', hfs'⟩ := (h.querySteps hsteps).readOk hok
  exact hok'.creating hfs' he

/-- The query is at the list of a node that a worker has just entered. -/
theorem reading_ends_one : ∃ (c : SpinCfg) (fs : List Frame) (ex : NlaExParam),
    Reading ⟨0⟩ 1 FirstTime ⟨initRootRect, -1, -1, 10⟩ (startSpinCfg (initCoreData 1 Nat.one_pos) [[setA 5 5]]) c fs ex ∧
      fs = [.list none initRootRect] ∧ ∃ fs' ex',
        QuerySteps ⟨0⟩ ⟨initRootRect, -1, -1, 10⟩ c.shared.data (fs, ex) (fs', ex') ∧
        (fs' = [] ∨ ∃ p rc i left rest, fs' = .childs p rc (i :: left) :: rest ∧ Creating c p i) := by
  have hrun : ∃ (c : SpinCfg) (ex : NlaExParam),
      Reading ⟨0⟩ 1 FirstTime ⟨initRootRect, -1, -1, 10⟩ (startSpinCfg (initCoreData 1 Nat.one_pos) [[setA 5 5]]) c
        [.list none initRootRect] ex ∧ c.shared.data.dataNodes.length = 1 := by
    have h0 : Reading ⟨0⟩ 1 FirstTime ⟨initRootRect, -1, -1, 10⟩ (startSpinCfg (initCoreData 1 Nat.one_pos) [[setA 5 5]])
        (startSpinCfg (initCoreData 1 Nat.one_pos) [[setA 5 5]]) [.node 0 initRootRect] ⟨0, [], []⟩ := .start .init
    have h1 := h0.world (firstTime_of rfl rfl fun _ => rfl) (.mk (i := 0) rfl rfl (.out (.lookupNone rfl)))
    have h2 := h1.world (firstTime_of rfl rfl (by nofun)) (.mk (i := 0) rfl rfl (.out .alloc))
    have h3 := h2.world (firstTime_of rfl rfl (by nofun)) (.mk (i := 0) rfl rfl (.spin rfl))
    have h4 := h3.world (firstTime_of rfl rfl (by nofun)) (.mk (i := 0) rfl rfl (.acquire rfl))
    have h5 := h4.world (firstTime_of rfl rfl (by nofun)) (.mk (i := 0) rfl rfl (.micro rfl))
    have h6 := h5.world (firstTime_of rfl rfl (by nofun)) (.mk (i := 0) rfl rfl (.micro rfl))
    exact ⟨_, _, h6.read rfl, rfl⟩
  obtain ⟨c, ex, hread, hlen⟩ := hrun
  exact ⟨c, _, ex, hread, rfl, reading_ends Nat.one_pos .init hread (by rw [hlen]; decide)⟩

end Lookaround
