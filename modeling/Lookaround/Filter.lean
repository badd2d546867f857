import Lookaround.Handler
import Lookaround.Geo

/-!
# The status and type arguments of a query

A filter argument goes through `ngx_atoi`, whose error value is the marker for no filter, and then into an `int`.

* `FilterArg` : the two arguments, and the field each is about;
* `integer` : the number a byte string denotes;
* `Reports` : the items of a reply; `FilterApplied` : what a request with the argument may report;
* `filterApplied_iff` : the arguments that are applied in every state.
-/

namespace Lookaround

open NlaCoreData

/-- The rectangle of `lookaround`, whose radius is in millionths of a kilometre. -/
noncomputable def searchRect (loc : Nla2dloc) (radius : Int64) : NlaRect :=
  getRectFromLocRadius loc (radius.toInt / degFixpointBase)

inductive FilterArg where
  | status
  | type
  deriving DecidableEq

namespace FilterArg

/-- `NLA_PN_STATUS` and `NLA_PN_TYPE`. -/
def name : FilterArg → Bytes
  | status => ascii "status"
  | type => ascii "type"

/-- The field the argument is about. -/
def field (a : FilterArg) (data : NlaDataItem) : Int32 :=
  match a with
  | status => data.iStatus
  | type => data.iType

/-- What the query compares the field with. -/
def filter (a : FilterArg) (q : QueryArgs) : Int32 :=
  match a with
  | status => q.iStatus
  | type => q.iType

end FilterArg

/-- The number a byte string denotes: digits, with an optional minus sign. -/
def integer : Bytes → Option Int
  | 45 :: l => if l ≠ [] ∧ l.all isDigit = true then some (-(digitsValue l : Int)) else none
  | l => if l ≠ [] ∧ l.all isDigit = true then some (digitsValue l : Int) else none

variable {getRect : Nla2dloc → Int64 → NlaRect} {conf : Conf} {s : NlaCoreData} {r : Request}
  {a : FilterArg} {q : QueryArgs} {value : Bytes} {d : Nat}

/-- The items in the reply to a request: those its query writes, when the method is GET. -/
def Reports (getRect : Nla2dloc → Int64 → NlaRect) (conf : Conf) (s : NlaCoreData) (r : Request)
    (d : DataPtr) : Prop :=
  r.isGet = true ∧ ∃ q fuel ex, lookaroundArgs getRect r = some q ∧
    aroundItems conf s q fuel = .ok ex ∧ d ∈ ex.emitted

/-- The request is refused, or every item it reports has the number that the argument denotes. -/
def FilterApplied (getRect : Nla2dloc → Int64 → NlaRect) (conf : Conf) (s : NlaCoreData) (r : Request)
    (a : FilterArg) (value : Bytes) : Prop :=
  (∀ fuel, lookaround getRect conf s r fuel = .ok .badRequest) ∨
    ∀ d, Reports getRect conf s r d → ∃ data, s.item d = some data ∧
      integer value = some (a.field data).toInt

/-- The argument is a number that fits into an `int`, or there is nothing to report: the method is not GET, the request is
refused, or no location is in its rectangle. -/
def FilterSafe (getRect : Nla2dloc → Int64 → NlaRect) (r : Request) (value : Bytes) : Prop :=
  (value ≠ [] ∧ value.all isDigit = true ∧ digitsValue value < 2 ^ 31) ∨ r.isGet = false ∨
    ∀ q, lookaroundArgs getRect r = some q → ∀ loc, isLocInRC q.rc loc = false

/-! ## Arguments -/

theorem integer_digits (hne : value ≠ []) (hd : value.all isDigit = true) :
    integer value = some (digitsValue value : Int) := by
  unfold integer
  split
  · simp [isDigit] at hd
  · rw [if_pos ⟨hne, hd⟩]

/-- The argument of an accepted request, narrowed to an `int`. -/
theorem filter_eq (harg : ngxHttpArg r.args a.name = some value)
    (hq : lookaroundArgs getRect r = some q) : a.filter q = (ngxAtoi value).toInt32 := by
  simp only [lookaroundArgs, bind, Option.bind_eq_some_iff, pure] at hq
  obtain ⟨sLat, -, sLon, -, sRadius, -, hq⟩ := hq
  split_ifs at hq
  cases hq
  cases a with
  | status => simp only [FilterArg.filter, FilterArg.name] at harg ⊢; rw [harg, parseIntOr]
  | type => simp only [FilterArg.filter, FilterArg.name] at harg ⊢; rw [harg, parseIntOr]

theorem lookaround_badRequest (hq : lookaroundArgs getRect r = some q) {fuel : Nat} :
    lookaround getRect conf s r fuel ≠ .ok .badRequest := by
  intro h
  simp only [lookaround, hq] at h
  obtain ⟨ex, -, h⟩ := Library.bind_eq_ok.mp h
  split_ifs at h
  · cases h
  · have hreply := Except.ok.inj h
    unfold renderOutput at hreply
    split_ifs at hreply

/-! ## Applied in every state -/

/-- A reported item passes the tests of the query. -/
theorem Reports.passes (hq : lookaroundArgs getRect r = some q)
    (h : Reports getRect conf s r d) :
    ∃ data, s.item d = some data ∧ passes q.rc q.iStatus q.iType data = true := by
  obtain ⟨-, q', fuel, ex, hq', hex, hd⟩ := h
  obtain rfl := Option.some.inj (hq.symm.trans hq')
  obtain ⟨l, rfl, hl⟩ := getAroundData_prints hex
  rw [emitted_emitAll, List.nil_append, List.mem_map] at hd
  obtain ⟨e, he, rfl⟩ := hd
  exact ⟨e.2, hl e he⟩

theorem field_of_passes {data : NlaDataItem} (h : passes q.rc q.iStatus q.iType data = true) (a : FilterArg) :
    a.filter q = invalidFilter ∨ a.filter q = a.field data := by
  obtain ⟨htype, hstatus, -⟩ := passes_iff.mp h
  cases a with
  | status => exact hstatus
  | type => exact htype

theorem FilterSafe.applied (hsafe : FilterSafe getRect r value)
    (harg : ngxHttpArg r.args a.name = some value) (conf : Conf) (s : NlaCoreData) :
    FilterApplied getRect conf s r a value := by
  cases hq : lookaroundArgs getRect r with
  | none =>
      left
      intro fuel
      simp only [lookaround, hq]
  | some q =>
      right
      intro d hd
      obtain ⟨data, hdata, hpass⟩ := hd.passes hq
      refine ⟨data, hdata, ?_⟩
      rcases hsafe with ⟨hne, hdigits, hv⟩ | hget | hempty
      · -- the argument is its value, which is not the marker
        have hfilter : (a.filter q).toInt = digitsValue value := by
          rw [filter_eq harg hq, Int64.toInt_toInt32, ngxAtoi_digits hne hdigits (by omega)]
          exact Int.bmod_eq_of_le (by omega) (by omega)
        rw [integer_digits hne hdigits, ← hfilter]
        rcases field_of_passes hpass a with hinv | hfield
        · have hneg : (a.filter q).toInt = -1 := by
            rw [hinv]
            decide
          omega
        · rw [hfield]
      · rw [hd.1] at hget
        cases hget
      · have hin := (passes_iff.mp hpass).2.2
        rw [hempty q hq] at hin
        cases hin

/-! ## Not applied -/

/-- An argument that is no number of an `int` is compared with one that it does not denote, or with none. -/
theorem exists_wrong_field (h : ¬ (value ≠ [] ∧ value.all isDigit = true ∧ digitsValue value < 2 ^ 31)) :
    ∃ x : Int32, ((ngxAtoi value).toInt32 = invalidFilter ∨ (ngxAtoi value).toInt32 = x) ∧
      integer value ≠ some x.toInt := by
  unfold integer
  split
  · rename_i l
    have herr : ngxAtoi (45 :: l) = -1 := ngxAtoi_eq_error (by simp [isDigit])
    refine ⟨1, Or.inl (by rw [herr]; rfl), ?_⟩
    split_ifs
    · intro heq
      have hone : (1 : Int32).toInt = 1 := by decide
      have := Option.some.inj heq
      omega
    · exact fun heq => by cases heq
  · refine ⟨_, Or.inr rfl, ?_⟩
    split_ifs with hd
    · intro heq
      have hlt := (ngxAtoi value).toInt32.toInt_lt
      have := Option.some.inj heq
      exact h ⟨hd.1, hd.2, by omega⟩
    · exact fun heq => by cases heq

/-- The first item of an index of level 0, where the root is the leaf. -/
theorem runSets_single (op : SetItem) : ∃ s, runSets ⟨0⟩ (initCoreData 1 Nat.one_pos) [op] = .ok s ∧ s.pMapRoot = 0 ∧
    (∃ m, s.mapNodes[0]? = some m ∧ m.iItemCount = 1 ∧ m.iLevel = 0 ∧ m.pDataNode = some 0) ∧
    ∃ n, s.dataNodes[0]? = some n ∧ n.data = op.item ∧ n.next = none := by
  obtain ⟨s1, hs1, hadd⟩ := (inv_init ⟨0⟩ 1 Nat.one_pos).sound.createItem_ok ⟨0⟩ op
  have hset : applySet ⟨0⟩ (initCoreData 1 Nat.one_pos) op = .ok (s1.setTime 0 op.now) := by
    simp only [applySet, setdataloc, getdatanode, initCoreData, smGetPtrvalue_smNew]
    exact hs1
  have hlink : s1 = (((initCoreData 1 Nat.one_pos).withItem op).bump 0).link 0 none 0 := by
    cases hadd with
    | leaf hm _ =>
        cases hm
        rfl
    | out hm hL _ =>
        cases hm
        exact absurd hL (by decide)
    | down hm hL _ _ _ _ _ _ _ _ =>
        cases hm
        exact absurd hL (by decide)
  refine ⟨s1.setTime 0 op.now, ?_, ?_⟩
  · rw [runSets, Library.run_cons hset]
    rfl
  · rw [hlink]
    exact ⟨rfl, ⟨_, rfl, rfl, rfl, rfl⟩, _, rfl, rfl, rfl⟩

/-- A query whose tests the single item passes reports it. -/
theorem exists_reported (op : SetItem) (hq : lookaroundArgs getRect r = some q) (hget : r.isGet = true)
    (hpass : passes q.rc q.iStatus q.iType op.item = true) :
    ∃ s, runSets ⟨0⟩ (initCoreData 1 Nat.one_pos) [op] = .ok s ∧ s.item 0 = some op.item ∧
      Reports getRect ⟨0⟩ s r 0 := by
  obtain ⟨s, hrun, hptr, ⟨m, hm, hone, hlev, hhead⟩, n, hn, hdata, hnext⟩ := runSets_single op
  have hitem : s.item 0 = some op.item := by rw [item_of_getElem? hn, hdata]
  refine ⟨s, hrun, hitem, hget, q, 3, emit ⟨0, [], []⟩ 0 op.item, hq, ?_, by simp [emit]⟩
  have hcount := iCount_pos hq
  simp only [aroundItems, hptr, getAroundData, mapAt_ok hm, bind, Except.bind, hone, hlev, hhead, leafLoop, dataAt_ok hn,
    hdata, hnext, hpass, if_true]
  rw [if_neg (by decide), if_pos (le_refl _), if_pos hcount, ite_self]

/-- The record with the given field, and what passes the other filter of the query in the other field. -/
def FilterArg.record (a : FilterArg) (q : QueryArgs) (x : Int32) (loc : Nla2dloc) : SetItem where
  id := ⟨[97], CStr.noNul_a⟩
  loc := loc
  iStatus := if a = .status then x else q.iStatus
  iType := if a = .type then x else q.iType
  now := 0

theorem FilterArg.field_record (a : FilterArg) (q : QueryArgs) (x : Int32) (loc : Nla2dloc) :
    a.field (a.record q x loc).item = x := by
  cases a with
  | status => rfl
  | type => rfl

theorem FilterArg.passes_record {a : FilterArg} {q : QueryArgs} {x : Int32} {loc : Nla2dloc}
    (hx : a.filter q = invalidFilter ∨ a.filter q = x) (hin : isLocInRC q.rc loc = true) :
    passes q.rc q.iStatus q.iType (a.record q x loc).item = true := by
  cases a with
  | status => exact passes_iff.mpr ⟨Or.inr rfl, hx, hin⟩
  | type => exact passes_iff.mpr ⟨hx, Or.inr rfl, hin⟩

/-- **Which filter arguments are applied.** For every request with a status or a type argument, it is refused or reports
only items with the number the argument denotes, in every state and under every level, exactly when `FilterSafe` says so.
Elsewhere a single `setdataloc` leads to a state in which it reports another item. -/
theorem filterApplied_iff (getRect : Nla2dloc → Int64 → NlaRect) (r : Request) (a : FilterArg)
    {value : Bytes} (harg : ngxHttpArg r.args a.name = some value) :
    ((∀ conf s, FilterApplied getRect conf s r a value) ↔ FilterSafe getRect r value) ∧
      (¬ FilterSafe getRect r value → ∃ op s,
        runSets ⟨0⟩ (initCoreData 1 Nat.one_pos) [op] = .ok s ∧ ¬ FilterApplied getRect ⟨0⟩ s r a value) := by
  have hfails : ¬ FilterSafe getRect r value → ∃ op s,
      runSets ⟨0⟩ (initCoreData 1 Nat.one_pos) [op] = .ok s ∧
        ¬ FilterApplied getRect ⟨0⟩ s r a value := by
    intro hunsafe
    unfold FilterSafe at hunsafe
    push Not at hunsafe
    obtain ⟨hvalue, hget, q, hq, loc, hloc⟩ := hunsafe
    obtain ⟨x, hx, hwrong⟩ := exists_wrong_field fun h => absurd h.2.2 (not_lt.mpr (hvalue h.1 h.2.1))
    rw [← filter_eq harg hq] at hx
    have hin : isLocInRC q.rc loc = true := by simpa using hloc
    obtain ⟨s, hrun, hitem, hrep⟩ := exists_reported (a.record q x loc) hq (by simpa using hget)
      (FilterArg.passes_record hx hin)
    refine ⟨_, s, hrun, fun happ => ?_⟩
    rcases happ with hbad | hall
    · exact lookaround_badRequest hq (hbad 0)
    · obtain ⟨data, hdata, hnum⟩ := hall 0 hrep
      obtain rfl := Option.some.inj (hitem.symm.trans hdata)
      rw [a.field_record] at hnum
      exact hwrong hnum
  refine ⟨⟨fun hall => ?_, fun hsafe conf s => hsafe.applied harg conf s⟩, hfails⟩
  by_contra hunsafe
  obtain ⟨op, s, -, hnot⟩ := hfails hunsafe
  exact hnot (hall ⟨0⟩ s)

theorem filterApplied_three : FilterSafe searchRect (getRequest "lat=5&lon=5&radius=1&status=3") (ascii "3") ∧
    ∀ conf s, FilterApplied searchRect conf s (getRequest "lat=5&lon=5&radius=1&status=3") .status (ascii "3") := by
  have harg : ngxHttpArg (getRequest "lat=5&lon=5&radius=1&status=3").args FilterArg.status.name = some (ascii "3") := by
    decide
  have hsafe : FilterSafe searchRect (getRequest "lat=5&lon=5&radius=1&status=3") (ascii "3") := Or.inl (by decide)
  exact ⟨hsafe, (filterApplied_iff searchRect _ .status harg).1.mpr hsafe⟩

/-- A status that is no number lets every item through. -/
theorem status_no_number : ∃ s, runSets ⟨0⟩ (initCoreData 1 Nat.one_pos) [setA 5000000 5000000] = .ok s ∧
    ngxHttpArg (getRequest "lat=5&lon=5&radius=1&status=abc").args (ascii "status") = some (ascii "abc") ∧
    ¬ FilterApplied searchRect ⟨0⟩ s (getRequest "lat=5&lon=5&radius=1&status=abc") .status (ascii "abc") := by
  have hq : lookaroundArgs searchRect (getRequest "lat=5&lon=5&radius=1&status=abc") =
      some { rc := searchRect ⟨5000000, 5000000⟩ 1000000, iStatus := -1, iType := -1, iCount := 50 } := rfl
  have hone : ((1000000 : Int64).toInt : ℝ) / degFixpointBase = 1 := by
    have : (1000000 : Int64).toInt = 1000000 := by decide
    rw [this, degFixpointBase]
    norm_num
  have hcenter : isLocInRC (searchRect ⟨5000000, 5000000⟩ 1000000) ⟨5000000, 5000000⟩ = true := by
    rw [searchRect, hone]
    exact (getRectFromLocRadius_center (by norm_num) (by norm_num) (by decide)).2
  obtain ⟨s, hrun, hitem, hrep⟩ := exists_reported (setA 5000000 5000000) hq rfl
    (passes_iff.mpr ⟨Or.inl rfl, Or.inl rfl, hcenter⟩)
  refine ⟨s, hrun, by decide, fun happ => ?_⟩
  rcases happ with hbad | hall
  · exact lookaround_badRequest hq (hbad 0)
  · obtain ⟨data, -, hnum⟩ := hall 0 hrep
    cases hnum

end Lookaround
