import Mathlib.Data.Fintype.Basic
import Mathlib.Tactic.FinCases

/-!
# Locations and rectangles (`ngx_http_lookaround_map.c`)

Coordinates are 32-bit integers in millionths of a degree; rectangles are half open, from `lt` to `rb`.

* `getRCCenter`, `isLocInRC`, `intersectRc`, `initRootRect`, `getChildRcIdx` : the source's functions;
* `childRect` : the quadrant rectangle of `create_child_mapnode`;
* `NlaRect.Ok` : ordered and inside the root rectangle; the quadrants of such a rectangle are again such rectangles
  (`ok_childRect`), they cover it (`isLocInRC_childRect_iff`) and they are disjoint (`childRect_disjoint`);
* `mem_intersectRc` : clipping loses no location.
-/

namespace Lookaround

/-- `NLADeg`: millionths of a degree. -/
abbrev NLADeg := Int32

/-- `nla_2dloc`. -/
structure Nla2dloc where
  lat : NLADeg
  lon : NLADeg
  deriving DecidableEq

/-- `nla_rect`: left top and right bottom corner. -/
structure NlaRect where
  lt : Nla2dloc
  rb : Nla2dloc
  deriving DecidableEq

/-- `NLA_MAX_LON` and its companions. -/
def maxLon : NLADeg := 180000000
def minLon : NLADeg := -180000000
def maxLat : NLADeg := 90000000
def minLat : NLADeg := -90000000

/-- `fn_loc_GetRCCenter`: 32-bit sum, then division truncated towards zero. -/
def getRCCenter (rc : NlaRect) : Nla2dloc where
  lat := (rc.lt.lat + rc.rb.lat) / 2
  lon := (rc.lt.lon + rc.rb.lon) / 2

/-- `fn_b_IsLocInRC`. -/
def isLocInRC (rc : NlaRect) (loc : Nla2dloc) : Bool :=
  loc.lat ≥ rc.lt.lat && loc.lat < rc.rb.lat && loc.lon ≥ rc.lt.lon && loc.lon < rc.rb.lon

/-- `fn_b_IntersectRc`: `none` for `FALSE`, the new rectangle for `TRUE`. -/
def intersectRc (rc1 rc2 : NlaRect) : Option NlaRect :=
  if rc1.lt.lat ≥ rc2.rb.lat || rc1.rb.lat ≤ rc2.lt.lat || rc1.rb.lon ≤ rc2.lt.lon || rc1.lt.lon ≥ rc2.rb.lon then
    none
  else
    some
      { lt :=
          { lat := if rc1.lt.lat > rc2.lt.lat then rc1.lt.lat else rc2.lt.lat
            lon := if rc1.lt.lon > rc2.lt.lon then rc1.lt.lon else rc2.lt.lon }
        rb :=
          { lat := if rc1.rb.lat < rc2.rb.lat then rc1.rb.lat else rc2.rb.lat
            lon := if rc1.rb.lon < rc2.rb.lon then rc1.rb.lon else rc2.rb.lon } }

/-- `fn_v_InitRootRect`. -/
def initRootRect : NlaRect where
  lt := { lat := minLat, lon := minLon }
  rb := { lat := maxLat, lon := maxLon }

/-- `NLA_MAP_CHILD_COUNT` is 4: the numerals of `Fin 4` are numbers of children. -/
instance (priority := high) neZeroChildCount : @NeZero Nat Zero.ofOfNat0 4 := ⟨by decide⟩

/-- The child numbers `NLA_MAP_CHILD_LT`, `_RT`, `_LB`, `_RB`. -/
def childLT : Fin 4 := 0
def childRT : Fin 4 := 1
def childLB : Fin 4 := 2
def childRB : Fin 4 := 3

/-- `fn_i_GetChildRcIdx`: `none` for `-1`. -/
def getChildRcIdx (rc : NlaRect) (loc : Nla2dloc) : Option (Fin 4) :=
  if !isLocInRC rc loc then none
  else
    let center := getRCCenter rc
    if loc.lat ≥ center.lat then
      if loc.lon ≥ center.lon then some childRB else some childLB
    else
      if loc.lon ≥ center.lon then some childRT else some childLT

/-- The rectangle `create_child_mapnode` gives child `i`. -/
def childRect (rc : NlaRect) (i : Fin 4) : NlaRect :=
  let center := getRCCenter rc
  if i = childLT then { lt := rc.lt, rb := center }
  else if i = childRT then
    { lt := { lat := rc.lt.lat, lon := center.lon }, rb := { lat := center.lat, lon := rc.rb.lon } }
  else if i = childLB then
    { lt := { lat := center.lat, lon := rc.lt.lon }, rb := { lat := rc.rb.lat, lon := center.lon } }
  else { lt := center, rb := rc.rb }

/-! ## Integers -/

theorem isLocInRC_iff {rc : NlaRect} {loc : Nla2dloc} : isLocInRC rc loc = true ↔
    rc.lt.lat.toInt ≤ loc.lat.toInt ∧ loc.lat.toInt < rc.rb.lat.toInt ∧
      rc.lt.lon.toInt ≤ loc.lon.toInt ∧ loc.lon.toInt < rc.rb.lon.toInt := by
  simp [isLocInRC, Int32.le_iff_toInt_le, Int32.lt_iff_toInt_lt, and_assoc]

theorem isLocInRC_initRootRect {loc : Nla2dloc} : isLocInRC initRootRect loc = true ↔
    -90000000 ≤ loc.lat.toInt ∧ loc.lat.toInt < 90000000 ∧
      -180000000 ≤ loc.lon.toInt ∧ loc.lon.toInt < 180000000 := by
  have e1 : initRootRect.lt.lat.toInt = -90000000 := by decide
  have e2 : initRootRect.rb.lat.toInt = 90000000 := by decide
  have e3 : initRootRect.lt.lon.toInt = -180000000 := by decide
  have e4 : initRootRect.rb.lon.toInt = 180000000 := by decide
  rw [isLocInRC_iff, e1, e2, e3, e4]

/-- A rectangle with ordered corners inside the root rectangle. -/
structure NlaRect.Ok (rc : NlaRect) : Prop where
  minLat_le : -90000000 ≤ rc.lt.lat.toInt
  lat_le : rc.lt.lat.toInt ≤ rc.rb.lat.toInt
  le_maxLat : rc.rb.lat.toInt ≤ 90000000
  minLon_le : -180000000 ≤ rc.lt.lon.toInt
  lon_le : rc.lt.lon.toInt ≤ rc.rb.lon.toInt
  le_maxLon : rc.rb.lon.toInt ≤ 180000000

theorem ok_initRootRect : initRootRect.Ok := by
  constructor <;> decide

/-- Halving the sum of two coordinates of the map: no overflow, and the quotient is between them. -/
theorem toInt_half {a b : NLADeg} (hab : a.toInt ≤ b.toInt) (ha : -180000000 ≤ a.toInt) (hb : b.toInt ≤ 180000000) :
    a.toInt ≤ ((a + b) / 2).toInt ∧ ((a + b) / 2).toInt ≤ b.toInt := by
  have hsum : (a + b).toInt = a.toInt + b.toInt := by
    rw [Int32.toInt_add]
    exact Int.bmod_eq_of_le (by omega) (by omega)
  have htwo : (2 : Int32).toInt = 2 := by decide
  have htdiv : a.toInt ≤ (a.toInt + b.toInt).tdiv 2 ∧ (a.toInt + b.toInt).tdiv 2 ≤ b.toInt := by
    rw [Int.tdiv_eq_ediv, show Int.sign 2 = 1 from rfl]
    split_ifs <;> omega
  have hdiv : ((a + b) / 2).toInt = (a.toInt + b.toInt).tdiv 2 := by
    rw [Int32.toInt_div, hsum, htwo]
    exact Int.bmod_eq_of_le (by omega) (by omega)
  rw [hdiv]
  exact htdiv

theorem NlaRect.Ok.center {rc : NlaRect} (h : rc.Ok) :
    rc.lt.lat.toInt ≤ (getRCCenter rc).lat.toInt ∧ (getRCCenter rc).lat.toInt ≤ rc.rb.lat.toInt ∧
      rc.lt.lon.toInt ≤ (getRCCenter rc).lon.toInt ∧ (getRCCenter rc).lon.toInt ≤ rc.rb.lon.toInt := by
  obtain ⟨h1, h2⟩ := toInt_half h.lat_le (by have := h.minLat_le; omega) (by have := h.le_maxLat; omega)
  obtain ⟨h3, h4⟩ := toInt_half h.lon_le h.minLon_le h.le_maxLon
  exact ⟨h1, h2, h3, h4⟩

/-! ## Quadrants -/

theorem ok_childRect {rc : NlaRect} (h : rc.Ok) (i : Fin 4) : (childRect rc i).Ok := by
  obtain ⟨h1, h2, h3, h4⟩ := h.center
  obtain ⟨g1, g2, g3, g4, g5, g6⟩ := h
  fin_cases i <;> constructor <;> simp [childRect, childLT, childRT, childLB] <;> omega

/-- A location of the rectangle is in exactly the quadrant `getChildRcIdx` answers. -/
theorem isLocInRC_childRect_iff {rc : NlaRect} (h : rc.Ok) (loc : Nla2dloc) (i : Fin 4) :
    isLocInRC (childRect rc i) loc = true ↔ getChildRcIdx rc loc = some i := by
  obtain ⟨h1, h2, h3, h4⟩ := h.center
  rw [isLocInRC_iff]
  unfold getChildRcIdx
  by_cases hin : isLocInRC rc loc = true
  · rw [hin, Bool.not_true, if_neg (by decide)]
    rw [isLocInRC_iff] at hin
    simp only [ge_iff_le, Int32.le_iff_toInt_le]
    fin_cases i <;> simp [childRect, childLT, childRT, childLB, childRB] <;> split_ifs <;> simp <;> omega
  · rw [Bool.not_eq_true] at hin
    rw [hin, Bool.not_false, if_pos rfl]
    rw [← Bool.not_eq_true, isLocInRC_iff] at hin
    fin_cases i <;> simp [childRect, childLT, childRT, childLB] <;> omega

theorem childRect_disjoint {rc : NlaRect} (h : rc.Ok) {loc : Nla2dloc} {i j : Fin 4}
    (hi : isLocInRC (childRect rc i) loc = true) (hj : isLocInRC (childRect rc j) loc = true) : i = j := by
  rw [isLocInRC_childRect_iff h] at hi hj
  rw [hi] at hj
  exact Option.some.inj hj

theorem isLocInRC_of_childRect {rc : NlaRect} (h : rc.Ok) {loc : Nla2dloc} {i : Fin 4}
    (hi : isLocInRC (childRect rc i) loc = true) : isLocInRC rc loc = true := by
  rw [isLocInRC_childRect_iff h] at hi
  unfold getChildRcIdx at hi
  by_contra hn
  rw [Bool.not_eq_true] at hn
  rw [hn] at hi
  cases hi

/-- `getChildRcIdx` answers `-1` only outside the rectangle. -/
theorem getChildRcIdx_eq_none_iff {rc : NlaRect} {loc : Nla2dloc} :
    getChildRcIdx rc loc = none ↔ isLocInRC rc loc = false := by
  unfold getChildRcIdx
  cases isLocInRC rc loc with
  | false => simp
  | true =>
      simp only [Bool.not_true, Bool.false_eq_true, if_false, Bool.true_eq_false, iff_false]
      split_ifs <;> exact not_false

theorem exists_getChildRcIdx {rc : NlaRect} {loc : Nla2dloc} (h : isLocInRC rc loc = true) :
    ∃ i, getChildRcIdx rc loc = some i := by
  apply Option.ne_none_iff_exists'.mp
  rw [Ne, getChildRcIdx_eq_none_iff, h]
  decide

theorem isLocInRC_root_of_ok {rc : NlaRect} (h : rc.Ok) {loc : Nla2dloc} (hl : isLocInRC rc loc = true) :
    isLocInRC initRootRect loc = true := by
  obtain ⟨g1, g2, g3, g4, g5, g6⟩ := h
  rw [isLocInRC_iff] at hl
  rw [isLocInRC_initRootRect]
  omega

/-! ## Clipping -/

/-- A location is in the clipped rectangle exactly when it is in both; without a clipped rectangle it is in none. -/
theorem mem_intersectRc (rc1 rc2 : NlaRect) (loc : Nla2dloc) :
    (∃ rc, intersectRc rc1 rc2 = some rc ∧ isLocInRC rc loc = true) ↔
      isLocInRC rc1 loc = true ∧ isLocInRC rc2 loc = true := by
  unfold intersectRc
  simp only [ge_iff_le, gt_iff_lt, Bool.or_eq_true, decide_eq_true_eq, Int32.le_iff_toInt_le, Int32.lt_iff_toInt_lt,
    isLocInRC_iff]
  split_ifs <;> simp <;> omega

end Lookaround
