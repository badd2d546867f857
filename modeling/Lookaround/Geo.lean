import Lookaround.Rect
import Mathlib.Analysis.Real.Pi.Bounds
import Mathlib.Analysis.Real.Pi.Irrational
import Mathlib.Analysis.SpecialFunctions.Trigonometric.Bounds

/-!
# Distances and search rectangles (`ngx_http_lookaround_map.c`)

`double` is read as the real numbers, and the cast to `NLADeg` as truncation.

* `getDistance`, `limitAdd`, `getRectFromLocRadius` : the source's functions;
* `cosDeg`, `cosRad` : the cosine of a latitude in degrees, which `getDistance` takes, and that of the same number taken
  as radians, which `getRectFromLocRadius` takes;
* `Within loc r n` : what the longitude offset of the rectangle is at least;
* `getRectFromLocRadius_parallel` : which locations of the parallel the rectangle has;
* `rect_agrees_iff` : when the rectangle agrees with the distance, and `rect_agrees_equator`, that it does there;
* `band` : the interval of the rectangle in one coordinate; `bands_agree_iff` : when it is the exact one and grows with
  the offset.
-/

namespace Lookaround

/-- `NLA_PI`, `NLA_EARTH_RADIUS`, `NLA_LAT_DIST_FACTOR` and `NLA_DEG_FIXPOINT_BASE_FLOAT`. -/
noncomputable def nlaPi : ℝ := 3.1415926535897932384626433832795
noncomputable def earthRadius : ℝ := 6371.229
noncomputable def latDistFactor : ℝ := 8993
noncomputable def degFixpointBase : ℝ := 1000000

/-- The cast of a `double` to `NLADeg`. -/
noncomputable def toDeg (x : ℝ) : NLADeg := Int32.ofInt (if 0 ≤ x then ⌊x⌋ else ⌈x⌉)

/-- `fn_x_LimitAdd`. -/
def limitAdd (deg dadd dmax dmin : NLADeg) : NLADeg :=
  let dNew := deg + dadd
  if dNew > dmax then dmax else if dNew < dmin then dmin else dNew

/-- `fn_d_GetDistance`. -/
noncomputable def getDistance (loc1 loc2 : Nla2dloc) : ℝ :=
  let x := (loc2.lon - loc1.lon).toInt / degFixpointBase * nlaPi * earthRadius *
    Real.cos ((loc1.lat + loc2.lat).toInt / degFixpointBase / 2 * nlaPi / 180) / 180
  let y := (loc2.lat - loc1.lat).toInt / degFixpointBase * nlaPi * earthRadius / 180
  Real.sqrt (x ^ 2 + y ^ 2)

/-- `fn_v_GetRectFromLocRadius`. -/
noncomputable def getRectFromLocRadius (loc : Nla2dloc) (dRadius : ℝ) : NlaRect :=
  let latOff := toDeg (latDistFactor * dRadius)
  let dr := earthRadius * Real.cos (loc.lat.toInt / degFixpointBase)
  let drmax := dr * nlaPi
  let dRadius := if drmax ≤ dRadius then drmax else dRadius
  let lonOff := toDeg (dRadius / dr * degFixpointBase * 180 / nlaPi)
  { lt := { lat := limitAdd loc.lat (-latOff) maxLat minLat, lon := limitAdd loc.lon (-lonOff) maxLon minLon }
    rb := { lat := limitAdd loc.lat latOff maxLat minLat, lon := limitAdd loc.lon lonOff maxLon minLon } }

/-! ## Offsets -/

theorem nlaPi_pos : 0 < nlaPi := by norm_num [nlaPi]

theorem earthRadius_pos : 0 < earthRadius := by norm_num [earthRadius]

theorem toInt_toDeg {x : ℝ} (h0 : 0 ≤ x) (hx : x ≤ 180000000) :
    (toDeg x).toInt = ⌊x⌋ ∧ 0 ≤ ⌊x⌋ ∧ ⌊x⌋ ≤ 180000000 := by
  have h1 : 0 ≤ ⌊x⌋ := Int.floor_nonneg.mpr h0
  have h2 : ⌊x⌋ ≤ 180000000 := by
    have hle : (⌊x⌋ : ℝ) ≤ 180000000 := (Int.floor_le x).trans hx
    exact_mod_cast hle
  refine ⟨?_, h1, h2⟩
  rw [toDeg, if_pos h0]
  exact Int32.toInt_ofInt_of_le (by omega) (by omega)

/-- `limitAdd` of numbers whose sum does not wrap is a clamp. -/
theorem toInt_limitAdd {deg dadd dmax dmin : NLADeg} (h1 : -2 ^ 31 ≤ deg.toInt + dadd.toInt)
    (h2 : deg.toInt + dadd.toInt < 2 ^ 31) (hle : dmin.toInt ≤ dmax.toInt) :
    (limitAdd deg dadd dmax dmin).toInt = max dmin.toInt (min dmax.toInt (deg.toInt + dadd.toInt)) := by
  have hsum : (deg + dadd).toInt = deg.toInt + dadd.toInt := by
    rw [Int32.toInt_add]
    exact Int.bmod_eq_of_le (by omega) (by omega)
  unfold limitAdd
  simp only [gt_iff_lt, Int32.lt_iff_toInt_lt, hsum]
  split_ifs <;> omega

/-- The cosine of the latitude, in degrees; and of the same number as radians. -/
noncomputable def cosDeg (loc : Nla2dloc) : ℝ := Real.cos (loc.lat.toInt / degFixpointBase * nlaPi / 180)
noncomputable def cosRad (loc : Nla2dloc) : ℝ := Real.cos (loc.lat.toInt / degFixpointBase)

/-- Millionths of a degree per kilometre on the equator. -/
noncomputable def unitsPerKm : ℝ := 180000000 / (nlaPi * earthRadius)

theorem unitsPerKm_bounds : 8992 < unitsPerKm ∧ unitsPerKm < 8993.1 := by
  constructor <;> norm_num [unitsPerKm, nlaPi, earthRadius]

/-- A rational number of radians is no zero of the cosine. -/
theorem cosRad_ne_zero (loc : Nla2dloc) : cosRad loc ≠ 0 := by
  intro h0
  rw [cosRad, Real.cos_eq_zero_iff] at h0
  obtain ⟨j, hj⟩ := h0
  have hodd : ((2 * j + 1 : ℤ) : ℝ) ≠ 0 := by
    have : (2 * j + 1 : ℤ) ≠ 0 := by omega
    exact_mod_cast this
  have hpi : Real.pi = ((2 * (loc.lat.toInt / 1000000) / ((2 * j + 1 : ℤ) : ℚ) : ℚ) : ℝ) := by
    push_cast at hodd ⊢
    rw [degFixpointBase] at hj
    field_simp at hj ⊢
    linarith
  exact irrational_pi ⟨_, hpi.symm⟩

/-- `n` millionths of a degree of longitude, on the parallel of a latitude taken as radians, are at most 180 degrees and
at most the radius. -/
def Within (loc : Nla2dloc) (r : ℝ) (n : ℤ) : Prop := n ≤ 180000000 ∧ n * cosRad loc ≤ unitsPerKm * r

/-- The longitude offset, before the cast. -/
noncomputable def lonOffset (loc : Nla2dloc) (r : ℝ) : ℝ :=
  let dr := earthRadius * Real.cos (loc.lat.toInt / degFixpointBase)
  (if dr * nlaPi ≤ r then dr * nlaPi else r) / dr * degFixpointBase * 180 / nlaPi

section Offset

variable {loc : Nla2dloc} {r : ℝ}

/-- The offset is 180 degrees where the radius goes around the parallel, also when the cosine is negative, and what the
radius spans on the parallel elsewhere. -/
theorem lonOffset_eq (loc : Nla2dloc) (hr : 0 ≤ r) :
    (180000000 * cosRad loc ≤ unitsPerKm * r ∧ lonOffset loc r = 180000000) ∨
      (0 < cosRad loc ∧ unitsPerKm * r < 180000000 * cosRad loc ∧
        lonOffset loc r = unitsPerKm * r / cosRad loc) := by
  have hpi := nlaPi_pos
  have hR := earthRadius_pos
  have hc := cosRad_ne_zero loc
  have hcut : earthRadius * cosRad loc * nlaPi ≤ r ↔ 180000000 * cosRad loc ≤ unitsPerKm * r := by
    rw [unitsPerKm, div_mul_eq_mul_div, le_div_iff₀ (by positivity)]
    constructor <;> intro h <;> nlinarith
  unfold lonOffset
  simp only [← cosRad.eq_1]
  by_cases hcase : earthRadius * cosRad loc * nlaPi ≤ r
  · left
    refine ⟨hcut.mp hcase, ?_⟩
    rw [if_pos hcase, degFixpointBase]
    field_simp
    norm_num
  · right
    have hlt : unitsPerKm * r < 180000000 * cosRad loc := not_le.mp fun h => hcase (hcut.mpr h)
    have hk := unitsPerKm_bounds.1
    have hpos : 0 < cosRad loc := by
      have : 0 ≤ unitsPerKm * r := mul_nonneg (by linarith) hr
      nlinarith
    refine ⟨hpos, hlt, ?_⟩
    rw [if_neg hcase, degFixpointBase, unitsPerKm]
    field_simp
    ring

theorem lonOffset_bounds (loc : Nla2dloc) (hr : 0 ≤ r) : 0 ≤ lonOffset loc r ∧ lonOffset loc r ≤ 180000000 := by
  have hk := unitsPerKm_bounds.1
  rcases lonOffset_eq loc hr with ⟨-, h⟩ | ⟨hc, hlt, h⟩
  · rw [h]
    norm_num
  · rw [h, div_le_iff₀ hc]
    exact ⟨div_nonneg (mul_nonneg (by linarith) hr) hc.le, hlt.le⟩

/-- How far the offset goes. -/
theorem le_floor_lonOffset {n : ℤ} (hr : 0 ≤ r) (hn : 0 ≤ n) : n ≤ ⌊lonOffset loc r⌋ ↔ Within loc r n := by
  have hn0 : (0 : ℝ) ≤ n := by exact_mod_cast hn
  have hk := unitsPerKm_bounds.1
  have hkr : 0 ≤ unitsPerKm * r := mul_nonneg (by linarith) hr
  rw [Int.le_floor, Within]
  rcases lonOffset_eq loc hr with ⟨hle, h⟩ | ⟨hc, hlt, h⟩
  · rw [h]
    constructor
    · intro hW
      refine ⟨by exact_mod_cast hW, ?_⟩
      rcases le_total 0 (cosRad loc) with hc | hc
      · exact (mul_le_mul_of_nonneg_right hW hc).trans hle
      · exact (mul_nonpos_of_nonneg_of_nonpos hn0 hc).trans hkr
    · intro hW
      exact_mod_cast hW.1
  · rw [h, le_div_iff₀ hc]
    refine ⟨fun hW => ⟨?_, hW⟩, fun hW => hW.2⟩
    have hlt' : (n : ℝ) * cosRad loc < 180000000 * cosRad loc := lt_of_le_of_lt hW hlt
    have : (n : ℝ) < 180000000 := lt_of_mul_lt_mul_right hlt' hc.le
    have : (n : ℝ) ≤ ((180000000 : ℤ) : ℝ) := by
      push_cast
      exact this.le
    exact_mod_cast this

end Offset

/-! ## The rectangle -/

/-- The bounds of a search rectangle, for a location of the map and a radius of the map. -/
theorem getRectFromLocRadius_bounds {loc : Nla2dloc} {r : ℝ} (h0 : 0 ≤ r) (hr : r ≤ 20000)
    (hloc : isLocInRC initRootRect loc = true) :
    (getRectFromLocRadius loc r).lt.lat.toInt = max (-90000000) (loc.lat.toInt - ⌊8993 * r⌋) ∧
      (getRectFromLocRadius loc r).rb.lat.toInt = min 90000000 (loc.lat.toInt + ⌊8993 * r⌋) ∧
      (getRectFromLocRadius loc r).lt.lon.toInt = max (-180000000) (loc.lon.toInt - ⌊lonOffset loc r⌋) ∧
      (getRectFromLocRadius loc r).rb.lon.toInt = min 180000000 (loc.lon.toInt + ⌊lonOffset loc r⌋) := by
  rw [isLocInRC_initRootRect] at hloc
  have m1 : maxLat.toInt = 90000000 := by decide
  have m2 : minLat.toInt = -90000000 := by decide
  have m3 : maxLon.toInt = 180000000 := by decide
  have m4 : minLon.toInt = -180000000 := by decide
  have hlat := toInt_toDeg (x := latDistFactor * r) (by rw [latDistFactor]; linarith) (by rw [latDistFactor]; linarith)
  have hlon := toInt_toDeg (lonOffset_bounds loc h0).1 (lonOffset_bounds loc h0).2
  rw [latDistFactor] at hlat
  have hneg : ∀ {o : NLADeg} {n : ℤ}, o.toInt = n ∧ 0 ≤ n ∧ n ≤ 180000000 → (-o).toInt = -n := by
    rintro o n ⟨ho, h1, h2⟩
    rw [Int32.toInt_neg, ho]
    exact Int.bmod_eq_of_le (by omega) (by omega)
  have hnlat := hneg hlat
  have hnlon := hneg hlon
  have hlatdef : toDeg (latDistFactor * r) = toDeg (8993 * r) := by rw [latDistFactor]
  obtain ⟨hl1, hl2, hl3⟩ := hlat
  obtain ⟨ho1, ho2, ho3⟩ := hlon
  refine ⟨?_, ?_, ?_, ?_⟩
  · change (limitAdd loc.lat (-toDeg (latDistFactor * r)) maxLat minLat).toInt = _
    rw [hlatdef, toInt_limitAdd (by omega) (by omega) (by omega), hnlat]
    omega
  · change (limitAdd loc.lat (toDeg (latDistFactor * r)) maxLat minLat).toInt = _
    rw [hlatdef, toInt_limitAdd (by omega) (by omega) (by omega), hl1]
    omega
  · change (limitAdd loc.lon (-toDeg (lonOffset loc r)) maxLon minLon).toInt = _
    rw [toInt_limitAdd (by omega) (by omega) (by omega), hnlon]
    omega
  · change (limitAdd loc.lon (toDeg (lonOffset loc r)) maxLon minLon).toInt = _
    rw [toInt_limitAdd (by omega) (by omega) (by omega), ho1]
    omega

/-- A search rectangle of at least a metre lies in the root rectangle and has its center, whatever the sign of the cosine
and however close the edge of the map is. -/
theorem getRectFromLocRadius_center {loc : Nla2dloc} {r : ℝ} (h0 : 0.001 ≤ r) (hr : r ≤ 20000)
    (hloc : isLocInRC initRootRect loc = true) :
    (getRectFromLocRadius loc r).Ok ∧ isLocInRC (getRectFromLocRadius loc r) loc = true := by
  have hpos : 0 ≤ r := le_trans (by norm_num) h0
  obtain ⟨b1, b2, b3, b4⟩ := getRectFromLocRadius_bounds hpos hr hloc
  have hlat : 1 ≤ ⌊8993 * r⌋ := by
    rw [Int.le_floor]
    push_cast
    linarith
  have hlon : 1 ≤ ⌊lonOffset loc r⌋ := by
    rw [le_floor_lonOffset hpos (by norm_num)]
    have hcos : cosRad loc ≤ 1 := Real.cos_le_one _
    have hk := unitsPerKm_bounds.1
    refine ⟨by norm_num, ?_⟩
    push_cast
    nlinarith
  rw [isLocInRC_initRootRect] at hloc
  constructor
  · constructor <;> omega
  · rw [isLocInRC_iff]
    omega

/-- Which locations of the center's parallel a search rectangle has: those within the longitude offset, the eastern end
left out. -/
theorem getRectFromLocRadius_parallel {loc p : Nla2dloc} {r : ℝ} (h0 : 1 ≤ r) (hr : r ≤ 20000)
    (hloc : isLocInRC initRootRect loc = true) (hp : isLocInRC initRootRect p = true) (hlat : p.lat = loc.lat) :
    isLocInRC (getRectFromLocRadius loc r) p = true ↔
      -⌊lonOffset loc r⌋ ≤ p.lon.toInt - loc.lon.toInt ∧ p.lon.toInt - loc.lon.toInt < ⌊lonOffset loc r⌋ := by
  obtain ⟨b1, b2, b3, b4⟩ := getRectFromLocRadius_bounds (by linarith) hr hloc
  have hoff : 1 ≤ ⌊8993 * r⌋ := by
    rw [Int.le_floor]
    push_cast
    linarith
  rw [isLocInRC_initRootRect] at hp
  rw [isLocInRC_iff, b1, b2, b3, b4, hlat]
  rw [hlat] at hp
  omega

/-! ## Distances on a parallel -/

theorem cosDeg_pos {loc : Nla2dloc} (h1 : -90000000 < loc.lat.toInt) (h2 : loc.lat.toInt < 90000000) :
    0 < cosDeg loc := by
  have hlo : (-89999999 : ℝ) ≤ loc.lat.toInt := by
    have : (-89999999 : ℤ) ≤ loc.lat.toInt := by omega
    exact_mod_cast this
  have hhi : (loc.lat.toInt : ℝ) ≤ 89999999 := by
    have : loc.lat.toInt ≤ 89999999 := by omega
    exact_mod_cast this
  have hpi := Real.pi_gt_d20
  apply Real.cos_pos_of_mem_Ioo
  rw [degFixpointBase, nlaPi]
  constructor <;> norm_num <;> linarith

/-- The distance along a parallel is that of the equator, times the cosine of the latitude. -/
theorem getDistance_parallel {loc p : Nla2dloc} (hloc : isLocInRC initRootRect loc = true)
    (hp : isLocInRC initRootRect p = true) (hlat : p.lat = loc.lat) (hcos : 0 < cosDeg loc) :
    getDistance loc p = ((|p.lon.toInt - loc.lon.toInt| : ℤ) : ℝ) * cosDeg loc / unitsPerKm := by
  rw [isLocInRC_initRootRect] at hloc hp
  have hsub : (p.lon - loc.lon).toInt = p.lon.toInt - loc.lon.toInt := by
    rw [Int32.toInt_sub]
    exact Int.bmod_eq_of_le (by omega) (by omega)
  have hadd : (loc.lat + p.lat).toInt = 2 * loc.lat.toInt := by
    rw [Int32.toInt_add, hlat, Int.bmod_eq_of_le (by omega) (by omega)]
    ring
  have hzero : (p.lat - loc.lat).toInt = 0 := by
    rw [hlat]
    simp
  have hangle : ((2 * loc.lat.toInt : ℤ) : ℝ) / degFixpointBase / 2 * nlaPi / 180 =
      loc.lat.toInt / degFixpointBase * nlaPi / 180 := by
    push_cast
    ring
  have hpi := nlaPi_pos
  have hR := earthRadius_pos
  unfold getDistance
  simp only [hsub, hadd, hzero, hangle, ← cosDeg.eq_1]
  rw [show ∀ x : ℝ, x ^ 2 + ((0 : ℤ) / degFixpointBase * nlaPi * earthRadius / 180) ^ 2 = x ^ 2 by
    intro x; norm_num, Real.sqrt_sq_eq_abs]
  have hval : ((p.lon.toInt - loc.lon.toInt : ℤ) : ℝ) / degFixpointBase * nlaPi * earthRadius * cosDeg loc / 180 =
      ((p.lon.toInt - loc.lon.toInt : ℤ) : ℝ) * (cosDeg loc / unitsPerKm) := by
    rw [degFixpointBase, unitsPerKm]
    field_simp
    ring
  have hk : 0 < cosDeg loc / unitsPerKm := div_pos hcos (by have := unitsPerKm_bounds.1; linarith)
  rw [hval, abs_mul, abs_of_pos hk, Int.cast_abs, mul_div_assoc]

/-- The largest longitude differences on the parallel with a distance of at most `r / 2`, and of at most `2 * r`. -/
noncomputable def nearSpan (loc : Nla2dloc) (r : ℝ) : ℤ := ⌊unitsPerKm * r / (2 * cosDeg loc)⌋
noncomputable def farSpan (loc : Nla2dloc) (r : ℝ) : ℤ := ⌊2 * unitsPerKm * r / cosDeg loc⌋

/-- How far the root rectangle goes east and west of a location. -/
def eastSpan (loc : Nla2dloc) : ℤ := 179999999 - loc.lon.toInt
def westSpan (loc : Nla2dloc) : ℤ := 180000000 + loc.lon.toInt

section Spans

variable {loc p : Nla2dloc} {r : ℝ}

theorem le_half_iff (hloc : isLocInRC initRootRect loc = true) (hp : isLocInRC initRootRect p = true)
    (hlat : p.lat = loc.lat) (hcos : 0 < cosDeg loc) :
    getDistance loc p ≤ r / 2 ↔ |p.lon.toInt - loc.lon.toInt| ≤ nearSpan loc r := by
  have hk : 0 < unitsPerKm := by have := unitsPerKm_bounds.1; linarith
  rw [getDistance_parallel hloc hp hlat hcos, nearSpan, Int.le_floor, div_le_iff₀ hk, le_div_iff₀ (by linarith)]
  constructor <;> intro h <;> linarith

theorem twice_lt_iff (hloc : isLocInRC initRootRect loc = true) (hp : isLocInRC initRootRect p = true)
    (hlat : p.lat = loc.lat) (hcos : 0 < cosDeg loc) :
    2 * r < getDistance loc p ↔ farSpan loc r < |p.lon.toInt - loc.lon.toInt| := by
  have hk : 0 < unitsPerKm := by have := unitsPerKm_bounds.1; linarith
  rw [getDistance_parallel hloc hp hlat hcos, farSpan, Int.floor_lt, lt_div_iff₀ hk, div_lt_iff₀ hcos]
  constructor <;> intro h <;> linarith

/-- An interval of differences from `-o` to below `o` has all near ones and no far one. -/
theorem span_agrees_iff {o east west near far : ℤ} (he : 0 ≤ east) (hw : 0 ≤ west) (hn : 0 ≤ near) (hf : 0 ≤ far) :
    (∀ n, -west ≤ n → n ≤ east → (|n| ≤ near → -o ≤ n ∧ n < o) ∧ (far < |n| → ¬(-o ≤ n ∧ n < o))) ↔
      min near east + 1 ≤ o ∧ min near west ≤ o ∧ (far + 1 ≤ east → ¬far + 2 ≤ o) ∧ (far + 1 ≤ west → ¬far + 1 ≤ o) := by
  constructor
  · intro h
    refine ⟨?_, ?_, fun hle hlt => ?_, fun hle hlt => ?_⟩
    · have := (h (min near east) (by omega) (by omega)).1 (by rw [abs_le]; omega)
      omega
    · have := (h (-min near west) (by omega) (by omega)).1 (by rw [abs_le]; omega)
      omega
    · exact (h (far + 1) (by omega) hle).2 (by rw [lt_abs]; omega) (by omega)
    · exact (h (-(far + 1)) (by omega) (by omega)).2 (by rw [lt_abs]; omega) (by omega)
  · rintro ⟨h1, h2, h3, h4⟩ n hlo hhi
    rw [abs_le, lt_abs]
    omega

/-- The map has a location of the parallel for every longitude difference up to its edges. -/
theorem exists_on_parallel (hloc : isLocInRC initRootRect loc = true) {n : ℤ} (hlo : -westSpan loc ≤ n)
    (hhi : n ≤ eastSpan loc) :
    ∃ p, isLocInRC initRootRect p = true ∧ p.lat = loc.lat ∧ p.lon.toInt - loc.lon.toInt = n := by
  have hb := isLocInRC_initRootRect.mp hloc
  unfold eastSpan at hhi
  unfold westSpan at hlo
  have hlon : (Int32.ofInt (loc.lon.toInt + n)).toInt = loc.lon.toInt + n :=
    Int32.toInt_ofInt_of_le (by omega) (by omega)
  refine ⟨{ loc with lon := Int32.ofInt (loc.lon.toInt + n) }, ?_, rfl, ?_⟩
  · rw [isLocInRC_initRootRect]
    simp only [hlon]
    omega
  · simp only [hlon]
    omega

end Spans

/-- When the search rectangle agrees with the distance on the center's parallel: the near longitude differences are
within the radius also for the latitude taken as radians, and the first far one, where the map has it, is not. -/
theorem rect_agrees_iff {loc : Nla2dloc} {r : ℝ} (hloc : isLocInRC initRootRect loc = true)
    (hpole : -90000000 < loc.lat.toInt) (h1 : 1 ≤ r) (h2 : r ≤ 20000) :
    (∀ p, isLocInRC initRootRect p = true → p.lat = loc.lat →
      (getDistance loc p ≤ r / 2 → isLocInRC (getRectFromLocRadius loc r) p = true) ∧
        (2 * r < getDistance loc p → isLocInRC (getRectFromLocRadius loc r) p = false)) ↔
      Within loc r (min (nearSpan loc r) (eastSpan loc) + 1) ∧ Within loc r (min (nearSpan loc r) (westSpan loc)) ∧
        (farSpan loc r + 1 ≤ eastSpan loc → ¬Within loc r (farSpan loc r + 2)) ∧
          (farSpan loc r + 1 ≤ westSpan loc → ¬Within loc r (farSpan loc r + 1)) := by
  have h0 : 0 ≤ r := by linarith
  have hb := isLocInRC_initRootRect.mp hloc
  have hcos : 0 < cosDeg loc := cosDeg_pos hpole (by omega)
  have hk : 0 < unitsPerKm := by have := unitsPerKm_bounds.1; linarith
  have hnear : 0 ≤ nearSpan loc r := Int.floor_nonneg.mpr (by positivity)
  have hfar : 0 ≤ farSpan loc r := Int.floor_nonneg.mpr (by positivity)
  have heast : 0 ≤ eastSpan loc := by unfold eastSpan; omega
  have hwest : 0 ≤ westSpan loc := by unfold westSpan; omega
  rw [← le_floor_lonOffset h0 (by omega), ← le_floor_lonOffset h0 (by omega), ← le_floor_lonOffset h0 (by omega),
    ← le_floor_lonOffset h0 (by omega), ← span_agrees_iff heast hwest hnear hfar]
  constructor
  · intro h n hlo hhi
    obtain ⟨p, hp, hlat, hdiff⟩ := exists_on_parallel hloc hlo hhi
    have hpar := getRectFromLocRadius_parallel h1 h2 hloc hp hlat
    obtain ⟨hin, hout⟩ := h p hp hlat
    rw [le_half_iff hloc hp hlat hcos, hpar, hdiff] at hin
    rw [twice_lt_iff hloc hp hlat hcos, ← Bool.not_eq_true, hpar, hdiff] at hout
    exact ⟨hin, hout⟩
  · intro h p hp hlat
    have hpb := isLocInRC_initRootRect.mp hp
    have hn := h (p.lon.toInt - loc.lon.toInt) (by unfold westSpan; omega) (by unfold eastSpan; omega)
    rw [le_half_iff hloc hp hlat hcos, twice_lt_iff hloc hp hlat hcos, ← Bool.not_eq_true,
      getRectFromLocRadius_parallel h1 h2 hloc hp hlat]
    exact hn

/-- On the equator the two units agree, and so do rectangle and distance. -/
theorem rect_agrees_equator : cosRad ⟨0, 0⟩ = cosDeg ⟨0, 0⟩ ∧
    ∀ p, isLocInRC initRootRect p = true → p.lat = 0 →
      (getDistance ⟨0, 0⟩ p ≤ 1 / 2 → isLocInRC (getRectFromLocRadius ⟨0, 0⟩ 1) p = true) ∧
        (2 * 1 < getDistance ⟨0, 0⟩ p → isLocInRC (getRectFromLocRadius ⟨0, 0⟩ 1) p = false) := by
  have hrad : cosRad ⟨0, 0⟩ = 1 := by simp [cosRad]
  have hdeg : cosDeg ⟨0, 0⟩ = 1 := by simp [cosDeg]
  obtain ⟨hk1, hk2⟩ := unitsPerKm_bounds
  have hnear : nearSpan ⟨0, 0⟩ 1 = 4496 := by
    rw [nearSpan, hdeg, Int.floor_eq_iff]
    constructor <;> push_cast <;> linarith
  have hfar : 17984 ≤ farSpan ⟨0, 0⟩ 1 := by
    rw [farSpan, hdeg, Int.le_floor]
    push_cast
    linarith
  have hfar' : (17984 : ℝ) ≤ farSpan ⟨0, 0⟩ 1 := by exact_mod_cast hfar
  have he : eastSpan ⟨0, 0⟩ = 179999999 := by decide
  have hw : westSpan ⟨0, 0⟩ = 180000000 := by decide
  have hroot : isLocInRC initRootRect ⟨0, 0⟩ = true := by decide
  refine ⟨hrad.trans hdeg.symm, (rect_agrees_iff hroot (by decide) le_rfl (by norm_num)).mpr ⟨?_, ?_, ?_, ?_⟩⟩
  · rw [hnear, he, Within, hrad]
    norm_num
    linarith
  · rw [hnear, hw, Within, hrad]
    norm_num
    linarith
  · rintro - ⟨-, h⟩
    rw [hrad] at h
    push_cast at h
    linarith
  · rintro - ⟨-, h⟩
    rw [hrad] at h
    push_cast at h
    linarith

/-- Two degrees north, where the cosine of two radians is negative, the rectangle of one kilometre goes half around the
parallel: it has a location of 111 kilometres away. -/
theorem rect_two_degrees_north :
    isLocInRC initRootRect ⟨2000000, 1000000⟩ = true ∧
      2 * 1 < getDistance ⟨2000000, 0⟩ ⟨2000000, 1000000⟩ ∧
        isLocInRC (getRectFromLocRadius ⟨2000000, 0⟩ 1) ⟨2000000, 1000000⟩ = true := by
  have hrad : cosRad ⟨2000000, 0⟩ ≤ 0 := by
    have h : cosRad ⟨2000000, 0⟩ = Real.cos 2 := by
      have e : (2000000 : Int32).toInt = 2000000 := by decide
      rw [cosRad, degFixpointBase, e]
      norm_num
    rw [h]
    have hpi := Real.pi_gt_d20
    have hpi' := Real.pi_lt_d20
    exact Real.cos_nonpos_of_pi_div_two_le_of_le (by linarith) (by linarith)
  have hp : isLocInRC initRootRect ⟨2000000, 1000000⟩ = true := by decide
  have hloc : isLocInRC initRootRect ⟨2000000, 0⟩ = true := by decide
  have hcos : 0 < cosDeg ⟨2000000, 0⟩ := cosDeg_pos (by decide) (by decide)
  have hhalf : 1 / 2 < cosDeg ⟨2000000, 0⟩ := by
    have e : (2000000 : Int32).toInt = 2000000 := by decide
    have hle := Real.one_sub_sq_div_two_le_cos (x := (2000000 : ℤ) / degFixpointBase * nlaPi / 180)
    rw [cosDeg, e]
    refine lt_of_lt_of_le ?_ hle
    norm_num [degFixpointBase, nlaPi]
  have e : (1000000 : Int32).toInt - (0 : Int32).toInt = 1000000 := by decide
  have hk := unitsPerKm_bounds
  have hoff : 1000001 ≤ ⌊lonOffset ⟨2000000, 0⟩ 1⌋ := by
    rw [le_floor_lonOffset zero_le_one (by norm_num)]
    refine ⟨by norm_num, ?_⟩
    push_cast
    linarith
  refine ⟨hp, ?_, ?_⟩
  · rw [twice_lt_iff hloc hp rfl hcos]
    rw [e, farSpan, Int.floor_lt, div_lt_iff₀ hcos]
    norm_num
    linarith
  · rw [getRectFromLocRadius_parallel le_rfl (by norm_num) hloc hp rfl]
    simp only [e]
    omega

/-! ## Bands -/

/-- The interval `fn_v_GetRectFromLocRadius` forms around a coordinate. -/
def band (deg off dmax dmin : NLADeg) : NLADeg × NLADeg :=
  (limitAdd deg (-off) dmax dmin, limitAdd deg off dmax dmin)

theorem getRectFromLocRadius_band (loc : Nla2dloc) (r : ℝ) :
    ((getRectFromLocRadius loc r).lt.lat, (getRectFromLocRadius loc r).rb.lat) =
        band loc.lat (toDeg (latDistFactor * r)) maxLat minLat ∧
      ((getRectFromLocRadius loc r).lt.lon, (getRectFromLocRadius loc r).rb.lon) =
        band loc.lon (toDeg (lonOffset loc r)) maxLon minLon :=
  ⟨rfl, rfl⟩

/-- The interval from `deg - off` to `deg + off`, cut to the limits. -/
def BandExact (deg off dmax dmin : NLADeg) : Prop :=
  (band deg off dmax dmin).1.toInt = max dmin.toInt (deg.toInt - off.toInt) ∧
    (band deg off dmax dmin).2.toInt = min dmax.toInt (deg.toInt + off.toInt)

/-- Both bands are exact, and the first is contained in the second. -/
structure BandsAgree (deg off1 off2 dmax dmin : NLADeg) : Prop where
  first : BandExact deg off1 dmax dmin
  second : BandExact deg off2 dmax dmin
  lower : (band deg off2 dmax dmin).1 ≤ (band deg off1 dmax dmin).1
  upper : (band deg off1 dmax dmin).2 ≤ (band deg off2 dmax dmin).2

section Bands

variable {deg off off1 off2 dmax dmin : NLADeg}

theorem toInt_neg_off (h : 0 ≤ off.toInt) : (-off).toInt = -off.toInt := by
  have hlt := off.toInt_lt
  rw [Int32.toInt_neg]
  exact Int.bmod_eq_of_le (by omega) (by omega)

theorem bandExact_of_range (h0 : 0 ≤ off.toInt) (hlo : dmin.toInt ≤ deg.toInt) (hhi : deg.toInt ≤ dmax.toInt)
    (h1 : -2 ^ 31 ≤ deg.toInt - off.toInt) (h2 : deg.toInt + off.toInt < 2 ^ 31) : BandExact deg off dmax dmin := by
  have hneg := toInt_neg_off h0
  have hlt := deg.toInt_lt
  have hle := deg.le_toInt
  unfold BandExact band
  rw [toInt_limitAdd (by omega) (by omega) (by omega), toInt_limitAdd (by omega) (by omega) (by omega), hneg]
  constructor <;> omega

/-- A sum that wraps falls to the other limit. -/
theorem bandExact_range (h0 : 0 ≤ off.toInt) (hlo : -2 ^ 30 ≤ dmin.toInt) (hmin : dmin.toInt ≤ deg.toInt)
    (hmax : deg.toInt ≤ dmax.toInt) (hhi : dmax.toInt < 2 ^ 30) (hne : dmin.toInt < dmax.toInt)
    (h : BandExact deg off dmax dmin) : -2 ^ 31 ≤ deg.toInt - off.toInt ∧ deg.toInt + off.toInt < 2 ^ 31 := by
  have hneg := toInt_neg_off h0
  have hlt := off.toInt_lt
  obtain ⟨hlow, hup⟩ := h
  constructor
  · by_contra hwrap
    have hsum : (deg + -off).toInt = deg.toInt - off.toInt + 2 ^ 32 := by
      rw [Int32.toInt_add, hneg, Int.bmod_def]
      omega
    unfold band limitAdd at hlow
    simp only [gt_iff_lt, Int32.lt_iff_toInt_lt, hsum] at hlow
    rw [if_pos (by omega)] at hlow
    omega
  · by_contra hwrap
    have hsum : (deg + off).toInt = deg.toInt + off.toInt - 2 ^ 32 := by
      rw [Int32.toInt_add, Int.bmod_def]
      omega
    unfold band limitAdd at hup
    simp only [gt_iff_lt, Int32.lt_iff_toInt_lt, hsum] at hup
    rw [if_neg (by omega), if_pos (by omega)] at hup
    omega

theorem bandsAgree_of_range (h0 : 0 ≤ off1.toInt) (h12 : off1.toInt ≤ off2.toInt) (hlo : dmin.toInt ≤ deg.toInt)
    (hhi : deg.toInt ≤ dmax.toInt) (h1 : -2 ^ 31 ≤ deg.toInt - off2.toInt) (h2 : deg.toInt + off2.toInt < 2 ^ 31) :
    BandsAgree deg off1 off2 dmax dmin := by
  have hfirst : BandExact deg off1 dmax dmin := bandExact_of_range h0 hlo hhi (by omega) (by omega)
  have hsecond : BandExact deg off2 dmax dmin := bandExact_of_range (by omega) hlo hhi h1 h2
  refine ⟨hfirst, hsecond, ?_, ?_⟩
  · rw [Int32.le_iff_toInt_le, hfirst.1, hsecond.1]
    omega
  · rw [Int32.le_iff_toInt_le, hfirst.2, hsecond.2]
    omega

end Bands

/-- **When a larger radius does not shrink the band.** For every center and every two offsets, the bands are the exact
ones and grow: in longitude always, and in latitude exactly when neither sum with the larger offset leaves the range of
an `NLADeg`. -/
theorem bands_agree_iff {loc : Nla2dloc} {off1 off2 lonOff1 lonOff2 : NLADeg} (hlat : -90000000 ≤ loc.lat.toInt)
    (hlat' : loc.lat.toInt ≤ 90000000) (h0 : 0 ≤ off1.toInt) (h12 : off1.toInt ≤ off2.toInt)
    (hlon : -180000000 ≤ loc.lon.toInt) (hlon' : loc.lon.toInt ≤ 180000000) (h0' : 0 ≤ lonOff1.toInt)
    (h12' : lonOff1.toInt ≤ lonOff2.toInt) (h2' : lonOff2.toInt ≤ 180000000) :
    BandsAgree loc.lon lonOff1 lonOff2 maxLon minLon ∧
      (BandsAgree loc.lat off1 off2 maxLat minLat ∧ BandsAgree loc.lon lonOff1 lonOff2 maxLon minLon ↔
        -2 ^ 31 ≤ loc.lat.toInt - off2.toInt ∧ loc.lat.toInt + off2.toInt < 2 ^ 31) := by
  have e1 : maxLat.toInt = 90000000 := by decide
  have e2 : minLat.toInt = -90000000 := by decide
  have e3 : maxLon.toInt = 180000000 := by decide
  have e4 : minLon.toInt = -180000000 := by decide
  have hlonAgree : BandsAgree loc.lon lonOff1 lonOff2 maxLon minLon :=
    bandsAgree_of_range h0' h12' (by omega) (by omega) (by omega) (by omega)
  refine ⟨hlonAgree, fun h => ?_, fun h => ⟨?_, hlonAgree⟩⟩
  · exact bandExact_range (by omega) (by omega) (by omega) (by omega) (by omega) (by omega) h.1.second
  · exact bandsAgree_of_range h0 h12 (by omega) (by omega) h.1 h.2

/-- Radii of 100 and of 1000 kilometres around 80 degrees north. -/
theorem bands_agree_near_pole : BandsAgree 80000000 899300 8993000 maxLat minLat ∧
    band 80000000 8993000 maxLat minLat = (71007000, 88993000) := by
  have h := @bands_agree_iff ⟨80000000, 0⟩ 899300 8993000 0 0 (by decide) (by decide)
    (by decide) (by decide) (by decide) (by decide) (by decide) (by decide) (by decide)
  exact ⟨(h.2.mpr (by decide)).1, by decide⟩

/-- A radius of 230000 kilometres around 80 degrees north: the sum wraps, and the band is empty. -/
theorem bands_shrink : band 80000000 899300 maxLat minLat = (79100700, 80899300) ∧
    band 80000000 2068390000 maxLat minLat = (-90000000, -90000000) ∧
      ¬ BandsAgree 80000000 899300 2068390000 maxLat minLat := by
  refine ⟨by decide, by decide, fun h => ?_⟩
  have hupper : ¬ (band 80000000 899300 maxLat minLat).2 ≤ (band 80000000 2068390000 maxLat minLat).2 := by decide
  exact hupper h.upper

end Lookaround
