import Lookaround.Nginx
import Lookaround.Settled

/-!
# The request handlers (`ngx_http_lookaround_handler.c`)

* `setitem`, `getitem`, `lookaround` : the handlers, from the arguments of a request to its reply;
* `runRequests` : a finite sequence of `setitem` requests of one worker with allocations that succeed;
* `runRequests_backPtr` : the requests that keep the back pointers;
* `setitem_faithful` : the requests whose coordinates are stored as they are written.
-/

namespace Lookaround

open NlaCoreData

/-! ## Requests and replies -/

/-- What a handler reads of a request: the bytes behind the `?`, whether the method is GET, and the time. -/
structure Request where
  args : Bytes
  isGet : Bool
  now : Int64

inductive ContentType where
  | text
  | json
  deriving DecidableEq

/-- What a handler answers: `NGX_HTTP_BAD_REQUEST`, `NGX_HTTP_NOT_ALLOWED` or a body. -/
inductive Reply where
  | badRequest
  | notAllowed
  | body (txt : Bytes) (contentType : ContentType)
  deriving DecidableEq

/-- `ngx_http_lookaround_render_output`, with a response buffer that is allocated and headers that are sent. -/
def renderOutput (r : Request) (txt : Bytes) (contentType : ContentType) : Reply :=
  if r.isGet then .body txt contentType else .notAllowed

/-- `NLA_DEG_FIXPOINT`. -/
def degFixpoint : Nat := 6

/-- A coordinate argument: the result of `ngx_atofp` in an `NLADeg`. -/
def parseDeg (value : Bytes) : NLADeg := (ngxAtofp value degFixpoint).toInt32

/-- A status, type or count argument, or its default. -/
def parseIntOr (dflt : Int32) : Option Bytes → Int32
  | none => dflt
  | some value => (ngxAtoi value).toInt32

/-- The id argument: 1 to 32 bytes, copied into `achIDBuf` and read up to the first NUL. -/
def idArg (r : Request) : Option CStr :=
  match ngxHttpArg r.args (ascii "id") with
  | none => none
  | some sID => if sID.length = 0 ∨ sID.length > dataIdMaxLen then none else some (CStr.ofBuffer sID)

/-- The arguments of `setitem`; `none` where it answers `NGX_HTTP_BAD_REQUEST`. -/
def setitemArgs (r : Request) : Option SetItem := do
  let id ← idArg r
  let sLat ← ngxHttpArg r.args (ascii "lat")
  let sLon ← ngxHttpArg r.args (ascii "lon")
  return { id := id, loc := ⟨parseDeg sLat, parseDeg sLon⟩,
           iStatus := parseIntOr 0 (ngxHttpArg r.args (ascii "status")),
           iType := parseIntOr 0 (ngxHttpArg r.args (ascii "type")), now := r.now }

/-- `ngx_http_lookaround_setitem`. -/
def setitem (conf : Conf) (alloc : Allocs) (s : NlaCoreData) (r : Request) : Except Fault (Reply × NlaCoreData) :=
  match setitemArgs r with
  | none => .ok (.badRequest, s)
  | some op => do
    let s ← s.setdataloc conf alloc op.id op.loc op.iStatus op.iType op.now
    return (renderOutput r (ascii "OK") .text, s)

/-- `ngx_http_lookaround_getitem`. -/
def getitem (s : NlaCoreData) (r : Request) : Except Fault Reply :=
  match idArg r with
  | none => .ok .badRequest
  | some id =>
    match s.getdatanode id with
    | none => .ok (renderOutput r (ascii "\x7b\x7d") .json)
    | some d => do
      let n ← s.dataAt d
      if !n.data.loc.fits then
        throw .bufferOverflow
      return renderOutput r (formatDataItem n.data) .json

/-- `NLA_DEF_COUNT` and `NLA_MAX_COUNT`. -/
def defCount : Int32 := 50
def maxCount : Int32 := 10000

/-- The body of a query: `[`, the texts, and `]` in place of the last comma, or behind the `[`. -/
def lookaroundBody (pSzJson : Bytes) : Bytes :=
  if pSzJson.getLast? = some 44 then ascii "[" ++ pSzJson.dropLast ++ ascii "]" else ascii "[" ++ pSzJson ++ ascii "]"

/-- The arguments of a query. -/
structure QueryArgs where
  rc : NlaRect
  iStatus : Int32
  iType : Int32
  iCount : Int32

/-- The arguments of `lookaround`; `none` where it answers `NGX_HTTP_BAD_REQUEST`. The rectangle of a location and a
radius is computed in floating point (`fn_v_GetRectFromLocRadius`) and is a parameter. -/
def lookaroundArgs (getRectFromLocRadius : Nla2dloc → Int64 → NlaRect) (r : Request) : Option QueryArgs := do
  let sLat ← ngxHttpArg r.args (ascii "lat")
  let sLon ← ngxHttpArg r.args (ascii "lon")
  let sRadius ← ngxHttpArg r.args (ascii "radius")
  let iStatus := parseIntOr invalidFilter (ngxHttpArg r.args (ascii "status"))
  let iType := parseIntOr invalidFilter (ngxHttpArg r.args (ascii "type"))
  let iCount := parseIntOr defCount (ngxHttpArg r.args (ascii "count"))
  if iCount ≤ 0 ∨ iCount ≥ maxCount then
    none
  else
    return { rc := getRectFromLocRadius ⟨parseDeg sLat, parseDeg sLon⟩ (ngxAtofp sRadius degFixpoint),
             iStatus := iStatus, iType := iType, iCount := iCount }

/-- The query of `lookaround`; its recursion carries fuel. -/
def aroundItems (conf : Conf) (s : NlaCoreData) (q : QueryArgs) (fuel : Nat) : Except Fault NlaExParam :=
  s.getAroundData conf q.iStatus q.iType q.iCount.toInt fuel (some s.pMapRoot) q.rc ⟨0, [], []⟩

/-- `ngx_http_lookaround_lookaround`. Each item of the query is printed through the local buffers of
`fn_v_FormatDataItem`. -/
def lookaround (getRectFromLocRadius : Nla2dloc → Int64 → NlaRect) (conf : Conf) (s : NlaCoreData) (r : Request)
    (fuel : Nat) : Except Fault Reply :=
  match lookaroundArgs getRectFromLocRadius r with
  | none => .ok .badRequest
  | some q => do
    let ex ← aroundItems conf s q fuel
    if ex.emitted.any fun d => (s.item d).any fun data => !data.loc.fits then
      throw .bufferOverflow
    return renderOutput r (lookaroundBody ex.pSzJson) .json

/-- A count that is accepted is positive. -/
theorem iCount_pos {getRectFromLocRadius : Nla2dloc → Int64 → NlaRect} {r : Request} {q : QueryArgs}
    (hq : lookaroundArgs getRectFromLocRadius r = some q) : 0 < q.iCount.toInt := by
  simp only [lookaroundArgs, bind, Option.bind_eq_some_iff, pure] at hq
  obtain ⟨sLat, -, sLon, -, sRadius, -, hq⟩ := hq
  split_ifs at hq with hcount
  cases hq
  have := (not_or.mp hcount).1
  rw [Int32.le_iff_toInt_le] at this
  simpa using this

/-! ## Runs of requests -/

/-- One `setitem` request. -/
def applyRequest (conf : Conf) (s : NlaCoreData) (r : Request) : Except Fault NlaCoreData :=
  (setitem conf .succeed s r).map Prod.snd

/-- A sequence of `setitem` requests. -/
def runRequests (conf : Conf) (s : NlaCoreData) (rs : List Request) : Except Fault NlaCoreData :=
  Library.run (applyRequest conf) s rs

variable {conf : Conf} {s s' : NlaCoreData} {r : Request} {rs : List Request} {iHashSize : Nat}

/-- A request is a call, or it is refused and changes nothing. -/
theorem applyRequest_eq (conf : Conf) (s : NlaCoreData) (r : Request) :
    applyRequest conf s r = (setitemArgs r).elim (.ok s) (applySet conf s) := by
  unfold applyRequest setitem applySet
  cases setitemArgs r with
  | none => rfl
  | some op =>
      simp only [Option.elim_some, bind, Except.bind]
      cases s.setdataloc conf .succeed op.id op.loc op.iStatus op.iType op.now <;> rfl

/-- The calls of a sequence of requests. -/
def callsOf (rs : List Request) : List SetItem := rs.filterMap setitemArgs

theorem runRequests_eq (conf : Conf) (s : NlaCoreData) (rs : List Request) :
    runRequests conf s rs = runSets conf s (callsOf rs) := by
  induction rs generalizing s with
  | nil => rfl
  | cons r rs ih =>
      rw [runRequests, Library.run, applyRequest_eq, callsOf]
      cases hr : setitemArgs r with
      | none =>
          rw [List.filterMap_cons_none hr]
          exact ih s
      | some op =>
          rw [List.filterMap_cons_some hr, runSets, Library.run, Option.elim_some]
          cases applySet conf s op with
          | error e => rfl
          | ok s' => exact ih s'

/-- A condition on the calls of a run of requests is one on the run of the calls. -/
theorem everyStep_callsOf {P : NlaCoreData → SetItem → Prop}
    (h : Library.EveryStep (applyRequest conf) (fun s r => ∀ op, setitemArgs r = some op → P s op) s rs) :
    Library.EveryStep (applySet conf) P s (callsOf rs) := by
  induction rs generalizing s with
  | nil => trivial
  | cons r rs ih =>
      obtain ⟨hr, hrest⟩ := h
      rw [callsOf]
      cases hop : setitemArgs r with
      | none =>
          rw [List.filterMap_cons_none hop]
          refine ih (hrest s ?_)
          rw [applyRequest_eq, hop, Option.elim_none]
      | some op =>
          rw [List.filterMap_cons_some hop]
          refine ⟨hr op hop, fun s' hs' => ih (hrest s' ?_)⟩
          rw [applyRequest_eq, hop, Option.elim_some, hs']

theorem mem_callsOf {op : SetItem} (h : op ∈ callsOf rs) : ∃ r ∈ rs, setitemArgs r = some op := by
  rw [callsOf, List.mem_filterMap] at h
  exact h

/-- Every state a run of requests reaches has the invariant. -/
theorem runRequests_inv (h0 : 0 < iHashSize) (h : runRequests conf (initCoreData iHashSize h0) rs = .ok s) :
    Inv conf s := by
  rw [runRequests_eq] at h
  rcases runSets_cases (inv_init conf iHashSize h0) (callsOf rs) with ⟨t, ht, hinv⟩ | herr
  · rw [h] at ht
    cases ht
    exact hinv
  · rw [h] at herr
    cases herr

/-! ## Back pointers -/

/-- The accepted coordinates of a request are in the root rectangle. -/
def InRoot (r : Request) : Prop := ∀ op, setitemArgs r = some op → isLocInRC initRootRect op.loc = true

/-- Every item is in the list of the cell it names. -/
def Linked (s : NlaCoreData) : Prop :=
  ∀ (id : CStr) (d q : Nat), s.getdatanode id = some d → s.cell d = some q → Library.Reaches s.next d (s.head q)

/-- **Back pointers over runs of requests.** Every state of a run has them exactly when every accepted request has its
coordinates in the root rectangle. When in addition no request moves an item out of its cell, every item is also linked
in the cell it names. -/
theorem runRequests_backPtr (conf : Conf) (h0 : 0 < iHashSize) (rs : List Request) :
    ((∀ pre, pre <+: rs → ∃ s, runRequests conf (initCoreData iHashSize h0) pre = .ok s ∧ BackPtr conf s) ↔
      ∀ r ∈ rs, InRoot r) ∧
    ((∀ r ∈ rs, InRoot r) →
      Library.EveryStep (applyRequest conf) (fun s r => ∀ op, setitemArgs r = some op → Staying s op)
        (initCoreData iHashSize h0) rs →
      ∀ pre, pre <+: rs → ∃ s, runRequests conf (initCoreData iHashSize h0) pre = .ok s ∧ BackPtr conf s ∧
        Linked s) := by
  have hcalls : ∀ pre, pre <+: rs → (∀ r ∈ rs, InRoot r) → ∀ op ∈ callsOf pre,
      isLocInRC initRootRect op.loc = true := by
    intro pre hpre hin op hop
    obtain ⟨r, hr, hargs⟩ := mem_callsOf hop
    exact hin r (hpre.subset hr) op hargs
  refine ⟨⟨fun hall r hr op hop => ?_, fun hin pre hpre => ?_⟩, fun hin hsteps pre hpre => ?_⟩
  · obtain ⟨pre, post, rfl⟩ := List.append_of_mem hr
    have hpre1 : pre ++ [r] <+: pre ++ r :: post := ⟨post, by simp⟩
    obtain ⟨s, hs, hb⟩ := hall pre ⟨r :: post, rfl⟩
    obtain ⟨s', hs', hb'⟩ := hall (pre ++ [r]) hpre1
    have hinv := runRequests_inv h0 hs
    obtain ⟨s1, hs1, hstep⟩ := hb.applySet hinv op
    have hstep1 : applyRequest conf s r = .ok s1 := by rw [applyRequest_eq, hop, Option.elim_some, hs1]
    have hlast : runRequests conf (initCoreData iHashSize h0) (pre ++ [r]) = .ok s1 := by
      rw [runRequests, Library.run_append_ok hs, Library.run_cons hstep1]
      rfl
    obtain rfl := Except.ok.inj (hs'.symm.trans hlast)
    exact (hstep.backPtr_iff hinv hb).mp hb'
  · obtain ⟨s, hs, -, hb, -⟩ := runSets_inRoot conf h0 (hcalls pre hpre hin)
    exact ⟨s, by rw [runRequests_eq, hs], hb⟩
  · obtain ⟨post, rfl⟩ := hpre
    obtain ⟨s, hs, -, hb, hS, -⟩ :=
      runSets_settled h0 (hcalls pre ⟨post, rfl⟩ hin) (everyStep_callsOf hsteps.left)
    refine ⟨s, by rw [runRequests_eq, hs], hb, fun id d q hd hq => ?_⟩
    obtain ⟨l, hl, hmem⟩ := hS.lists q
    exact hl.mem_iff_reaches.mp ((hmem d).mpr hq)

/-- A GET request with the given arguments. -/
def getRequest (args : String) : Request := { args := ascii args, isGet := true, now := 0 }

theorem runRequests_backPtr_one : ∃ s,
    runRequests ⟨1⟩ (initCoreData 1 Nat.one_pos) [getRequest "id=a&lat=5.5&lon=120"] = .ok s ∧ BackPtr ⟨1⟩ s ∧
      Linked s := by
  obtain ⟨-, hstay⟩ := runRequests_backPtr ⟨1⟩ Nat.one_pos [getRequest "id=a&lat=5.5&lon=120"]
  refine hstay (fun r hr op hop => ?_) ⟨fun op hop d q k hd => ?_, fun _ _ => trivial⟩ _ (List.prefix_refl _)
  · rw [List.mem_singleton] at hr
    subst hr
    cases hop
    decide
  · cases hop
    cases hd

/-- The north pole is on the open edge of the root rectangle: the item gets no `p_map_node`, and the next request for it
reads through NULL. -/
theorem runRequests_north_pole : ∃ s,
    runRequests ⟨1⟩ (initCoreData 1 Nat.one_pos) [getRequest "id=a&lat=90&lon=0"] = .ok s ∧ ¬ BackPtr ⟨1⟩ s ∧
      runRequests ⟨1⟩ (initCoreData 1 Nat.one_pos) [getRequest "id=a&lat=90&lon=0", getRequest "id=a&lat=1&lon=1"] =
        .error .nullDeref := by
  refine ⟨_, rfl, fun hb => ?_, rfl⟩
  obtain ⟨q, -, -, hq, -⟩ := hb (setA 0 0).id 0 rfl
  cases hq

/-! ## Coordinates -/

/-- The two values, in millionths, when both arguments are decimal numerals and the values are in the half-open root
rectangle. -/
def coordinates (sLat sLon : Bytes) : Option (Int × Int) :=
  match decimal6 sLat, decimal6 sLon with
  | some lat, some lon =>
    if -90000000 ≤ lat ∧ lat < 90000000 ∧ -180000000 ≤ lon ∧ lon < 180000000 then some (lat, lon) else none
  | _, _ => none

/-- Good coordinates are stored as they are; others are refused and nothing changes. -/
def TakenFaithfully (conf : Conf) (s : NlaCoreData) (r : Request) (id : CStr) (sLat sLon : Bytes) : Prop :=
  match coordinates sLat sLon with
  | some (lat, lon) => ∃ reply s' d data, setitem conf .succeed s r = .ok (reply, s') ∧ s'.getdatanode id = some d ∧
      s'.item d = some data ∧ data.loc.lat.toInt = lat ∧ data.loc.lon.toInt = lon
  | none => setitem conf .succeed s r = .ok (.badRequest, s)

/-- What is stored for a numeral in the range of an `NLADeg`: its value, or `-1` when it has a sign. -/
theorem parseDeg_toInt {l : Bytes} {v : Int} (h : decimal6 l = some v) (hv : v < 2 ^ 31) :
    (parseDeg l).toInt = if signed l then -1 else v := by
  rw [parseDeg, degFixpoint]
  cases hs : signed l with
  | true =>
      rw [ngxAtofp_minus hs, if_pos rfl]
      rfl
  | false =>
      have hun : (unsigned6 l).map Int.ofNat = some v := by
        unfold decimal6 at h
        split at h
        · cases hs
        · exact h
      rw [Option.map_eq_some_iff] at hun
      obtain ⟨n, hn, rfl⟩ := hun
      have hlt : n < 2 ^ 31 := by
        have : (n : Int) < 2 ^ 31 := hv
        omega
      have hfp := ngxAtofp_unsigned hn (by omega)
      rw [if_neg Bool.false_ne_true, Int64.toInt_toInt32, hfp]
      exact Int.bmod_eq_of_le (by omega) (by omega)

theorem parseDeg_toInt_eq_iff {l : Bytes} {v : Int} (h : decimal6 l = some v) (hv : v < 2 ^ 31) :
    (parseDeg l).toInt = v ↔ (signed l = true → v = -1) := by
  rw [parseDeg_toInt h hv]
  split_ifs with hs
  · exact ⟨fun heq _ => heq.symm, fun heq => (heq hs).symm⟩
  · exact ⟨fun _ hs' => absurd hs' hs, fun _ => rfl⟩

theorem coordinates_eq_some {sLat sLon : Bytes} {lat lon : Int} (h : coordinates sLat sLon = some (lat, lon)) :
    decimal6 sLat = some lat ∧ decimal6 sLon = some lon ∧ lat < 90000000 ∧ lon < 180000000 := by
  unfold coordinates at h
  split at h
  · rename_i lat' lon' hlat hlon
    split_ifs at h with hin
    cases h
    exact ⟨hlat, hlon, hin.2.1, hin.2.2.2⟩
  · cases h

/-- A call that returned did not read through a NULL `p_map_node`. -/
theorem SetStep.cell_ne_none {op : SetItem} {d : Nat} (hs : SetStep conf s op s') (hd : s.getdatanode op.id = some d) :
    s.cell d ≠ none := by
  cases hs with
  | create hid _ =>
      rw [hid] at hd
      cases hd
  | inPlace hid hcell _ _ =>
      rw [hid] at hd
      cases hd
      rw [hcell]
      exact Option.some_ne_none _
  | move hid hcell _ _ _ =>
      rw [hid] at hd
      cases hd
      rw [hcell]
      exact Option.some_ne_none _

/-- A request with an acceptable id and both coordinates is a call with what `ngx_atofp` makes of them. -/
theorem setitemArgs_of_args {sID sLat sLon : Bytes} (hid : ngxHttpArg r.args (ascii "id") = some sID) (hpos : sID ≠ [])
    (hlen : sID.length ≤ dataIdMaxLen) (hlat : ngxHttpArg r.args (ascii "lat") = some sLat)
    (hlon : ngxHttpArg r.args (ascii "lon") = some sLon) :
    ∃ op, setitemArgs r = some op ∧ op.id = CStr.ofBuffer sID ∧ op.loc = ⟨parseDeg sLat, parseDeg sLon⟩ := by
  have hbad : ¬ (sID.length = 0 ∨ sID.length > dataIdMaxLen) := by
    rw [List.length_eq_zero_iff]
    exact not_or.mpr ⟨hpos, not_lt.mpr hlen⟩
  simp only [setitemArgs, idArg, hid, if_neg hbad, hlat, hlon, bind, Option.bind, pure]
  exact ⟨_, rfl, rfl, rfl⟩

/-- The reply of a request that is a call. -/
theorem setitem_of_args {op : SetItem} (conf : Conf) (s : NlaCoreData) (hop : setitemArgs r = some op) :
    setitem conf .succeed s r = (applySet conf s op).map fun s' => (renderOutput r (ascii "OK") .text, s') := by
  simp only [setitem, hop, applySet, bind, Except.bind]
  cases s.setdataloc conf .succeed op.id op.loc op.iStatus op.iType op.now <;> rfl

/-- The item carries the location of the call. -/
theorem applySet_stored {op : SetItem} (hinv : Inv conf s) (hs : applySet conf s op = .ok s') :
    ∃ d data, s'.getdatanode op.id = some d ∧ s'.item d = some data ∧ data.loc = op.loc := by
  obtain ⟨d, data, heff⟩ := (applySet_inv hinv hs).1.effect hinv
  have hw := heff.toWrote
  exact ⟨d, data, hw.get_self, hw.item_self, hw.loc⟩

/-- The reply of `getitem` for an item the map holds. -/
theorem getitem_eq {id : CStr} {d : DataPtr} {data : NlaDataItem} (hid : idArg r = some id)
    (hd : s.getdatanode id = some d) (hdata : s.item d = some data) :
    getitem s r =
      if data.loc.fits then .ok (renderOutput r (formatDataItem data) .json) else .error .bufferOverflow := by
  rw [item, Option.map_eq_some_iff] at hdata
  obtain ⟨n, hn, rfl⟩ := hdata
  simp only [getitem, hid, hd, dataAt_ok hn, bind, Except.bind]
  cases n.data.loc.fits <;> rfl

/-- A call that returns takes coordinates faithfully when it stores their values. -/
theorem takenFaithfully_of_ok {op : SetItem} {sLat sLon : Bytes} (hinv : Inv conf s) (hop : setitemArgs r = some op)
    (hs : applySet conf s op = .ok s') : TakenFaithfully conf s r op.id sLat sLon ↔
      ∃ lat lon, coordinates sLat sLon = some (lat, lon) ∧ op.loc.lat.toInt = lat ∧ op.loc.lon.toInt = lon := by
  obtain ⟨d1, data1, hd1, hdata1, hloc1⟩ := applySet_stored hinv hs
  unfold TakenFaithfully
  rw [setitem_of_args conf s hop, hs]
  constructor
  · intro hfaith
    split at hfaith
    · rename_i lat lon hco
      obtain ⟨reply, s1, d, data, hok, hd, hdata, hlat, hlon⟩ := hfaith
      cases hok
      obtain rfl := Option.some.inj (hd1.symm.trans hd)
      obtain rfl := Option.some.inj (hdata1.symm.trans hdata)
      rw [hloc1] at hlat hlon
      exact ⟨lat, lon, hco, hlat, hlon⟩
    · -- the reply is no refusal
      have hreply := congrArg Prod.fst (Except.ok.inj hfaith)
      simp only [renderOutput] at hreply
      split_ifs at hreply
  · rintro ⟨lat, lon, hco, hlat, hlon⟩
    rw [hco]
    exact ⟨_, s', d1, data1, rfl, hd1, hdata1, by rw [hloc1, hlat], by rw [hloc1, hlon]⟩

/-- **Which coordinates are taken faithfully.** In every state a run of requests reaches and for every request with an
acceptable id: exactly the pairs of numerals in the root rectangle in which a numeral with a minus sign has the value of
`NGX_ERROR`, one millionth below zero, when the item is new or has a `p_map_node`. Nothing is ever refused. -/
theorem setitem_faithful (h0 : 0 < iHashSize) (hrun : runRequests conf (initCoreData iHashSize h0) rs = .ok s)
    {sID sLat sLon : Bytes} (hid : ngxHttpArg r.args (ascii "id") = some sID) (hpos : sID ≠ [])
    (hlen : sID.length ≤ dataIdMaxLen) (hlat : ngxHttpArg r.args (ascii "lat") = some sLat)
    (hlon : ngxHttpArg r.args (ascii "lon") = some sLon) :
    TakenFaithfully conf s r (CStr.ofBuffer sID) sLat sLon ↔
      ∃ lat lon, coordinates sLat sLon = some (lat, lon) ∧ (signed sLat = true → lat = -1) ∧
        (signed sLon = true → lon = -1) ∧ ∀ d, s.getdatanode (CStr.ofBuffer sID) = some d → s.cell d ≠ none := by
  have hinv := runRequests_inv h0 hrun
  obtain ⟨op, hop, hopid, hoploc⟩ := setitemArgs_of_args hid hpos hlen hlat hlon
  rw [← hopid]
  rcases applySet_cases hinv.sound conf op with ⟨s', hs', -⟩ | ⟨d, hd, hnone, herr⟩
  · rw [takenFaithfully_of_ok hinv hop hs', hoploc]
    constructor
    · rintro ⟨lat, lon, hco, hlat', hlon'⟩
      obtain ⟨hdlat, hdlon, hlt, hlt'⟩ := coordinates_eq_some hco
      exact ⟨lat, lon, hco, (parseDeg_toInt_eq_iff hdlat (by omega)).mp hlat',
        (parseDeg_toInt_eq_iff hdlon (by omega)).mp hlon', fun d => (applySet_inv hinv hs').1.cell_ne_none⟩
    · rintro ⟨lat, lon, hco, hs1, hs2, -⟩
      obtain ⟨hdlat, hdlon, hlt, hlt'⟩ := coordinates_eq_some hco
      exact ⟨lat, lon, hco, (parseDeg_toInt_eq_iff hdlat (by omega)).mpr hs1,
        (parseDeg_toInt_eq_iff hdlon (by omega)).mpr hs2⟩
  · refine iff_of_false (fun hfaith => ?_) fun ⟨_, _, _, _, _, hcell⟩ => hcell d hd hnone
    unfold TakenFaithfully at hfaith
    rw [setitem_of_args conf s hop, herr] at hfaith
    split at hfaith
    · obtain ⟨_, _, _, _, hok, -⟩ := hfaith
      cases hok
    · cases hfaith

theorem setitem_faithful_unsigned : TakenFaithfully ⟨1⟩ (initCoreData 1 Nat.one_pos) (getRequest "id=a&lat=5.5&lon=120")
    (CStr.ofBuffer (ascii "a")) (ascii "5.5") (ascii "120") := by
  have hrun : runRequests ⟨1⟩ (initCoreData 1 Nat.one_pos) [] = .ok (initCoreData 1 Nat.one_pos) := rfl
  have hco : coordinates (ascii "5.5") (ascii "120") = some (5500000, 120000000) := by decide +kernel
  refine (setitem_faithful Nat.one_pos hrun (r := getRequest "id=a&lat=5.5&lon=120") rfl (by decide) (by decide) rfl
    rfl).mpr ⟨5500000, 120000000, hco, fun h => (by cases h), fun h => (by cases h), fun d hd => (by cases hd)⟩

/-- A negative latitude is accepted and stored as one millionth below zero; one that is no number, too. -/
theorem setitem_negative_latitude :
    ngxHttpArg (getRequest "id=a&lat=-5&lon=5").args (ascii "lat") = some (ascii "-5") ∧
      ¬ TakenFaithfully ⟨1⟩ (initCoreData 1 Nat.one_pos) (getRequest "id=a&lat=-5&lon=5") (CStr.ofBuffer (ascii "a"))
        (ascii "-5") (ascii "5") ∧
      ¬ TakenFaithfully ⟨1⟩ (initCoreData 1 Nat.one_pos) (getRequest "id=a&lat=x&lon=5") (CStr.ofBuffer (ascii "a"))
        (ascii "x") (ascii "5") := by
  refine ⟨rfl, ?_, fun h => ?_⟩
  · rintro ⟨reply, s', d, data, hok, hd, hdata, hlat, -⟩
    cases hok
    cases hd
    cases hdata
    exact absurd hlat (by decide)
  · cases h

end Lookaround
