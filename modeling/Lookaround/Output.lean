import Lookaround.Degrees
import Lookaround.Library.Json

/-!
# What the replies decode to

* `toCodes` : the code points of a reply, which is ASCII;
* `reads_formatDataItem` : the text of an item with an id that needs no escape is a JSON object with its six members;
* `toCodes_lookaroundBody` : the body of a query is a JSON array of the texts of the items it printed;
* `Printed` : the invariant of runs of requests that the replies rest on;
* `runRequests_json` : the replies over runs of requests.
-/

namespace Lookaround

open NlaCoreData Library

/-- The code points of an ASCII text. -/
def toCodes (txt : Bytes) : Json.Text := txt.map UInt8.toNat

/-- The code points of a string. -/
def codesOf (txt : String) : Json.Text := txt.toList.map Char.toNat

theorem toCodes_append (l l' : Bytes) : toCodes (l ++ l') = toCodes l ++ toCodes l' := List.map_append

/-! ## Numerals -/

theorem toCodes_fmtNat (n : Nat) : toCodes (fmtNat n) = codesOf (toString n) := by
  rw [fmtNat, toCodes, List.map_map, codesOf, Nat.toString_eq_repr, Nat.toList_repr]
  apply List.map_congr_left
  intro c hc
  exact (toUInt8_digit hc).2

theorem toCodes_fmtInt (x : Int) : toCodes (fmtInt x) = codesOf (toString x) := by
  unfold fmtInt
  cases x with
  | ofNat n =>
      have hnonneg : ¬ Int.ofNat n < 0 := Int.not_lt.mpr (Int.natCast_nonneg n)
      rw [if_neg hnonneg]
      exact toCodes_fmtNat n
  | negSucc n =>
      have hrepr : toString (Int.negSucc n) = "-" ++ toString (n + 1) := rfl
      rw [if_pos (Int.negSucc_lt_zero n), toCodes_append, Int.natAbs_negSucc, toCodes_fmtNat, hrepr]
      simp only [codesOf, String.toList_append, List.map_append]
      rfl

/-- Digits, points and minus signs. -/
def Numeral (l : Bytes) : Prop := ∀ b ∈ l, 45 ≤ b ∧ b ≤ 57

theorem Numeral.append {l l' : Bytes} (h : Numeral l) (h' : Numeral l') : Numeral (l ++ l') := by
  intro b hb
  rcases List.mem_append.mp hb with hb | hb
  · exact h b hb
  · exact h' b hb

theorem numeral_minus : Numeral (ascii "-") := by
  intro b hb
  rw [show b = 45 from List.mem_singleton.mp hb]
  decide

theorem numeral_fmtNat (n : Nat) : Numeral (fmtNat n) := by
  intro b hb
  have hdigit := List.all_eq_true.mp (all_isDigit_fmtNat n) b hb
  simp only [isDigit, Bool.and_eq_true, decide_eq_true_eq] at hdigit
  exact ⟨UInt8.le_trans (by decide : (45 : UInt8) ≤ 48) hdigit.1, hdigit.2⟩

theorem numeral_fmtInt (x : Int) : Numeral (fmtInt x) := by
  unfold fmtInt
  split
  · exact numeral_minus.append (numeral_fmtNat _)
  · exact numeral_fmtNat _

theorem numeral_padZeros {l : Bytes} (width : Nat) (h : Numeral l) : Numeral (padZeros width l) := by
  unfold padZeros
  apply Numeral.append
  · intro b hb
    rw [List.eq_of_mem_replicate hb]
    decide
  · exact h

theorem numeral_formatDeg (deg : NLADeg) : Numeral (formatDeg deg) := by
  have hpoint : Numeral (ascii ".") := by
    intro b hb
    rw [show b = 46 from List.mem_singleton.mp hb]
    decide
  unfold formatDeg fmtInt06
  apply Numeral.append
  · exact (numeral_fmtInt _).append hpoint
  · split
    · exact numeral_minus.append (numeral_padZeros 5 (numeral_fmtNat _))
    · exact numeral_padZeros 6 (numeral_fmtNat _)

/-! ## The text of an item -/

theorem plain_toCodes {l : Bytes} (h : ∀ b ∈ l, 32 ≤ b ∧ b ≠ 34 ∧ b ≠ 92) : Json.Plain (toCodes l) := by
  intro c hc
  obtain ⟨b, hb, rfl⟩ := List.mem_map.mp hc
  obtain ⟨h32, h34, h92⟩ := h b hb
  refine ⟨UInt8.le_iff_toNat_le.mp h32, fun hc => h34 ?_, fun hc => h92 ?_⟩
  · exact UInt8.toNat_inj.mp hc
  · exact UInt8.toNat_inj.mp hc

theorem Numeral.plain {l : Bytes} (h : Numeral l) : Json.Plain (toCodes l) := by
  apply plain_toCodes
  intro b hb
  obtain ⟨h45, h57⟩ := h b hb
  refine ⟨UInt8.le_trans (by decide : (32 : UInt8) ≤ 45) h45, ?_, ?_⟩
  · rintro rfl
    exact absurd h45 (by decide)
  · rintro rfl
    exact absurd h57 (by decide)

/-- The names and the texts `fn_v_FormatDataItem` puts between quotes. -/
def itemMembers (data : NlaDataItem) : List (Json.Text × Json.Text) :=
  [(codesOf "id", toCodes data.idText), (codesOf "status", toCodes (fmtInt data.iStatus.toInt)),
    (codesOf "type", toCodes (fmtInt data.iType.toInt)), (codesOf "lat", toCodes (formatDeg data.loc.lat)),
    (codesOf "lon", toCodes (formatDeg data.loc.lon)), (codesOf "uptime", toCodes (fmtInt data.lastUpdateTime.toInt))]

/-- The names, in the order of the format. -/
def itemNames : List Json.Text := ["id", "status", "type", "lat", "lon", "uptime"].map codesOf

theorem toCodes_formatDataItem (data : NlaDataItem) :
    toCodes (formatDataItem data) = Json.objText (itemMembers data) := by
  simp only [formatDataItem, toCodes_append, itemMembers, Json.objText, Json.joined, List.map_cons, List.map_nil,
    Json.memberText, Json.quoted, List.append_assoc, List.cons_append, List.nil_append]
  rfl

/-- An id of at most 31 printable characters. -/
def PrintableId (id : CStr) : Prop := id.bytes.length < dataIdMaxLen ∧ ∀ b ∈ id.bytes, 33 ≤ b ∧ b ≤ 126

/-- Neither a quote nor a backslash. -/
def NeedsNoEscape (id : CStr) : Prop := 34 ∉ id.bytes ∧ 92 ∉ id.bytes

/-- A JSON object, each name once, that says the id, and the status and the type in decimal. -/
def Decodes (id : CStr) (data : NlaDataItem) (v : Json.Value) : Prop :=
  ∃ ms, v = .obj ms ∧ (ms.map Prod.fst).Nodup ∧ ms.lookup (codesOf "id") = some (.str (toCodes id.bytes)) ∧
    ms.lookup (codesOf "status") = some (.str (codesOf (toString data.iStatus.toInt))) ∧
    ms.lookup (codesOf "type") = some (.str (codesOf (toString data.iType.toInt)))

/-- An id below 32 bytes is printed as it was stored. -/
theorem idText_eq {id : CStr} {data : NlaDataItem} (hname : data.achId = strcpyId id)
    (hlen : id.bytes.length < dataIdMaxLen) : data.idText = id.bytes := by
  obtain ⟨k, hk⟩ : ∃ k, dataIdMaxLen - id.bytes.length = k + 1 := ⟨dataIdMaxLen - id.bytes.length - 1, by omega⟩
  have hbuf : strcpyId id = id.bytes ++ 0 :: List.replicate k 0 := by
    rw [strcpyId_eq (Nat.le_of_lt hlen), hk, List.replicate_succ]
  rw [NlaDataItem.idText, NlaDataItem.memory, hname, hbuf]
  simp only [List.append_assoc, List.cons_append]
  exact CStr.ofBuffer_append_nul id.noNul _

theorem plain_id {id : CStr} (hp : PrintableId id) (hn : NeedsNoEscape id) : Json.Plain (toCodes id.bytes) := by
  apply plain_toCodes
  intro b hb
  obtain ⟨h33, -⟩ := hp.2 b hb
  refine ⟨UInt8.le_trans (by decide : (32 : UInt8) ≤ 33) h33, ?_, ?_⟩
  · rintro rfl
    exact hn.1 hb
  · rintro rfl
    exact hn.2 hb

/-- The text of an item. -/
theorem reads_formatDataItem {id : CStr} {data : NlaDataItem} (hname : data.achId = strcpyId id) (hp : PrintableId id)
    (hn : NeedsNoEscape id) : ∃ v, Json.Reads (toCodes (formatDataItem data)) v ∧ Decodes id data v := by
  have hplain : ∀ m ∈ itemMembers data, Json.Plain m.1 ∧ Json.Plain m.2 := by
    have hkeys : ∀ k ∈ itemNames, ∀ c ∈ k, 32 ≤ c ∧ c ≠ 34 ∧ c ≠ 92 := by decide
    intro m hm
    refine ⟨hkeys m.1 (List.mem_map_of_mem hm), ?_⟩
    simp only [itemMembers, List.mem_cons, List.not_mem_nil, or_false] at hm
    rcases hm with rfl | rfl | rfl | rfl | rfl | rfl
    · rw [idText_eq hname hp.1]
      exact plain_id hp hn
    · exact (numeral_fmtInt _).plain
    · exact (numeral_fmtInt _).plain
    · exact (numeral_formatDeg _).plain
    · exact (numeral_formatDeg _).plain
    · exact (numeral_fmtInt _).plain
  have hnodup : itemNames.Nodup := by decide
  refine ⟨.obj ((itemMembers data).map fun m => (m.1, .str m.2)), ?_, _, rfl, ?_, ?_, ?_, ?_⟩
  · rw [toCodes_formatDataItem]
    exact Json.reads_objText (List.cons_ne_nil _ _) hplain
  · exact hnodup
  · rw [← idText_eq hname hp.1]
    rfl
  · rw [← toCodes_fmtInt]
    rfl
  · rw [← toCodes_fmtInt]
    rfl

/-! ## The text of a query -/

/-- The texts of a query: commas between them, and one more at the end. -/
theorem toCodes_flatMap (e : Entry) (l : List Entry) : ∃ txt,
    ((e :: l).flatMap fun e => formatDataItem e.2 ++ ascii ",") = txt ++ [44] ∧
      toCodes txt = Json.joined ((e :: l).map fun e => toCodes (formatDataItem e.2)) := by
  induction l generalizing e with
  | nil => exact ⟨formatDataItem e.2, by simp [ascii], rfl⟩
  | cons e' l ih =>
      obtain ⟨txt, htxt, hcodes⟩ := ih e'
      refine ⟨formatDataItem e.2 ++ ascii "," ++ txt, ?_, ?_⟩
      · rw [List.flatMap_cons, htxt]
        simp only [List.append_assoc]
      · rw [toCodes_append, toCodes_append, hcodes]
        simp only [List.map_cons, Json.joined, List.append_assoc]
        rfl

/-- The last comma becomes the bracket. -/
theorem toCodes_lookaroundBody (l : List Entry) :
    toCodes (lookaroundBody (l.flatMap fun e => formatDataItem e.2 ++ ascii ",")) =
      Json.arrText (l.map fun e => toCodes (formatDataItem e.2)) := by
  cases l with
  | nil => rfl
  | cons e l =>
      obtain ⟨txt, htxt, hcodes⟩ := toCodes_flatMap e l
      rw [htxt, lookaroundBody, List.getLast?_concat, if_pos rfl, List.dropLast_concat, toCodes_append, toCodes_append,
        hcodes]
      rfl

/-! ## Runs of requests -/

variable {conf : Conf} {s s' : NlaCoreData} {r : Request} {rs : List Request} {iHashSize : Nat}

/-- A call that stores nothing a reply cannot print. -/
structure Printable (op : SetItem) : Prop where
  id : PrintableId op.id
  escape : NeedsNoEscape op.id
  fits : op.loc.fits = true

/-- Every data node is the item of an id that needs no escape, with coordinates that fit. -/
structure Printed (conf : Conf) (s : NlaCoreData) : Prop where
  inv : Inv conf s
  held : ∀ d : Nat, d < s.dataNodes.length → ∃ id, s.getdatanode id = some d
  ids : ∀ (id : CStr) (d : Nat), s.getdatanode id = some d → PrintableId id ∧ NeedsNoEscape id
  fits : ∀ (d : Nat) (data : NlaDataItem), s.item d = some data → data.loc.fits = true

theorem printed_init (conf : Conf) (iHashSize : Nat) (h0 : 0 < iHashSize) :
    Printed conf (initCoreData iHashSize h0) where
  inv := inv_init conf iHashSize h0
  held := fun d hd => absurd hd (Nat.not_lt_zero d)
  ids := by
    intro id d hd
    rw [getdatanode, initCoreData, smGetPtrvalue_smNew] at hd
    cases hd
  fits := fun d data hd => absurd (lt_of_item hd) (Nat.not_lt_zero d)

theorem Printed.applySet {op : SetItem} (h : Printed conf s) (hop : Printable op) (hs : applySet conf s op = .ok s') :
    Printed conf s' := by
  obtain ⟨hstep, hinv'⟩ := applySet_inv h.inv hs
  obtain ⟨d, data, heff⟩ := hstep.effect h.inv
  have hw := heff.toWrote
  refine ⟨hinv', held_wrote h.held hw, fun id e he => ?_, fun e data' he => ?_⟩
  · by_cases hid : id = op.id
    · rw [hid]
      exact ⟨hop.id, hop.escape⟩
    · rw [hw.get, Function.update_of_ne hid] at he
      exact h.ids id e he
  · by_cases hed : e = d
    · rw [hed, hw.item_self] at he
      cases he
      rw [hw.loc]
      exact hop.fits
    · rw [hw.item, Function.update_of_ne hed] at he
      exact h.fits e data' he

theorem runRequests_printed (h0 : 0 < iHashSize) (hrun : runRequests conf (initCoreData iHashSize h0) rs = .ok s)
    (hops : ∀ r ∈ rs, ∀ op, setitemArgs r = some op → Printable op) : Printed conf s := by
  rw [runRequests_eq] at hrun
  have hcalls : ∀ op ∈ callsOf rs, Printable op := by
    intro op hop
    obtain ⟨r, hr, hargs⟩ := mem_callsOf hop
    exact hops r hr op hargs
  exact Library.run_ok_induction (printed_init conf iHashSize h0) (Library.everyStep_of_forall hcalls)
    (fun _ _ _ hI hP hs => hI.applySet hP hs) hrun

/-! ## Replies -/

/-- The reply of `getitem` for an id the map holds is a JSON object that says what is stored. -/
def GetitemDecodes (s : NlaCoreData) : Prop :=
  ∀ (r : Request) (id : CStr) (d : Nat), r.isGet = true → idArg r = some id → s.getdatanode id = some d →
    ∃ data txt v, s.item d = some data ∧ getitem s r = .ok (.body txt .json) ∧ Json.parse (toCodes txt) = some v ∧
      Decodes id data v

/-- The reply of `lookaround` is a JSON array of such objects, one for each item its query emits, in that order. -/
def LookaroundDecodes (getRectFromLocRadius : Nla2dloc → Int64 → NlaRect) (conf : Conf) (s : NlaCoreData) : Prop :=
  ∀ (r : Request) (q : QueryArgs) (fuel : Nat) (ex : NlaExParam), r.isGet = true →
    lookaroundArgs getRectFromLocRadius r = some q → aroundItems conf s q fuel = .ok ex →
    ∃ txt vs, lookaround getRectFromLocRadius conf s r fuel = .ok (.body txt .json) ∧
      Json.parse (toCodes txt) = some (.arr vs) ∧
      List.Forall₂ (fun d v => ∃ id data, s.getdatanode id = some d ∧ s.item d = some data ∧ Decodes id data v)
        ex.emitted vs

/-- The text of each item reads back as the item. -/
theorem Printed.reads (h : Printed conf s) {d : Nat} {data : NlaDataItem} (hd : s.item d = some data) :
    ∃ id v, s.getdatanode id = some d ∧ Json.Reads (toCodes (formatDataItem data)) v ∧ Decodes id data v := by
  obtain ⟨id, hid⟩ := h.held d (lt_of_item hd)
  obtain ⟨data', hd', hname⟩ := h.inv.names id d hid
  obtain rfl := Option.some.inj (hd.symm.trans hd')
  obtain ⟨hp, hn⟩ := h.ids id d hid
  obtain ⟨v, hv, hdec⟩ := reads_formatDataItem hname hp hn
  exact ⟨id, v, hid, hv, hdec⟩

theorem Printed.getitemDecodes (h : Printed conf s) : GetitemDecodes s := by
  intro r id d hget hid hd
  obtain ⟨data, hdata⟩ := h.inv.item hd
  obtain ⟨id', v, hid', hv, hdec⟩ := h.reads hdata
  obtain rfl := h.inv.inj id' id d hid' hd
  refine ⟨data, formatDataItem data, v, hdata, ?_, hv.parse, hdec⟩
  rw [getitem_eq hid hd hdata, if_pos (h.fits d data hdata), renderOutput, if_pos hget]

/-- The entries a query printed, as JSON values. -/
theorem Printed.values (h : Printed conf s) {l : List Entry} (hl : ∀ e ∈ l, s.item e.1 = some e.2) :
    ∃ vs, List.Forall₂ Json.Reads (l.map fun e => toCodes (formatDataItem e.2)) vs ∧
      List.Forall₂ (fun d v => ∃ id data, s.getdatanode id = some d ∧ s.item d = some data ∧ Decodes id data v)
        (l.map Prod.fst) vs := by
  induction l with
  | nil => exact ⟨[], .nil, .nil⟩
  | cons e l ih =>
      obtain ⟨vs, h1, h2⟩ := ih fun e' he' => hl e' (List.mem_cons_of_mem e he')
      have he := hl e List.mem_cons_self
      obtain ⟨id, v, hid, hv, hdec⟩ := h.reads he
      exact ⟨v :: vs, .cons hv h1, .cons ⟨id, e.2, hid, he, hdec⟩ h2⟩

theorem Printed.lookaroundDecodes (h : Printed conf s) (getRectFromLocRadius : Nla2dloc → Int64 → NlaRect) :
    LookaroundDecodes getRectFromLocRadius conf s := by
  intro r q fuel ex hget hq hex
  obtain ⟨l, rfl, hl⟩ := getAroundData_emits hex
  obtain ⟨vs, hreads, hdec⟩ := h.values hl
  refine ⟨lookaroundBody (l.flatMap fun e => formatDataItem e.2 ++ ascii ","), vs, ?_, ?_, ?_⟩
  · have hfits : ((NlaExParam.emitAll ⟨0, [], []⟩ l).emitted.any fun d =>
        (s.item d).any fun data => !data.loc.fits) = false := by
      rw [List.any_eq_false]
      intro d hd
      cases hitem : s.item d with
      | none => simp
      | some data => simp [h.fits d data hitem]
    simp [lookaround, hq, hex, hfits, pSzJson_emitAll, renderOutput, hget, bind, Except.bind, pure, Except.pure]
  · rw [toCodes_lookaroundBody]
    exact Json.parse_arrText hreads
  · rw [emitted_emitAll, List.nil_append]
    exact hdec

/-- **The replies over runs of requests.** When no accepted id has a quote or a backslash and every accepted coordinate
fits its buffer, the replies in the state reached decode to the items. A query also answers, when the accepted
coordinates are in the root rectangle and no request brings an item back. -/
theorem runRequests_json (getRectFromLocRadius : Nla2dloc → Int64 → NlaRect) (h0 : 0 < iHashSize)
    (hrun : runRequests conf (initCoreData iHashSize h0) rs = .ok s)
    (hops : ∀ r ∈ rs, ∀ op, setitemArgs r = some op → Printable op) :
    GetitemDecodes s ∧ LookaroundDecodes getRectFromLocRadius conf s ∧
      ((∀ r ∈ rs, InRoot r) →
        Library.EveryStep (applyRequest conf) (fun s r => ∀ op, setitemArgs r = some op → ¬ Returning conf s op)
          (initCoreData iHashSize h0) rs →
        ∀ q, ∃ fuel ex, aroundItems conf s q fuel = .ok ex) := by
  have hprinted := runRequests_printed h0 hrun hops
  refine ⟨hprinted.getitemDecodes, hprinted.lookaroundDecodes getRectFromLocRadius, fun hin hsteps q => ?_⟩
  have hcalls : ∀ op ∈ callsOf rs, isLocInRC initRootRect op.loc = true := by
    intro op hop
    obtain ⟨r, hr, hargs⟩ := mem_callsOf hop
    exact hin r hr op hargs
  obtain ⟨t, ht, hinv, -, hends⟩ := runSets_listsEnd h0 hcalls (everyStep_callsOf hsteps)
  rw [runRequests_eq, ht] at hrun
  cases hrun
  obtain ⟨ex, fuel, hex⟩ := hends.returns hinv q.rc q.iStatus q.iType q.iCount.toInt
  exact ⟨fuel, ex, hex⟩

/-- `fn_v_GetRectFromLocRadius` for a hundred kilometres around latitude and longitude zero. -/
def rectAroundZero : NlaRect where
  lt := { lat := -899300, lon := -899289 }
  rb := { lat := 899300, lon := 899289 }

theorem runRequests_json_one : ∃ s ex,
    runRequests ⟨1⟩ (initCoreData 1 Nat.one_pos) [getRequest "id=a&lat=0.5&lon=0.5"] = .ok s ∧ GetitemDecodes s ∧
      LookaroundDecodes (fun _ _ => rectAroundZero) ⟨1⟩ s ∧
      aroundItems ⟨1⟩ s ⟨rectAroundZero, -1, -1, 50⟩ 5 = .ok ex ∧ ex.emitted = [0] := by
  have hops : ∀ r ∈ [getRequest "id=a&lat=0.5&lon=0.5"], ∀ op, setitemArgs r = some op → Printable op := by
    intro r hr op hop
    rw [List.mem_singleton] at hr
    subst hr
    cases hop
    exact ⟨⟨by decide, by decide +kernel⟩, ⟨by decide, by decide⟩, by decide⟩
  have hdecodes : ∀ s, runRequests ⟨1⟩ (initCoreData 1 Nat.one_pos) [getRequest "id=a&lat=0.5&lon=0.5"] = .ok s →
      GetitemDecodes s ∧ LookaroundDecodes (fun _ _ => rectAroundZero) ⟨1⟩ s := by
    intro s hrun
    obtain ⟨h1, h2, -⟩ := runRequests_json (fun _ _ => rectAroundZero) Nat.one_pos hrun hops
    exact ⟨h1, h2⟩
  exact ⟨_, _, rfl, (hdecodes _ rfl).1, (hdecodes _ rfl).2, rfl, rfl⟩

/-- The text of an item with the id `a"b`. -/
def unescapedText : Bytes :=
  ascii "\x7b\"id\":\"a\"b\",\"status\":\"0\",\"type\":\"0\",\"lat\":\"0.500000\",\"lon\":\"0.500000\"" ++
    ascii ",\"uptime\":\"0\"\x7d"

/-- An id with a quote: neither reply is JSON. -/
theorem runRequests_unescaped : ∃ s,
    runRequests ⟨1⟩ (initCoreData 1 Nat.one_pos) [getRequest "id=a\"b&lat=0.5&lon=0.5"] = .ok s ∧
      (∀ op, setitemArgs (getRequest "id=a\"b&lat=0.5&lon=0.5") = some op → PrintableId op.id ∧ op.loc.fits = true) ∧
      ¬ GetitemDecodes s ∧ ¬ LookaroundDecodes (fun _ _ => rectAroundZero) ⟨1⟩ s := by
  have hbad : Json.parse (toCodes unescapedText) = none := by decide +kernel
  have hbads : Json.parse (toCodes (ascii "[" ++ unescapedText ++ ascii "]")) = none := by decide +kernel
  refine ⟨_, rfl, fun op hop => ?_, fun h => ?_, fun h => ?_⟩
  · cases hop
    exact ⟨⟨by decide, by decide +kernel⟩, by decide⟩
  · obtain ⟨data, txt, v, -, hok, hparse, -⟩ := h (getRequest "id=a\"b") _ 0 rfl rfl rfl
    have htxt : txt = unescapedText := by
      cases hok
      rfl
    rw [htxt, hbad] at hparse
    cases hparse
  · obtain ⟨txt, vs, hok, hparse, -⟩ := h (getRequest "lat=0&lon=0&radius=100") _ 5 _ rfl rfl rfl
    have htxt : txt = ascii "[" ++ unescapedText ++ ascii "]" := by
      cases hok
      rfl
    rw [htxt, hbads] at hparse
    cases hparse

end Lookaround
