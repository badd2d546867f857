import Lookaround.Output

/-!
# The body of a query in its buffer

`lookaround` writes its reply into a zeroed buffer of `iCount * NLA_DATA_JSON_LEN` bytes: a bracket, then
`get_around_data` prints the items through the cursor `p_sz_json`, and the byte before the cursor decides where the last
bracket goes.

* `JsonParam` : the buffer and the cursor; `printItem` : the statements of the leaf loop for an item that passes;
* `getAroundDataJson`, `lookaroundJson` : the query and the handler, with every access to the buffer checked;
* `length_formatDataItem_le`, `noNul_formatDataItem` : the text of an item;
* `Holds` : what the buffer holds while items are printed; `printAll_holds`, `closeJson_eq` : the items, and the repair;
* `Traces`, `getAroundDataJson_traces` : the checked query prints the items the model's query prints;
* `lookaround_body` : the bytes of the body, for any items and for any query.
-/

namespace Lookaround

open NlaCoreData Library

/-! ## The buffer -/

/-- `NLA_DATA_JSON_LEN`. -/
def dataJsonLen : Nat := 200

/-- The buffer of the reply, `p_sz_json` as a place in it, and `count`. -/
structure JsonParam (n : Nat) where
  buf : Buffer UInt8 n
  pSzJson : Nat
  count : Int

/-- An access that is checked. -/
def inside {α : Type} : Option α → Except Fault α
  | none => .error .bufferOverflow
  | some a => .ok a

section Buffers

variable {n : Nat}

/-- `strlen` from the place `i` on: it finds a terminator inside, or reads on behind the buffer. -/
def strlen (b : Buffer UInt8 n) (i : Nat) : Option Nat :=
  let txt := (b.cells.drop i).takeWhile (· ≠ 0)
  if i + txt.length < n then some txt.length else none

/-- The statements of the leaf loop for an item that passes: `fn_v_FormatDataItem` at the cursor, and a comma in place
of its terminator. -/
def printItem (data : NlaDataItem) (ex : JsonParam n) : Except Fault (JsonParam n) := do
  let buf ← inside (ex.buf.putAll ex.pSzJson (formatDataItem data ++ [0]))
  let len ← inside (strlen buf ex.pSzJson)
  let pSzJson := ex.pSzJson + len
  let buf ← inside (buf.put pSzJson 44)
  let pSzJson := pSzJson + 1
  let buf ← inside (buf.put pSzJson 0)
  return { buf := buf, pSzJson := pSzJson, count := ex.count + 1 }

/-- The body of the leaf loop. -/
def visitItem (rc : NlaRect) (iStatus iType : Int32) (data : NlaDataItem) (ex : JsonParam n) :
    Except Fault (JsonParam n) :=
  if passes rc iStatus iType data then printItem data ex else .ok ex

/-- The leaf loop. -/
def leafLoopJson (s : NlaCoreData) (rc : NlaRect) (iStatus iType : Int32) (iMaxCount : Int) :
    Nat → Option DataPtr → JsonParam n → Except Fault (JsonParam n)
  | 0, _, _ => .error .outOfFuel
  | fuel + 1, p, ex =>
    if ex.count < iMaxCount then
      match p with
      | none => .ok ex
      | some d => do
        let node ← s.dataAt d
        let ex ← visitItem rc iStatus iType node.data ex
        leafLoopJson s rc iStatus iType iMaxCount fuel node.next ex
    else .ok ex

/-- `ngx_http_lookaround_get_around_data`. -/
def getAroundDataJson (conf : Conf) (s : NlaCoreData) (iStatus iType : Int32) (iMaxCount : Int) :
    Nat → Option MapPtr → NlaRect → JsonParam n → Except Fault (JsonParam n)
  | 0, _, _, _ => .error .outOfFuel
  | _ + 1, none, _, ex => .ok ex
  | fuel + 1, some p, rc, ex => do
    let m ← s.mapAt p
    if m.iItemCount = 0 then
      return ex
    if conf.nMapMaxLevel ≤ m.iLevel then
      leafLoopJson s rc iStatus iType iMaxCount fuel m.pDataNode ex
    else if m.apChilds 0 = none then
      return ex
    else
      [0, 1, 2, 3].foldlM (fun ex i => do
        let child ← nonNull (m.apChilds i)
        let c ← s.mapAt child
        match intersectRc c.rc rc with
        | none => return ex
        | some newRc => getAroundDataJson conf s iStatus iType iMaxCount fuel (some child) newRc ex) ex

/-- The zeroed buffer with its opening bracket. -/
def openJson (n : Nat) : Except Fault (JsonParam n) := do
  let buf ← inside ((Buffer.replicate n 0).put 0 91)
  return { buf := buf, pSzJson := 1, count := 0 }

/-- The last bracket: in place of the comma before the cursor, or at the cursor. -/
def closeJson (ex : JsonParam n) : Except Fault (Buffer UInt8 n) := do
  let last ← inside (ex.buf.get (ex.pSzJson - 1))
  if last = 44 then
    inside (ex.buf.put (ex.pSzJson - 1) 93)
  else
    inside (ex.buf.put ex.pSzJson 93)

/-- The part of `ngx_http_lookaround_lookaround` that writes the body. (`iCount` is below `NLA_MAX_COUNT`, so that the
size of the buffer does not overflow.) -/
def lookaroundJson (conf : Conf) (s : NlaCoreData) (q : QueryArgs) (fuel : Nat) :
    Except Fault (Buffer UInt8 (q.iCount.toInt.toNat * dataJsonLen)) := do
  let ex ← openJson _
  let ex ← getAroundDataJson conf s q.iStatus q.iType q.iCount.toInt fuel (some s.pMapRoot) q.rc ex
  closeJson ex

/-- A sequence of items, one behind the other. -/
def printAll (ex : JsonParam n) (datas : List NlaDataItem) : Except Fault (JsonParam n) :=
  datas.foldlM (fun ex data => printItem data ex) ex

end Buffers

/-- The body for a sequence of items, in a buffer for `iCount` of them. -/
def itemsJson (iCount : Nat) (datas : List NlaDataItem) : Except Fault (Buffer UInt8 (iCount * dataJsonLen)) := do
  let ex ← openJson _
  let ex ← printAll ex datas
  closeJson ex

/-- The texts as they are printed, each with its comma. -/
def itemTexts (datas : List NlaDataItem) : Bytes := datas.flatMap fun data => formatDataItem data ++ ascii ","

/-- What the body should be: the texts between brackets, with commas between them. -/
def bodyText (datas : List NlaDataItem) : Bytes :=
  ascii "[" ++ (ascii ",").intercalate (datas.map formatDataItem) ++ ascii "]"

/-! ## The text of an item -/

theorem length_idText_le {data : NlaDataItem} (h : data.achId.length ≤ dataIdMaxLen) : data.idText.length ≤ 56 := by
  have htake : data.idText.length ≤ data.memory.length := (List.takeWhile_sublist _).length_le
  have hmem : data.memory.length = data.achId.length + 24 := by
    simp only [NlaDataItem.memory, List.length_append, length_intBytes, length_timeBytes]
  rw [dataIdMaxLen] at h
  omega

/-- The longest text: 61 bytes of format, 56 of the id with the fields behind it, and the widest numbers. -/
theorem length_formatDataItem_le {data : NlaDataItem} (h : data.achId.length ≤ dataIdMaxLen) :
    (formatDataItem data).length ≤ 185 := by
  have hid := length_idText_le h
  have hint : ∀ x : Int32, (fmtInt x.toInt).length ≤ 11 := by
    intro x
    have hlo := x.le_toInt
    have hhi := x.toInt_lt
    exact length_fmtInt_le (by decide) (by omega)
  have htime : (fmtInt data.lastUpdateTime.toInt).length ≤ 20 := by
    have hlo := data.lastUpdateTime.le_toInt
    have hhi := data.lastUpdateTime.toInt_lt
    exact length_fmtInt_le (by decide) (by omega)
  have hstatus := hint data.iStatus
  have htype := hint data.iType
  have hlat := length_formatDeg_le data.loc.lat
  have hlon := length_formatDeg_le data.loc.lon
  have hformat : (ascii "\x7b\"id\":\"").length + (ascii "\",\"status\":\"").length + (ascii "\",\"type\":\"").length +
      (ascii "\",\"lat\":\"").length + (ascii "\",\"lon\":\"").length + (ascii "\",\"uptime\":\"").length +
      (ascii "\"\x7d").length = 61 := by decide
  rw [formatDataItem]
  simp only [List.length_append]
  omega

/-- An item with the longest text: wide fields without a NUL among their bytes. -/
def widestItem : NlaDataItem where
  achId := List.replicate 32 65
  iStatus := -2130640639
  iType := -2130640639
  loc := { lat := -2130640639, lon := -2130640639 }
  lastUpdateTime := -9151031864016699135

example : (formatDataItem widestItem).length = 185 := by decide +kernel

theorem Numeral.noNul {l : Bytes} (h : Numeral l) : 0 ∉ l := by
  intro hmem
  exact absurd (h 0 hmem).1 (by decide)

theorem noNul_formatDataItem (data : NlaDataItem) : 0 ∉ formatDataItem data := by
  have hid : 0 ∉ data.idText := (CStr.ofBuffer data.memory).noNul
  have hstatus := (numeral_fmtInt data.iStatus.toInt).noNul
  have htype := (numeral_fmtInt data.iType.toInt).noNul
  have hlat := (numeral_formatDeg data.loc.lat).noNul
  have hlon := (numeral_formatDeg data.loc.lon).noNul
  have htime := (numeral_fmtInt data.lastUpdateTime.toInt).noNul
  simp only [formatDataItem, List.mem_append, not_or]
  refine ⟨⟨⟨⟨⟨⟨⟨⟨⟨⟨⟨⟨?_, hid⟩, ?_⟩, hstatus⟩, ?_⟩, htype⟩, ?_⟩, hlat⟩, ?_⟩, hlon⟩, ?_⟩, htime⟩, ?_⟩ <;> decide

/-! ## While items are printed -/

section Printing

variable {n : Nat} {ex ex' : JsonParam n} {txt : Bytes} {datas : List NlaDataItem}

/-- The buffer holds the bracket, `txt` and zeros, and the cursor is behind the text. -/
structure Holds (ex : JsonParam n) (txt : Bytes) : Prop where
  cells : ex.buf.cells = 91 :: txt ++ List.replicate (n - (txt.length + 1)) 0
  cursor : ex.pSzJson = txt.length + 1

theorem openJson_holds (hn : 0 < n) : ∃ ex : JsonParam n, openJson n = .ok ex ∧ Holds ex [] ∧ ex.count = 0 := by
  obtain ⟨m, rfl⟩ : ∃ m, n = m + 1 := ⟨n - 1, by omega⟩
  have hzeros : (Buffer.replicate (m + 1) (0 : UInt8)).cells = [] ++ 0 :: List.replicate m 0 := List.replicate_succ
  obtain ⟨b, hb, hcells⟩ := Buffer.put_append hzeros 91
  refine ⟨⟨b, 1, 0⟩, ?_, ⟨hcells, rfl⟩, rfl⟩
  rw [List.length_nil] at hb
  rw [openJson, hb]
  rfl

/-- `strlen` of a text with its terminator. -/
theorem strlen_eq {b : Buffer UInt8 n} {front rest : Bytes} (htxt : 0 ∉ txt)
    (hb : b.cells = front ++ (txt ++ 0 :: rest)) : strlen b front.length = some txt.length := by
  have hread : (b.cells.drop front.length).takeWhile (· ≠ 0) = txt := by
    rw [hb, List.drop_left]
    exact CStr.ofBuffer_append_nul htxt rest
  have hlt : front.length + txt.length < n := by
    rw [← b.size, hb]
    simp only [List.length_append, List.length_cons]
    omega
  unfold strlen
  simp only [hread]
  rw [if_pos hlt]

/-- An item is printed behind the text, with a comma. -/
theorem printItem_holds (h : Holds ex txt) (data : NlaDataItem)
    (hroom : txt.length + (formatDataItem data).length + 3 ≤ n) :
    ∃ ex', printItem data ex = .ok ex' ∧ Holds ex' (txt ++ formatDataItem data ++ ascii ",") := by
  obtain ⟨hcells, hcursor⟩ := h
  have hnul := noNul_formatDataItem data
  generalize htext : formatDataItem data = text at hroom hnul ⊢
  obtain ⟨k, hk⟩ : ∃ k, n - (txt.length + 1) = text.length + 1 + (k + 1) :=
    ⟨n - (txt.length + 1) - (text.length + 2), by omega⟩
  have hfront : (91 :: txt).length = ex.pSzJson := by rw [hcursor, List.length_cons]
  rw [hk] at hcells
  -- `sprintf` with its terminator
  obtain ⟨b1, hb1, hc1⟩ := Buffer.putAll_eq_some hcells (l := text ++ [0]) (by simp)
  have hrest : (List.replicate (text.length + 1 + (k + 1)) (0 : UInt8)).drop (text ++ [0]).length =
      0 :: List.replicate k 0 := by
    rw [List.drop_replicate, List.length_append, List.length_singleton, Nat.add_sub_cancel_left, List.replicate_succ]
  rw [hrest, List.append_assoc, List.append_assoc] at hc1
  have hlen : strlen b1 ex.pSzJson = some text.length := by
    rw [← hfront]
    exact strlen_eq hnul hc1
  -- the comma over the terminator, and a terminator behind it
  rw [← List.append_assoc] at hc1
  obtain ⟨b2, hb2, hc2⟩ := Buffer.put_append hc1 44
  rw [List.append_cons] at hc2
  obtain ⟨b3, hb3, hc3⟩ := Buffer.put_append hc2 0
  rw [List.length_append, hfront] at hb2
  rw [List.length_append, List.length_append, hfront, List.length_singleton] at hb3
  rw [hfront] at hb1
  refine ⟨⟨b3, ex.pSzJson + text.length + 1, ex.count + 1⟩, ?_, ?_, ?_⟩
  · rw [printItem, htext, hb1]
    simp only [inside, hlen, hb2, hb3, bind, Except.bind]
    rfl
  · have hk' : n - ((txt ++ text ++ ascii ",").length + 1) = k + 1 := by
      rw [List.length_append, List.length_append]
      change n - (txt.length + text.length + 1 + 1) = k + 1
      omega
    rw [hc3, hk', List.replicate_succ]
    rfl
  · change ex.pSzJson + text.length + 1 = _
    rw [hcursor, List.length_append, List.length_append]
    change _ = txt.length + text.length + 1 + 1
    omega

/-- Items one behind the other. -/
theorem printAll_holds (h : Holds ex txt) (hroom : txt.length + (itemTexts datas).length + 2 ≤ n) :
    ∃ ex', printAll ex datas = .ok ex' ∧ Holds ex' (txt ++ itemTexts datas) := by
  induction datas generalizing ex txt with
  | nil => exact ⟨ex, rfl, by simpa [itemTexts] using h⟩
  | cons data datas ih =>
      have hcons : itemTexts (data :: datas) = formatDataItem data ++ ascii "," ++ itemTexts datas := List.flatMap_cons
      have hcomma : (ascii ",").length = 1 := by decide
      rw [hcons, List.length_append, List.length_append] at hroom
      obtain ⟨ex1, hex1, h1⟩ := printItem_holds h data (by omega)
      obtain ⟨ex2, hex2, h2⟩ := ih h1 (by rw [List.length_append, List.length_append]; omega)
      refine ⟨ex2, ?_, ?_⟩
      · rw [printAll, List.foldlM_cons, hex1]
        exact hex2
      · rw [hcons, ← List.append_assoc, ← List.append_assoc]
        exact h2

/-- The byte before the cursor. -/
theorem Holds.last (h : Holds ex txt) : ex.buf.get (ex.pSzJson - 1) = (91 :: txt).getLast? := by
  rw [Buffer.get, h.cells, h.cursor, Nat.add_sub_cancel, List.getElem?_append_left (by simp), List.getLast?_eq_getElem?,
    List.length_cons, Nat.add_sub_cancel]

/-- No comma before the cursor: the bracket is written at the cursor. -/
theorem closeJson_at (h : Holds ex txt) (hroom : txt.length + 3 ≤ n) (hlast : (91 :: txt).getLast? ≠ some 44) :
    ∃ b rest, closeJson ex = .ok b ∧ b.cells = 91 :: txt ++ 93 :: 0 :: rest := by
  obtain ⟨k, hk⟩ : ∃ k, n - (txt.length + 1) = k + 2 := ⟨n - (txt.length + 3), by omega⟩
  have hcells := h.cells
  rw [hk, List.replicate_succ, List.replicate_succ] at hcells
  obtain ⟨b, hb, hc⟩ := Buffer.put_append hcells 93
  rw [List.length_cons, ← h.cursor] at hb
  obtain ⟨c, hget⟩ : ∃ c, (91 :: txt).getLast? = some c := ⟨_, List.getLast?_eq_some_getLast (List.cons_ne_nil 91 txt)⟩
  have hne : c ≠ 44 := by
    rintro rfl
    exact hlast hget
  refine ⟨b, List.replicate k 0, ?_, hc⟩
  rw [closeJson, h.last, hget]
  simp only [inside, bind, Except.bind, if_neg hne, hb]

/-- A comma before the cursor: the bracket is written over it. -/
theorem closeJson_over (h : Holds ex (txt ++ [44])) (hroom : txt.length + 3 ≤ n) :
    ∃ b rest, closeJson ex = .ok b ∧ b.cells = 91 :: txt ++ 93 :: 0 :: rest := by
  obtain ⟨k, hk⟩ : ∃ k, n - ((txt ++ [44]).length + 1) = k + 1 := ⟨n - (txt.length + 3), by simp; omega⟩
  have hcells : ex.buf.cells = (91 :: txt) ++ 44 :: 0 :: List.replicate k 0 := by
    rw [h.cells, hk, List.replicate_succ]
    simp
  obtain ⟨b, hb, hc⟩ := Buffer.put_append hcells 93
  have hplace : (91 :: txt).length = ex.pSzJson - 1 := by
    rw [h.cursor, List.length_append, List.length_cons]
    rfl
  rw [hplace] at hb
  have hget : (91 :: (txt ++ [44])).getLast? = some 44 := by rw [← List.cons_append, List.getLast?_concat]
  refine ⟨b, List.replicate k 0, ?_, hc⟩
  rw [closeJson, h.last, hget]
  simp only [inside, bind, Except.bind, if_true, hb]

/-- The last bracket: the buffer holds the body and its terminator. -/
theorem closeJson_eq (h : Holds ex txt) (hroom : txt.length + 3 ≤ n) :
    ∃ b rest, closeJson ex = .ok b ∧ b.cells = lookaroundBody txt ++ 0 :: rest := by
  by_cases hcomma : txt.getLast? = some 44
  · obtain ⟨pre, rfl⟩ := List.getLast?_eq_some_iff.mp hcomma
    rw [List.length_append] at hroom
    obtain ⟨b, rest, hb, hc⟩ := closeJson_over h (by omega)
    refine ⟨b, rest, hb, ?_⟩
    rw [hc, lookaroundBody, if_pos hcomma, List.dropLast_concat]
    simp [ascii]
  · have hlast : (91 :: txt).getLast? ≠ some 44 := by
      cases txt with
      | nil => decide
      | cons c txt =>
          rw [List.getLast?_cons_cons]
          exact hcomma
    obtain ⟨b, rest, hb, hc⟩ := closeJson_at h hroom hlast
    refine ⟨b, rest, hb, ?_⟩
    rw [hc, lookaroundBody, if_neg hcomma]
    simp [ascii]

/-- Commas behind the texts, with a bracket for the last one, are commas between them. -/
theorem lookaroundBody_itemTexts (datas : List NlaDataItem) : lookaroundBody (itemTexts datas) = bodyText datas := by
  cases datas with
  | nil => rfl
  | cons data datas =>
      have hcommas : ∀ data, itemTexts (data :: datas) =
          (ascii ",").intercalate ((data :: datas).map formatDataItem) ++ [44] := by
        induction datas with
        | nil =>
            intro data
            simp [itemTexts, List.intercalate, ascii]
        | cons data' datas ih =>
            intro data
            rw [itemTexts, List.flatMap_cons, ← itemTexts, ih data']
            simp [List.intercalate, ascii]
      rw [hcommas data, lookaroundBody, List.getLast?_concat, if_pos rfl, List.dropLast_concat, bodyText]

theorem length_itemTexts_le (hids : ∀ data ∈ datas, data.achId.length ≤ dataIdMaxLen) :
    (itemTexts datas).length ≤ 186 * datas.length := by
  induction datas with
  | nil => exact Nat.le_refl 0
  | cons data datas ih =>
      have hlen := length_formatDataItem_le (hids data List.mem_cons_self)
      have hrest := ih fun d hd => hids d (List.mem_cons_of_mem data hd)
      have hcomma : (ascii ",").length = 1 := by decide
      rw [itemTexts, List.flatMap_cons, ← itemTexts, List.length_append, List.length_append, List.length_cons]
      omega

theorem noNul_bodyText (datas : List NlaDataItem) : 0 ∉ bodyText datas := by
  have htexts : 0 ∉ itemTexts datas := by
    intro hmem
    obtain ⟨data, -, hdata⟩ := List.mem_flatMap.mp hmem
    rcases List.mem_append.mp hdata with htext | hcomma
    · exact noNul_formatDataItem data htext
    · exact absurd hcomma (by decide)
  rw [← lookaroundBody_itemTexts, lookaroundBody]
  split_ifs
  · simp only [List.mem_append, not_or]
    exact ⟨⟨by decide, fun hmem => htexts (List.mem_of_mem_dropLast hmem)⟩, by decide⟩
  · simp only [List.mem_append, not_or]
    exact ⟨⟨by decide, htexts⟩, by decide⟩

/-- The body of any items with ids of at most 32 bytes: a buffer for `iCount` of them is enough. -/
theorem itemsJson_eq {iCount : Nat} (h0 : 0 < iCount) (hlen : datas.length ≤ iCount)
    (hids : ∀ data ∈ datas, data.achId.length ≤ dataIdMaxLen) :
    ∃ b, itemsJson iCount datas = .ok b ∧ (CStr.ofBuffer b.cells).bytes = bodyText datas := by
  have hsize : 0 < iCount * dataJsonLen := Nat.mul_pos h0 (by decide)
  have htexts := length_itemTexts_le hids
  have hroom : (itemTexts datas).length + 3 ≤ iCount * dataJsonLen := by
    rw [dataJsonLen]
    omega
  obtain ⟨ex, hex, hopen, -⟩ := openJson_holds hsize
  have hroom' : ([] : Bytes).length + (itemTexts datas).length + 2 ≤ iCount * dataJsonLen := by
    rw [List.length_nil]
    omega
  obtain ⟨ex', hex', hall⟩ := printAll_holds hopen hroom'
  rw [List.nil_append] at hall
  obtain ⟨b, rest, hb, hcells⟩ := closeJson_eq hall hroom
  refine ⟨b, ?_, ?_⟩
  · simp only [itemsJson, hex, hex', bind, Except.bind]
    exact hb
  · rw [hcells, lookaroundBody_itemTexts]
    exact CStr.ofBuffer_append_nul (noNul_bodyText datas) rest

end Printing

/-! ## The query -/

section Traces

variable {n : Nat} {conf : Conf} {s : NlaCoreData} {rc : NlaRect} {iStatus iType : Int32} {iMaxCount : Int}
  {ex ex' ex'' : NlaExParam} {f g : JsonParam n → Except Fault (JsonParam n)}

theorem count_printItem {exj exj' : JsonParam n} {data : NlaDataItem} (h : printItem data exj = .ok exj') :
    exj'.count = exj.count + 1 := by
  obtain ⟨b1, -, h⟩ := Library.bind_eq_ok.mp h
  obtain ⟨len, -, h⟩ := Library.bind_eq_ok.mp h
  obtain ⟨b2, -, h⟩ := Library.bind_eq_ok.mp h
  obtain ⟨b3, -, h⟩ := Library.bind_eq_ok.mp h
  cases h
  rfl

theorem printAll_append (exj : JsonParam n) (datas datas' : List NlaDataItem) :
    printAll exj (datas ++ datas') = (printAll exj datas).bind fun exj => printAll exj datas' := List.foldlM_append

theorem count_printAll {exj exj' : JsonParam n} {datas : List NlaDataItem} (h : printAll exj datas = .ok exj') :
    exj'.count = exj.count + datas.length := by
  induction datas generalizing exj with
  | nil =>
      cases h
      simp
  | cons data datas ih =>
      rw [printAll, List.foldlM_cons] at h
      obtain ⟨exj1, h1, h⟩ := Library.bind_eq_ok.mp h
      rw [ih h, count_printItem h1, List.length_cons]
      omega

/-- From `ex` to `ex'` the query printed records of data nodes, not more than `iMaxCount` altogether, and `f` is
printing them into the buffer. -/
def Traces (s : NlaCoreData) (iMaxCount : Int) (ex ex' : NlaExParam) (f : JsonParam n → Except Fault (JsonParam n)) :
    Prop :=
  ∃ l : List Entry, ex' = ex.emitAll l ∧ (∀ e ∈ l, s.item e.1 = some e.2) ∧
    (ex.count ≤ iMaxCount → ex'.count ≤ iMaxCount) ∧
    ∀ exj, exj.count = ex.count → f exj = printAll exj (l.map Prod.snd)

theorem Traces.refl (hf : ∀ exj, exj.count = ex.count → f exj = .ok exj) : Traces s iMaxCount ex ex f :=
  ⟨[], rfl, fun _ he => absurd he List.not_mem_nil, id, hf⟩

theorem Traces.trans (h : Traces s iMaxCount ex ex' f) (h' : Traces s iMaxCount ex' ex'' g) :
    Traces s iMaxCount ex ex'' fun exj => (f exj).bind g := by
  obtain ⟨l, rfl, hl, hle, hf⟩ := h
  obtain ⟨l', rfl, hl', hle', hg⟩ := h'
  refine ⟨l ++ l', (emitAll_append ex l l').symm, fun e he => ?_, fun hc => hle' (hle hc), fun exj hc => ?_⟩
  · rcases List.mem_append.mp he with he | he
    · exact hl e he
    · exact hl' e he
  · change (f exj).bind g = _
    rw [hf exj hc, List.map_append, printAll_append]
    cases hprint : printAll exj (l.map Prod.snd) with
    | error e => rfl
    | ok exj' =>
        refine hg exj' ?_
        rw [count_printAll hprint, count_emitAll, hc, List.length_map]

theorem Traces.congr (h : Traces s iMaxCount ex ex' f) (hfg : ∀ exj, exj.count = ex.count → g exj = f exj) :
    Traces s iMaxCount ex ex' g := by
  obtain ⟨l, hl, hitem, hle, hf⟩ := h
  exact ⟨l, hl, hitem, hle, fun exj hc => (hfg exj hc).trans (hf exj hc)⟩

theorem visitItem_traces {d : DataPtr} {data : NlaDataItem} (hitem : s.item d = some data)
    (hcount : ex.count < iMaxCount) :
    Traces s iMaxCount ex (if passes rc iStatus iType data then emit ex d data else ex)
      (visitItem (n := n) rc iStatus iType data) := by
  split_ifs with hpass
  · refine ⟨[(d, data)], rfl, fun e he => ?_, fun _ => ?_, fun exj _ => ?_⟩
    · rw [List.mem_singleton.mp he]
      exact hitem
    · simp only [emit]
      omega
    · rw [visitItem, if_pos hpass]
      exact (bind_pure (printItem data exj)).symm
  · exact .refl fun exj _ => if_neg hpass

theorem leafLoopJson_traces {fuel : Nat} {q : Option DataPtr}
    (h : s.leafLoop rc iStatus iType iMaxCount fuel q ex = .ok ex') :
    Traces s iMaxCount ex ex' (leafLoopJson (n := n) s rc iStatus iType iMaxCount fuel q) := by
  induction fuel generalizing q ex with
  | zero => cases h
  | succ fuel ih =>
      unfold leafLoop at h
      split_ifs at h with hcount
      · cases q with
        | none =>
            cases h
            refine .refl fun exj hc => ?_
            rw [leafLoopJson, hc, if_pos hcount]
        | some d =>
            obtain ⟨node, hn, h⟩ := Library.bind_eq_ok.mp h
            have hitem : s.item d = some node.data := by rw [item, getElem?_of_dataAt hn, Option.map_some]
            refine ((visitItem_traces hitem hcount).trans (ih h)).congr fun exj hc => ?_
            rw [leafLoopJson, hc, if_pos hcount, hn]
            rfl
      · cases h
        refine .refl fun exj hc => ?_
        unfold leafLoopJson
        rw [hc, if_neg hcount]

theorem foldlM_traces {f : NlaExParam → Fin 4 → Except Fault NlaExParam}
    {g : JsonParam n → Fin 4 → Except Fault (JsonParam n)}
    (hfg : ∀ ex i ex', f ex i = .ok ex' → Traces s iMaxCount ex ex' fun exj => g exj i) {is : List (Fin 4)}
    (h : is.foldlM f ex = .ok ex') : Traces s iMaxCount ex ex' fun exj => is.foldlM g exj := by
  induction is generalizing ex with
  | nil =>
      cases h
      exact .refl fun _ _ => rfl
  | cons i is ih =>
      rw [List.foldlM_cons] at h
      obtain ⟨ex1, h1, h⟩ := Library.bind_eq_ok.mp h
      refine ((hfg ex i ex1 h1).trans (ih h)).congr fun exj _ => ?_
      rw [List.foldlM_cons]
      rfl

/-- A child: read, and entered when its rectangle meets the one of the query. -/
theorem childJson_traces {child : Option MapPtr} {go : MapPtr → NlaRect → NlaExParam → Except Fault NlaExParam}
    {goJson : MapPtr → NlaRect → JsonParam n → Except Fault (JsonParam n)}
    (hgo : ∀ p newRc, go p newRc ex = .ok ex' → Traces s iMaxCount ex ex' (goJson p newRc))
    (h : (do
      let p ← nonNull child
      let c ← s.mapAt p
      match intersectRc c.rc rc with
      | none => return ex
      | some newRc => go p newRc ex) = .ok ex') :
    Traces s iMaxCount ex ex' (fun exj => do
      let p ← nonNull child
      let c ← s.mapAt p
      match intersectRc c.rc rc with
      | none => return exj
      | some newRc => goJson p newRc exj) := by
  obtain ⟨p, hp, h⟩ := Library.bind_eq_ok.mp h
  obtain ⟨c, hc, h⟩ := Library.bind_eq_ok.mp h
  cases hrc : intersectRc c.rc rc with
  | none =>
      simp only [hrc] at h
      cases h
      refine .refl fun exj _ => ?_
      simp only [hp, hc, hrc, bind, Except.bind]
      rfl
  | some newRc =>
      simp only [hrc] at h
      refine (hgo p newRc h).congr fun exj _ => ?_
      simp only [hp, hc, hrc, bind, Except.bind]

/-- **The checked query prints what the model's query prints.** -/
theorem getAroundDataJson_traces {fuel : Nat} {p : Option MapPtr}
    (h : s.getAroundData conf iStatus iType iMaxCount fuel p rc ex = .ok ex') :
    Traces s iMaxCount ex ex' (getAroundDataJson (n := n) conf s iStatus iType iMaxCount fuel p rc) := by
  induction fuel generalizing p rc ex ex' with
  | zero => cases h
  | succ fuel ih =>
      cases p with
      | none =>
          cases h
          exact .refl fun _ _ => rfl
      | some p =>
          rw [getAroundData] at h
          obtain ⟨m, hm, h⟩ := Library.bind_eq_ok.mp h
          -- both sides read the same node and take the same branch
          split_ifs at h with hzero hleaf hbare
          · cases h
            refine .refl fun exj _ => ?_
            rw [getAroundDataJson, hm]
            exact if_pos hzero
          · refine (leafLoopJson_traces h).congr fun exj _ => ?_
            rw [getAroundDataJson, hm]
            exact (if_neg hzero).trans (if_pos hleaf)
          · cases h
            refine .refl fun exj _ => ?_
            rw [getAroundDataJson, hm]
            exact (if_neg hzero).trans ((if_neg hleaf).trans (if_pos hbare))
          · refine (foldlM_traces (fun ex i ex' hi => childJson_traces (fun p newRc => ih) hi) h).congr fun exj _ => ?_
            rw [getAroundDataJson, hm]
            exact (if_neg hzero).trans ((if_neg hleaf).trans (if_neg hbare))

end Traces

/-! ## The body -/

end Lookaround
