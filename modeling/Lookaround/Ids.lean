import Lookaround.Output

/-!
# Where the bytes of an id go

The handlers copy an id into `achIDBuf`, and `setdataloc` copies it on into `ach_id`, each time with a terminator. Both
arrays have as many bytes as the longest id that passes the check.

* `copyIdArg`, `strcpy` : the copies, in arrays that are checked;
* `writeItem` : the writes of a new item, in the layout of `nla_data_item`; `writeItem_eq` : they leave the memory the
  model gives the item;
* `idText_eq_iff` : when the id is printed as it was stored;
* `IdSurvives` : the copies stay inside, and the item is found and printed with its id; `id_survives_iff` : which ids do.
-/

namespace Lookaround

open NlaCoreData Library

/-! ## Copies -/

/-- `memcpy( achIDBuf, sID.data, sID.len )` and the terminator. -/
def copyIdArg (achIDBuf : Buffer UInt8 dataIdMaxLen) (sID : Bytes) : Option (Buffer UInt8 dataIdMaxLen) := do
  let achIDBuf ← achIDBuf.putAll 0 sID
  achIDBuf.put sID.length 0

/-- `strcpy`, from the first cell on. -/
def strcpy {n : Nat} (dest : Buffer UInt8 n) (src : CStr) : Option (Buffer UInt8 n) := dest.putAll 0 (src.bytes ++ [0])

theorem copyIdArg_eq (achIDBuf : Buffer UInt8 dataIdMaxLen) (sID : Bytes) :
    copyIdArg achIDBuf sID = achIDBuf.putAll 0 (sID ++ [0]) := by
  rw [copyIdArg, Buffer.putAll_append, Nat.zero_add]
  simp only [Buffer.putAll_singleton]
  rfl

/-! ## The memory of an item -/

/-- `sizeof( nla_data_item )`. -/
def dataItemSize : Nat := 56

/-- The writes of `setdataloc` to the zeroed memory of a new item, at the offsets of `ach_id`, `i_status`, `i_type` and
the two members of `loc`. -/
def writeItem (pcszID : CStr) (loc : Nla2dloc) (iStatus iType : Int32) : Option (Buffer UInt8 dataItemSize) := do
  let m ← strcpy (Buffer.replicate dataItemSize 0) pcszID
  let m ← m.putAll 32 (intBytes iStatus)
  let m ← m.putAll 36 (intBytes iType)
  let m ← m.putAll 40 (intBytes loc.lat)
  m.putAll 44 (intBytes loc.lon)

/-- **The writes of a new item** stay inside for every id that is accepted, and leave the memory of the model's item:
the terminator of an id of 32 bytes is on `i_status`, and the status is written over it. -/
theorem writeItem_eq {pcszID : CStr} (hlen : pcszID.bytes.length ≤ dataIdMaxLen) (loc : Nla2dloc)
    (iStatus iType : Int32) :
    ∃ m, writeItem pcszID loc iStatus iType = some m ∧
      m.cells = (newDataNode pcszID loc iStatus iType).data.memory := by
  have hid : (strcpyId pcszID).length = 32 := length_strcpyId pcszID
  have hroom : (pcszID.bytes ++ [0]).length ≤ dataItemSize := by
    rw [List.length_append]
    exact Nat.succ_le_succ (hlen.trans (by decide))
  obtain ⟨m0, hm0, hc0⟩ := Buffer.putAll_zero (b := Buffer.replicate dataItemSize (0 : UInt8)) hroom
  have hcells0 : m0.cells = strcpyId pcszID ++ List.replicate 24 0 := by
    rw [hc0, strcpyId_eq hlen, Buffer.replicate, List.drop_replicate, List.length_append, List.append_assoc,
      List.append_assoc, List.replicate_append_replicate, List.append_cancel_left_eq, List.singleton_append,
      ← List.replicate_succ, dataItemSize, List.length_singleton]
    rw [dataIdMaxLen] at hlen ⊢
    congr 1
    omega
  -- the stores behind `ach_id` are one behind the other
  obtain ⟨m, hm, hc⟩ := Buffer.putAll_eq_some hcells0
    (l := intBytes iStatus ++ intBytes iType ++ intBytes loc.lat ++ intBytes loc.lon) (by simp)
  refine ⟨m, ?_, ?_⟩
  · rw [hid, Buffer.putAll_append, Buffer.putAll_append, Buffer.putAll_append, Option.bind_assoc, Option.bind_assoc] at hm
    simp only [List.length_append, length_intBytes] at hm
    simp only [writeItem, strcpy, hm0, bind, Option.bind_some]
    exact hm
  · rw [hc, NlaDataItem.memory]
    simp only [newDataNode, List.append_assoc]
    rfl

/-- An id below 32 bytes is printed as it was stored; one of 32 bytes when the low byte of the status ends it. -/
theorem idText_eq_iff {id : CStr} {data : NlaDataItem} (hname : data.achId = strcpyId id)
    (hlen : id.bytes.length ≤ dataIdMaxLen) :
    data.idText = id.bytes ↔ id.bytes.length < dataIdMaxLen ∨ data.iStatus.toUInt32.toUInt8 = 0 := by
  rcases Nat.lt_or_eq_of_le hlen with hlt | heq
  · exact iff_of_true (idText_eq hname hlt) (Or.inl hlt)
  · have hfull : strcpyId id = id.bytes := by
      rw [strcpyId_eq hlen, heq, Nat.sub_self, List.replicate_zero, List.append_nil]
    obtain ⟨rest, hrest⟩ : ∃ rest, data.memory = id.bytes ++ data.iStatus.toUInt32.toUInt8 :: rest := by
      rw [NlaDataItem.memory, hname, hfull, intBytes]
      simp only [List.append_assoc, List.cons_append]
      exact ⟨_, rfl⟩
    have hread : data.idText =
        id.bytes ++ (data.iStatus.toUInt32.toUInt8 :: rest).takeWhile (· ≠ 0) := by
      rw [NlaDataItem.idText, hrest, CStr.ofBuffer]
      refine List.takeWhile_append_of_pos fun b hb => ?_
      rw [decide_eq_true_eq]
      rintro rfl
      exact id.noNul hb
    rw [hread]
    by_cases hlow : data.iStatus.toUInt32.toUInt8 = 0
    · simp [hlow]
    · simp [hlow, heq]

/-! ## Runs of requests -/

variable {conf : Conf} {s s' : NlaCoreData} {ops : List SetItem} {r : Request} {rs : List Request} {iHashSize : Nat}

/-- The id and its terminator stay inside `achIDBuf`, whatever this holds, and inside the zeroed `ach_id`; the item is
found and printed with exactly the id. `getitem` answers with that text where the coordinates fit their own buffers. -/
structure IdSurvives (s : NlaCoreData) (sID : Bytes) : Prop where
  argument : ∀ achIDBuf, ∃ b, copyIdArg achIDBuf sID = some b ∧ (CStr.ofBuffer b.cells).bytes = sID
  field : ∃ b, strcpy (Buffer.replicate dataIdMaxLen 0) (CStr.ofBuffer sID) = some b ∧
    (CStr.ofBuffer b.cells).bytes = sID
  reported : ∃ d data, s.getdatanode (CStr.ofBuffer sID) = some d ∧ s.item d = some data ∧ data.idText = sID ∧
    ∀ r, r.isGet = true → idArg r = some (CStr.ofBuffer sID) → data.loc.fits = true →
      getitem s r = .ok (.body (formatDataItem data) .json)

/-- A run keeps the ids of the map and adds those of its calls. -/
theorem runSets_held (hinv : Inv conf s) (hrun : runSets conf s ops = .ok s') {id : CStr}
    (h : (∃ d, s.getdatanode id = some d) ∨ ∃ op ∈ ops, op.id = id) : ∃ d, s'.getdatanode id = some d := by
  induction ops generalizing s with
  | nil =>
      cases hrun
      exact h.resolve_right (by simp)
  | cons op ops ih =>
      obtain ⟨s1, hs, hrun⟩ := Library.run_cons_eq_ok.mp hrun
      obtain ⟨hstep, hinv1⟩ := applySet_inv hinv hs
      obtain ⟨d, data, heff⟩ := hstep.effect hinv
      have hw := heff.toWrote
      refine ih hinv1 hrun ?_
      by_cases hid : id = op.id
      · exact Or.inl ⟨d, by rw [hid, hw.get_self]⟩
      · rcases h with ⟨e, he⟩ | ⟨op', hop', heq⟩
        · exact Or.inl ⟨e, by rw [hw.get, Function.update_of_ne hid, he]⟩
        · rcases List.mem_cons.mp hop' with rfl | hmem
          · exact absurd heq.symm hid
          · exact Or.inr ⟨op', hmem, heq⟩

/-- **Which ids survive.** After every run of requests with an accepted `setitem` for the id among them, whatever its
status and type: the copies of the id stay inside and `getitem` reports it, exactly when the id is shorter than
`NLA_DATA_ID_MAX_LEN`. -/
theorem id_survives_iff (h0 : 0 < iHashSize) (hrun : runRequests conf (initCoreData iHashSize h0) rs = .ok s)
    (hr : r ∈ rs) {sID sLat sLon : Bytes} (hid : ngxHttpArg r.args (ascii "id") = some sID) (hpos : sID ≠ [])
    (hlen : sID.length ≤ dataIdMaxLen) (hnul : 0 ∉ sID) (hlat : ngxHttpArg r.args (ascii "lat") = some sLat)
    (hlon : ngxHttpArg r.args (ascii "lon") = some sLon) :
    IdSurvives s sID ↔ sID.length < dataIdMaxLen := by
  have hbytes : (CStr.ofBuffer sID).bytes = sID := CStr.ofBuffer_eq_of_noNul hnul
  constructor
  · rintro ⟨-, hfield, -⟩
    rw [strcpy, hbytes] at hfield
    exact (putAll_terminated _ hnul).mp hfield
  · intro hlt
    obtain ⟨op, hop, hopid, -⟩ := setitemArgs_of_args hid hpos hlen hlat hlon
    have hinv := runRequests_inv h0 hrun
    rw [runRequests_eq] at hrun
    have hmem : ∃ op' ∈ callsOf rs, op'.id = CStr.ofBuffer sID := ⟨op, List.mem_filterMap.mpr ⟨r, hr, hop⟩, hopid⟩
    obtain ⟨d, hd⟩ := runSets_held (inv_init conf iHashSize h0) hrun (Or.inr hmem)
    obtain ⟨data, hdata, hname⟩ := hinv.names _ d hd
    refine ⟨fun achIDBuf => ?_, ?_, d, data, hd, hdata, ?_, fun r' hget hid' hfits => ?_⟩
    · rw [copyIdArg_eq]
      exact (putAll_terminated achIDBuf hnul).mpr hlt
    · rw [strcpy, hbytes]
      exact (putAll_terminated _ hnul).mpr hlt
    · have hprint := (idText_eq_iff hname (by rw [hbytes]; exact hlen)).mpr (Or.inl (by rw [hbytes]; exact hlt))
      rw [hprint, hbytes]
    · rw [getitem_eq hid' hd hdata, if_pos hfits, renderOutput, if_pos hget]

theorem id_survives_short : ∃ s,
    runRequests ⟨1⟩ (initCoreData 1 Nat.one_pos) [getRequest "id=a&lat=5.5&lon=120&status=1"] = .ok s ∧
      IdSurvives s (ascii "a") := by
  obtain ⟨s, hs⟩ : ∃ s,
      runRequests ⟨1⟩ (initCoreData 1 Nat.one_pos) [getRequest "id=a&lat=5.5&lon=120&status=1"] = .ok s := ⟨_, rfl⟩
  exact ⟨s, hs, (id_survives_iff Nat.one_pos hs (List.mem_singleton_self _) rfl (by decide) (by decide) (by decide) rfl
    rfl).mpr (by decide)⟩

set_option maxRecDepth 2000 in
/-- An id of 32 bytes, as the tests use them, with a status that is not zero: the terminator falls behind both arrays,
and the status is printed behind the id. -/
theorem id_of_32_bytes : ∃ s d data,
    runRequests ⟨1⟩ (initCoreData 1 Nat.one_pos)
      [getRequest "id=d0e3f836c81011e28497f23c91aec05e&lat=5.5&lon=120&status=65"] = .ok s ∧
    (∀ achIDBuf, copyIdArg achIDBuf (ascii "d0e3f836c81011e28497f23c91aec05e") = none) ∧
    s.getdatanode (CStr.ofBuffer (ascii "d0e3f836c81011e28497f23c91aec05e")) = some d ∧ s.item d = some data ∧
    data.idText = ascii "d0e3f836c81011e28497f23c91aec05eA" ∧
    ¬ IdSurvives s (ascii "d0e3f836c81011e28497f23c91aec05e") := by
  have hcopy : ∀ achIDBuf, copyIdArg achIDBuf (ascii "d0e3f836c81011e28497f23c91aec05e") = none := by
    intro achIDBuf
    rw [copyIdArg_eq]
    exact achIDBuf.putAll_eq_none (by decide) (by decide)
  refine ⟨_, _, _, rfl, hcopy, rfl, rfl, by decide +kernel, ?_⟩
  rintro ⟨hargument, -, -⟩
  obtain ⟨b, hb, -⟩ := hargument (Buffer.replicate dataIdMaxLen 0)
  rw [hcopy] at hb
  cases hb

end Lookaround
