import Lookaround.StrHistory

/-!
# Maps of strings

`sm_put` copies its value into a block of the pool, into the block that is there when the new text is not longer than the
old one. `sm_get` copies it out, after a call that asks for the size.

* `Stands.smPut_cases` : one call, with every outcome of its allocations;
* `Stands.smGet_ok` : the size first, then the text;
* `sm_history` : whole histories.
-/

namespace Lookaround

namespace Pooled

open Library Pool StrMap

variable {h h' h0 : Pool (Block Addr)} {L : Layout Addr} {m : StrMap CStr} {key value : CStr} {alloc : PutAllocs}
  {lot : Lot Addr} {a i : Nat} {p : Pair Addr} {q : Lookaround.Pair CStr}

/-! ## A key that is there -/

/-- The value of a pair that was found. -/
theorem FoundAt.text (hf : FoundAt strings h m key lot a i p q) : ∃ v s, p.value = some v ∧ q.value = some s ∧ TextAt h v s ∧
    Lookaround.smGetPtrvalue m key = some s := by
  have hv := hf.stands.value
  obtain ⟨s, hs⟩ := Option.isSome_iff_exists.mp (isMatch_iff.mp hf.isMatch).2
  rw [hs] at hv
  cases hp : p.value with
  | none =>
      rw [hp] at hv
      cases hv
  | some v =>
      rw [hp] at hv
      cases hv with
      | some ht =>
          refine ⟨v, s, rfl, hs, ht, ?_⟩
          rw [Lookaround.smGetPtrvalue, hf.get]
          exact hs

/-- The text of a pair, in its old block or in another one. -/
theorem Stands.rewrite (hs : Stands strings h0 h L m) (hlot : L.lots[m.index key]? = some lot)
    (hls : LotStands strings h lot (m.bucket key)) (hf : FoundAt strings h m key lot a i p q) {v : Nat}
    (howns : Owns h0 h' (v :: (p.key.toList ++ (lot.others strings i ++ L.others strings (m.index key)))))
    (harr : h'.load a = some (.pairs (lot.pairs.set i { p with value := some v }))) (htext : TextAt h' v value)
    (hframe : ∀ c ∈ p.key.toList ++ (lot.others strings i ++ L.others strings (m.index key)), c ≠ a →
      h'.load c = h.load c) :
    Stands strings h0 h' (L.setLot (m.index key) (lot.setPair i { p with value := some v }))
      (m.setBucket key (writePair key (fun pair => { pair with value := some value }) (m.bucket key))) := by
  rw [writePair_eq_set hf.index hf.item]
  have harr_mem : a ∈ lot.others strings i := List.mem_append_left _ (by simp [hf.arr])
  have hnd := (List.nodup_cons.mp howns.nodup).2
  have hkey : ∀ c ∈ p.key.toList, c ≠ a := fun c hc =>
    (List.nodup_append.mp hnd).2.2 c hc a (List.mem_append_left _ harr_mem)
  refine hs.change_pair hlot hls hf.arr hf.pair ?_ harr ⟨?_, .some htext⟩ fun c hc => ?_
  · refine howns.perm ?_
    simp only [Pair.blocks, strings, Option.elim_some, List.append_assoc]
    exact List.perm_middle.symm
  · exact key_congr (fun c hc => hframe c (List.mem_append_left _ hc) (hkey c hc)) hf.stands.key
  · exact hframe c (List.mem_append_right _ hc)

/-- The blocks of the map, with that of the text of a pair in front. -/
theorem Stands.owns_text {v : Nat} (hs : Stands strings h0 h L m) (hlot : L.lots[m.index key]? = some lot)
    (hpair : lot.pairs[i]? = some p) (hpv : p.value = some v) :
    Owns h0 h (v :: (p.key.toList ++ (lot.others strings i ++ L.others strings (m.index key)))) := by
  refine (hs.blocks_pair hlot hpair).perm ?_
  simp only [Pair.blocks, hpv, strings, Option.elim_some, List.append_assoc]
  exact List.perm_middle

/-- The array of the bucket is one of the blocks besides the text. -/
theorem FoundAt.arr_mem (hf : FoundAt strings h m key lot a i p q) (l : List Nat) :
    a ∈ p.key.toList ++ (lot.others strings i ++ l) :=
  List.mem_append_right _ (List.mem_append_left _ (List.mem_append_left _ (by simp [hf.arr])))

/-- A longer text: its block is resized to it. -/
theorem Stands.lengthenText_cases (hs : Stands strings h0 h L m) (alloc : PutAllocs) (value : CStr)
    (hlot : L.lots[m.index key]? = some lot) (hls : LotStands strings h lot (m.bucket key))
    (hf : FoundAt strings h m key lot a i p q) {v : Nat} (hpv : p.value = some v) {s rest : Bytes}
    (htext : h.load v = some (.chars (s ++ 0 :: rest))) :
    (alloc.resize = .refused ∧ lengthenText alloc h lot.raw i p v (s ++ 0 :: rest) value = .ok (false, h)) ∨
      (alloc.resize ≠ .refused ∧ ∃ h' L', lengthenText alloc h lot.raw i p v (s ++ 0 :: rest) value = .ok (true, h') ∧
        L'.self = L.self ∧ Stands strings h0 h' L'
          (m.setBucket key (writePair key (fun pair => { pair with value := some value }) (m.bucket key)))) := by
  have harr_mem := hf.arr_mem (L.others strings (m.index key))
  let longer : Bytes := (s ++ 0 :: rest ++ List.replicate value.bytes.length 0).take (value.bytes.length + 1)
  have hcells : value.bytes.length + 1 ≤ longer.length := by
    simp only [longer, List.length_take, List.length_append, List.length_cons, List.length_replicate]
    omega
  rcases mmRealloc_cases (r := alloc.resize) (hs.owns_text hlot hf.pair hpv) htext (.chars longer) with
    ⟨hr, hre⟩ | ⟨v', h1, hre, ho1, hload1, hframe1⟩
  · left
    refine ⟨hr, ?_⟩
    simp only [longer] at hre
    simp only [lengthenText, hre, bind, Except.bind, pure, Except.pure]
  · right
    have hi : i < lot.pairs.length := (List.getElem?_eq_some_iff.mp hf.pair).1
    have hav : a ≠ v' := ne_of_mem_of_not_mem harr_mem (List.nodup_cons.mp ho1.nodup).1
    have harr1 : h1.load a = some (.pairs lot.pairs) := by rw [hframe1 a harr_mem, hf.load]
    obtain ⟨h2, hset, hload2⟩ := setPair_ok lot.raw hf.arr harr1 hi { p with value := some v' }
    have hload2v : h2.load v' = some (.chars longer) := by rw [hload2, if_neg (Ne.symm hav), hload1]
    obtain ⟨h3, hcpy, htext3, hload3⟩ := strcpyTo_ok value hload2v hcells
    refine ⟨?_, h3, L.setLot (m.index key) (lot.setPair i { p with value := some v' }), ?_, rfl, ?_⟩
    · intro hr
      rw [hr] at hre
      cases hre
    · simp only [longer] at hre
      simp only [lengthenText, hre, hset, hcpy, bind, Except.bind, pure, Except.pure]
    · refine hs.rewrite hlot hls hf ((ho1.store (List.mem_cons_of_mem _ harr_mem) hload2).store List.mem_cons_self hload3)
        ?_ htext3 fun c hc hca => ?_
      · rw [hload3, if_neg hav, hload2, if_pos rfl]
      · rw [hload3, if_neg (ne_of_mem_of_not_mem hc (List.nodup_cons.mp ho1.nodup).1), hload2, if_neg hca, hframe1 c hc]

/-- A text that is not longer goes into the block that is there. -/
theorem Stands.overwriteText (hs : Stands strings h0 h L m) (value : CStr) (hlot : L.lots[m.index key]? = some lot)
    (hls : LotStands strings h lot (m.bucket key)) (hf : FoundAt strings h m key lot a i p q) {v : Nat}
    (hpv : p.value = some v) {cells : Bytes} (htext : h.load v = some (.chars cells))
    (hcells : value.bytes.length + 1 ≤ cells.length) :
    ∃ h' L', strcpyTo h v value = .ok h' ∧ L'.self = L.self ∧ Stands strings h0 h' L'
      (m.setBucket key (writePair key (fun pair => { pair with value := some value }) (m.bucket key))) := by
  have hown := hs.owns_text hlot hf.pair hpv
  obtain ⟨h1, hcpy, htext1, hload1⟩ := strcpyTo_ok value htext hcells
  have hav : a ≠ v :=
    ne_of_mem_of_not_mem (hf.arr_mem (L.others strings (m.index key))) (List.nodup_cons.mp hown.nodup).1
  refine ⟨h1, L.setLot (m.index key) (lot.setPair i { p with value := some v }), hcpy, rfl, ?_⟩
  refine hs.rewrite hlot hls hf (hown.store List.mem_cons_self hload1) ?_ htext1 fun c hc _ => ?_
  · -- the pair itself is not written
    have hsame : { p with value := some v } = p := by
      obtain ⟨pkey, pvalue⟩ := p
      cases hpv
      rfl
    rw [hload1, if_neg hav, hf.load, hsame, ← (List.getElem?_eq_some_iff.mp hf.pair).2, List.set_getElem_self]
  · rw [hload1, if_neg (ne_of_mem_of_not_mem hc (List.nodup_cons.mp hown.nodup).1)]

/-- With a longer text the block is resized, else the text is written over the old one. -/
theorem Stands.replaceText_cases (hs : Stands strings h0 h L m) (alloc : PutAllocs) (value : CStr)
    (hlot : L.lots[m.index key]? = some lot) (hls : LotStands strings h lot (m.bucket key))
    (hf : FoundAt strings h m key lot a i p q) {s : CStr} (hget : Lookaround.smGetPtrvalue m key = some s) :
    (s.bytes.length < value.bytes.length ∧ alloc.resize = .refused ∧
        replaceText alloc h lot.raw i p value = .ok (false, h)) ∨
      (¬ (s.bytes.length < value.bytes.length ∧ alloc.resize = .refused) ∧
        ∃ h' L', replaceText alloc h lot.raw i p value = .ok (true, h') ∧ L'.self = L.self ∧ Stands strings h0 h' L'
          (m.setBucket key (writePair key (fun pair => { pair with value := some value }) (m.bucket key)))) := by
  obtain ⟨v, s', hpv, -, ⟨rest, htext⟩, hget'⟩ := hf.text
  obtain rfl : s' = s := Option.some.inj (hget'.symm.trans hget)
  by_cases hlen : s'.bytes.length < value.bytes.length
  · have hrun : replaceText alloc h lot.raw i p value =
        lengthenText alloc h lot.raw i p v (s'.bytes ++ 0 :: rest) value := by
      simp only [replaceText, hpv, nonNull, Option.elim_some, charsAt_ok htext, strlen_eq s'.noNul, checked, bind,
        Except.bind, if_pos hlen]
    rw [hrun]
    rcases hs.lengthenText_cases alloc value hlot hls hf hpv htext with ⟨hr, hre⟩ | ⟨hr, hre⟩
    · exact Or.inl ⟨hlen, hr, hre⟩
    · exact Or.inr ⟨fun hc => hr hc.2, hre⟩
  · right
    refine ⟨fun hc => hlen hc.1, ?_⟩
    have hcells : value.bytes.length + 1 ≤ (s'.bytes ++ 0 :: rest).length := by
      simp only [List.length_append, List.length_cons]
      omega
    obtain ⟨h1, L1, hcpy, hself, hs1⟩ := hs.overwriteText value hlot hls hf hpv htext hcells
    refine ⟨h1, L1, ?_, hself, hs1⟩
    simp only [replaceText, hpv, nonNull, Option.elim_some, charsAt_ok htext, strlen_eq s'.noNul, checked, bind,
      Except.bind, if_neg hlen, hcpy, pure, Except.pure]

/-! ## A new key -/

/-- The text of a new value is the last to be written: its pair is in the map, and the block `v` is to have the text. -/
theorem Stands.snoc_text (hs : Stands strings h0 h L m) (hlot : L.lots[m.index key]? = some lot)
    (hls : LotStands strings h lot (m.bucket key)) {k v : Nat}
    (howns : Owns h0 h' (a :: (lot.pairs.flatMap (Pair.blocks strings) ++ k :: v :: L.others strings (m.index key))))
    (htab : h'.load L.table = some (.buckets ((L.lots.map Lot.raw).set (m.index key) ⟨lot.pairs.length + 1, some a⟩)))
    (harr : h'.load a = some (.pairs (lot.pairs ++ [⟨some k, some v⟩]))) (htext : TextAt h' k key)
    (hv : h'.load v = some (.chars (List.replicate (value.bytes.length + 1) 0)))
    (hframe : ∀ c ∈ lot.pairs.flatMap (Pair.blocks strings) ++ L.others strings (m.index key), c ≠ L.table →
      h'.load c = h.load c) :
    ∃ h3, strcpyTo h' v value = .ok h3 ∧ Stands strings h0 h3
      (L.setLot (m.index key) ⟨some a, lot.pairs ++ [⟨some k, some v⟩]⟩)
      (m.setBucket key (m.bucket key ++ [⟨some key, some value⟩])) := by
  obtain ⟨hanot, hnd⟩ := List.nodup_cons.mp howns.nodup
  have hperm : (lot.pairs.flatMap (Pair.blocks strings) ++ k :: v :: L.others strings (m.index key)).Perm
      (v :: k :: (lot.pairs.flatMap (Pair.blocks strings) ++ L.others strings (m.index key))) :=
    (List.perm_append_comm_assoc _ [k, v] _).trans (List.Perm.swap _ _ _)
  have hvnot := (List.nodup_cons.mp (hperm.nodup_iff.mp hnd)).1
  have hmem : v ∈ lot.pairs.flatMap (Pair.blocks strings) ++ k :: v :: L.others strings (m.index key) :=
    hperm.mem_iff.mpr List.mem_cons_self
  have htable : L.table ∈ L.others strings (m.index key) := List.mem_cons_of_mem _ List.mem_cons_self
  have hva : a ≠ v := fun heq => hanot (heq ▸ hmem)
  have hvk : k ≠ v := ne_of_mem_of_not_mem List.mem_cons_self hvnot
  have hvt : L.table ≠ v := ne_of_mem_of_not_mem (List.mem_cons_of_mem _ (List.mem_append_right _ htable)) hvnot
  obtain ⟨h3, hcpy, htext3, hload3⟩ := strcpyTo_ok value hv (by rw [List.length_replicate])
  refine ⟨h3, hcpy, ?_⟩
  refine hs.snoc hlot hls (howns.store (List.mem_cons_of_mem _ hmem) hload3) ?_ ?_ ?_ (.some htext3) fun c hc hct => ?_
  · rw [hload3, if_neg hvt, htab]
  · rw [hload3, if_neg hva, harr]
  · exact htext.congr (by rw [hload3, if_neg hvk])
  · rw [hload3, if_neg (ne_of_mem_of_not_mem (List.mem_cons_of_mem _ hc) hvnot), hframe c hc hct]

/-- A key that is not in the map, with a copy: the value has to get one, too, and the array has to grow. -/
theorem Stands.smPut_absent (hs : Stands strings h0 h L m) (value : CStr)
    (hnone : StrMap.getPair (m.bucket key) key = none) (hkey : alloc.key = true) :
    ((alloc.value = false ∨ alloc.Refuses) ∧ smPut alloc h L.self key value = .error .free) ∨
      ∃ h' L', smPut alloc h L.self key value = .ok (true, h') ∧ L'.self = L.self ∧
        Stands strings h0 h' L' (m.setBucket key (m.bucket key ++ [⟨some key, some value⟩])) := by
  obtain ⟨lot, hlot, hbucket, hls, ⟨-, hget⟩ | ⟨a, i, p, q, hf, -⟩⟩ := hs.getPair_ok key
  · let copy : Block Addr := .chars (List.replicate (key.bytes.length + 1) 0)
    let text : Block Addr := .chars (List.replicate (value.bytes.length + 1) 0)
    let h1 : Pool (Block Addr) := (h.alloc copy).2
    cases hv : alloc.value with
    | false =>
        left
        refine ⟨Or.inl rfl, ?_⟩
        simp only [smPut, hbucket, bind, Except.bind, hget, hkey, hv, mmCalloc, if_true, Bool.false_eq_true, if_false]
    | true =>
        have hput : smPut alloc h L.self key value = (addPair alloc (h1.alloc text).2 L.table (L.lots.map Lot.raw)
            (m.index key) lot.raw h.blocks.length key (some h1.blocks.length)).bind fun h =>
              (strcpyTo h h1.blocks.length value).bind fun h => .ok (true, h) := by
          simp only [smPut, hbucket, bind, Except.bind, hget, hkey, hv, mmCalloc, if_true]
          rfl
        rw [hput]
        have howns : Owns h0 (h1.alloc text).2 (lot.blocks strings ++ h.blocks.length :: h1.blocks.length ::
            L.others strings (m.index key)) :=
          (((hs.owns.perm (blocks_perm hlot)).alloc copy).alloc text).perm
            ((List.Perm.swap _ _ _).trans (List.perm_append_comm_assoc [h.blocks.length, h1.blocks.length] _ _))
        have hkv : h.blocks.length ≠ h1.blocks.length := by
          have hlen : h1.blocks.length = h.blocks.length + 1 := List.length_append
          omega
        have hold : ∀ c ∈ lot.blocks strings ++ L.others strings (m.index key), (h1.alloc text).2.load c = h.load c := by
          intro c hc
          have hc' := (blocks_perm hlot).mem_iff.mpr hc
          have hnew := ((hs.owns.alloc copy).new_not_mem)
          rw [load_alloc, if_neg (ne_of_mem_of_not_mem (List.mem_cons_of_mem _ hc') hnew), hs.calloc copy c hc']
        have htable : L.table ∈ L.others strings (m.index key) := List.mem_cons_of_mem _ List.mem_cons_self
        rcases addPair_cases alloc (m.index key) key (some h1.blocks.length)
          (hls.congr fun c hc => hold c (List.mem_append_left _ hc)) howns
          (by rw [load_alloc, if_neg hkv, load_alloc, if_pos rfl]) (List.mem_cons_of_mem _ htable)
          (by rw [hold _ (List.mem_append_right _ htable), hs.table])
          with ⟨hrefuse, herr⟩ | ⟨a, h2, hadd, howns2, htab, harr, htext, hframe⟩
        · left
          refine ⟨Or.inr hrefuse, ?_⟩
          rw [herr]
          rfl
        · right
          have hv2 : h1.blocks.length ∈ lot.pairs.flatMap (Pair.blocks strings) ++ h1.blocks.length ::
              L.others strings (m.index key) := List.mem_append_right _ List.mem_cons_self
          have hvt : h1.blocks.length ≠ L.table := by
            have hnew := (hs.owns.alloc copy).new_not_mem
            exact (ne_of_mem_of_not_mem (List.mem_cons_of_mem _ ((blocks_perm hlot).mem_iff.mpr
              (List.mem_append_right _ htable))) hnew).symm
          have hload2 : h2.load h1.blocks.length = some text := by
            rw [hframe _ hv2 hvt, load_alloc, if_pos rfl]
          obtain ⟨h3, hcpy, hs3⟩ := hs.snoc_text hlot hls howns2 htab harr htext hload2 fun c hc hct => by
            have hc2 := List.perm_middle.mem_iff.mpr (List.mem_cons_of_mem h1.blocks.length hc)
            have hc3 : c ∈ lot.blocks strings ++ L.others strings (m.index key) := by
              rcases List.mem_append.mp hc with hc | hc
              · exact List.mem_append_left _ (List.mem_append_right _ hc)
              · exact List.mem_append_right _ hc
            rw [hframe c hc2 hct, hold c hc3]
          refine ⟨h3, L.setLot (m.index key) _, ?_, rfl, hs3⟩
          rw [hadd]
          simp only [Except.bind, hcpy]
  · rw [hf.get] at hnone
    cases hnone

/-! ## `sm_put` and `sm_get` -/

/-- A call of `sm_put`. -/
structure StrOp where
  alloc : PutAllocs
  key : CStr
  value : CStr

/-- The answer of `sm_put` to the text its key has so far. -/
def StrOp.answer (op : StrOp) : Option CStr → Bool
  | none => op.alloc.key
  | some old => !(decide (old.bytes.length < op.value.bytes.length) && decide (op.alloc.resize = .refused))

/-- Why `sm_put` may go wrong: a copy of a key without one of its value, or without room for the pair. -/
def StrOp.Strands (op : StrOp) : Prop := op.alloc.key = true ∧ (op.alloc.value = false ∨ op.alloc.Refuses)

/-- The map of lists after a call. -/
def StrOp.apply (op : StrOp) (m : StrMap CStr) : StrMap CStr :=
  if op.answer (Lookaround.smGetPtrvalue m op.key) then (Lookaround.smPutPtrvalue true true m op.key (some op.value)).2 else m

/-- **`sm_put`** stores its value or leaves the map as it is. -/
theorem Stands.smPut_cases (hs : Stands strings h0 h L m) (op : StrOp) :
    (op.Strands ∧ smPut op.alloc h L.self op.key op.value = .error .free) ∨
      ∃ h' L', smPut op.alloc h L.self op.key op.value =
          .ok (op.answer (Lookaround.smGetPtrvalue m op.key), h') ∧ L'.self = L.self ∧ Stands strings h0 h' L' (op.apply m) := by
  obtain ⟨lot, hlot, hbucket, hls, ⟨hnone, hget⟩ | ⟨a, i, p, q, hf, hget⟩⟩ := hs.getPair_ok op.key
  · have hold : Lookaround.smGetPtrvalue m op.key = none := by rw [Lookaround.smGetPtrvalue, hnone]
    cases hk : op.alloc.key with
    | false =>
        have hans : op.answer none = false := hk
        refine Or.inr ⟨h, L, ?_, rfl, ?_⟩
        · rw [hold, hans]
          simp only [smPut, hbucket, bind, Except.bind, hget, hk, mmCalloc, Bool.false_eq_true, if_false]
          rfl
        · rw [StrOp.apply, hold, hans, if_neg Bool.false_ne_true]
          exact hs
    | true =>
        have hans : op.answer none = true := hk
        rw [StrOp.apply, hold, hans, if_pos rfl, smPutPtrvalue_new hnone]
        rcases hs.smPut_absent op.value hnone hk with ⟨hrefuse, herr⟩ | hok
        · exact Or.inl ⟨⟨hk, hrefuse⟩, herr⟩
        · exact Or.inr hok
  · right
    obtain ⟨v, s, -, -, -, hold⟩ := hf.text
    have hput : smPut op.alloc h L.self op.key op.value = replaceText op.alloc h lot.raw i p op.value := by
      simp only [smPut, hbucket, bind, Except.bind, hget]
    rw [hput, StrOp.apply, hold]
    rcases hs.replaceText_cases op.alloc op.value hlot hls hf hold with
      ⟨hlen, hr, hrep⟩ | ⟨hok, h', L', hrep, hself, hstands⟩
    · have hans : op.answer (some s) = false := by simp [StrOp.answer, hlen, hr]
      refine ⟨h, L, by rw [hrep, hans], rfl, ?_⟩
      rw [hans, if_neg Bool.false_ne_true]
      exact hs
    · have hans : op.answer (some s) = true := by
        show (!(decide (s.bytes.length < op.value.bytes.length) && decide (op.alloc.resize = .refused))) = true
        rw [← Bool.decide_and, Bool.not_eq_true', decide_eq_false_iff_not]
        exact hok
      refine ⟨h', L', by rw [hrep, hans], hself, ?_⟩
      rw [hans, if_pos rfl, Lookaround.smPutPtrvalue, hf.get]
      exact hstands

/-- What `sm_get` answers for a text: its size to a call without a buffer, and the text to a call with enough room. -/
structure Reads (h : Pool (Block Addr)) (map : Addr) (key : CStr) (s : CStr) : Prop where
  size : smGet h map key none 0 = .ok (s.bytes.length + 1, none)
  full : ∀ (buf : Bytes) (n : Nat), s.bytes.length < n → n ≤ buf.length →
    smGet h map key (some buf) n = .ok (1, some (s.bytes ++ 0 :: buf.drop (s.bytes.length + 1)))
  short : ∀ (buf : Bytes) (n : Nat), n ≤ s.bytes.length → smGet h map key (some buf) n = .ok (0, some buf)

/-- **`sm_get`**: the size first, then the text. -/
theorem Stands.smGet_ok (hs : Stands strings h0 h L m) (key : CStr) :
    match Lookaround.smGetPtrvalue m key with
    | none => ∀ outBuf n, smGet h L.self key outBuf n = .ok (0, outBuf)
    | some s => Reads h L.self key s := by
  obtain ⟨lot, -, hbucket, -, ⟨hnone, hget⟩ | ⟨a, i, p, q, hf, hget⟩⟩ := hs.getPair_ok key
  · rw [Lookaround.smGetPtrvalue, hnone]
    intro outBuf n
    simp only [smGet, hbucket, bind, Except.bind, hget]
    rfl
  · obtain ⟨v, s, hpv, -, ⟨rest, htext⟩, hold⟩ := hf.text
    rw [hold]
    have hcstr : CStr.ofBuffer (s.bytes ++ 0 :: rest) = s := CStr.ext_iff.mpr (CStr.ofBuffer_append_nul s.noNul rest)
    refine ⟨?_, fun buf n hn hbuf => ?_, fun buf n hn => ?_⟩
    · simp only [smGet, hbucket, bind, Except.bind, hget, hpv, nonNull, Option.elim_some, charsAt_ok htext,
        strlen_eq s.noNul, checked]
      rfl
    · simp only [smGet, hbucket, bind, Except.bind, hget, hpv, nonNull, Option.elim_some, charsAt_ok htext,
        strlen_eq s.noNul, checked, if_neg (Nat.not_le.mpr hn), hcstr, strcpy_eq (show s.bytes.length + 1 ≤ buf.length by omega)]
      rfl
    · simp only [smGet, hbucket, bind, Except.bind, hget, hpv, nonNull, Option.elim_some, charsAt_ok htext,
        strlen_eq s.noNul, checked, if_pos hn]
      rfl

/-! ## Histories -/

/-- A call on the map in the pool; the answers are collected. -/
def applyStrOp (map : Addr) (s : Pool (Block Addr) × List Bool) (op : StrOp) :
    Except Misuse (Pool (Block Addr) × List Bool) := do
  let (ok, h) ← smPut op.alloc s.1 map op.key op.value
  return (h, s.2 ++ [ok])

/-- The same call on a table. -/
def tableStrOp (s : (CStr → Option CStr) × List Bool) (op : StrOp) : (CStr → Option CStr) × List Bool :=
  (if op.answer (s.1 op.key) then Function.update s.1 op.key (some op.value) else s.1, s.2 ++ [op.answer (s.1 op.key)])

/-- The table of a history. -/
def strTable (ops : List StrOp) : (CStr → Option CStr) × List Bool := ops.foldl tableStrOp (fun _ => none, [])

theorem strTable_concat (ops : List StrOp) (op : StrOp) : strTable (ops ++ [op]) = tableStrOp (strTable ops) op := by
  unfold strTable
  rw [List.foldl_append]
  rfl

/-- A call on the map of lists, as a table. -/
theorem tableStrOp_apply (hg : m.Good) (op : StrOp) (answers : List Bool) :
    tableStrOp (Lookaround.smGetPtrvalue m, answers) op =
      (Lookaround.smGetPtrvalue (op.apply m), answers ++ [op.answer (Lookaround.smGetPtrvalue m op.key)]) := by
  unfold tableStrOp StrOp.apply
  congr 1
  split_ifs
  · funext k
    by_cases hk : k = op.key
    · rw [hk, Function.update_self, smGetPtrvalue_put_self hg (smPutPtrvalue_ok m op.key (some op.value))]
    · rw [Function.update_of_ne hk, smGetPtrvalue_put_of_ne true true m hk]
  · rfl

theorem StrOp.good_apply (op : StrOp) (hg : m.Good) : (op.apply m).Good := by
  unfold StrOp.apply
  split_ifs
  · exact Good.put hg true true op.key (some op.value)
  · exact hg

/-- The map in the pool stands for the table of the history. -/
def StrServes (h0 : Pool (Block Addr)) (map : Addr) (ops : List StrOp) (s : Pool (Block Addr) × List Bool) : Prop :=
  ∃ (L : Layout Addr) (m : StrMap CStr), L.self = map ∧ Stands strings h0 s.1 L m ∧ m.Good ∧
    strTable ops = (Lookaround.smGetPtrvalue m, s.2)

theorem StrServes.step {map : Addr} {ops : List StrOp} {s : Pool (Block Addr) × List Bool} (hI : StrServes h0 map ops s)
    (op : StrOp) : (∃ s', applyStrOp map s op = .ok s' ∧ StrServes h0 map (ops ++ [op]) s') ∨
      ∃ e, applyStrOp map s op = .error e ∧ e = .free ∧ op.Strands := by
  obtain ⟨L, m, rfl, hs, hg, htable⟩ := hI
  rcases hs.smPut_cases op with ⟨hstrands, herr⟩ | ⟨h', L', hput, hself, hs'⟩
  · refine Or.inr ⟨.free, ?_, rfl, hstrands⟩
    simp only [applyStrOp, herr, bind, Except.bind]
  · refine Or.inl ⟨(h', s.2 ++ [op.answer (Lookaround.smGetPtrvalue m op.key)]), ?_, L', _, hself, hs', op.good_apply hg, ?_⟩
    · simp only [applyStrOp, hput, bind, Except.bind]
      rfl
    · rw [strTable_concat, htable, tableStrOp_apply hg]

theorem frees_strings : Frees strings mmFree := by
  intro h0 h v rest ho
  apply mmFree_ok
  cases v <;> exact ho

end Pooled

end Lookaround
