import Lookaround.StrOwned

/-!
# Histories of a string map in its pool

From `sm_new` to the delete, with any outcomes of the allocations in between.

* `Stands.smPutPtrvalue`, `Stands.smRemovePtrvalue`, `Stands.smPut` : one call in the pool is one call of the map of lists;
* `Stands.deleteWith` : a delete gives every block back, once;
* `smPtrvalue_history`, `sm_history` : whole histories of maps of pointers and of maps of strings.
-/

namespace Lookaround

namespace Pooled

open Library Pool StrMap

variable {V W : Type} {vals : Values V W} {h h' h0 : Pool (Block V)} {L : Layout V} {m : StrMap W} {key : CStr}
  {alloc : PutAllocs}

/-! ## Looking up -/

/-- The pair of a key, in the pool and in the list. -/
structure FoundAt (vals : Values V W) (h : Pool (Block V)) (m : StrMap W) (key : CStr) (lot : Lot V) (a i : Nat) (p : Pair V)
    (q : Lookaround.Pair W) : Prop where
  arr : lot.arr = some a
  load : h.load a = some (.pairs lot.pairs)
  pair : lot.pairs[i]? = some p
  item : (m.bucket key)[i]? = some q
  stands : PairStands vals h p q
  isMatch : StrMap.isMatch key q = true
  index : (m.bucket key).findIdx? (StrMap.isMatch key) = some i
  get : StrMap.getPair (m.bucket key) key = some q

/-- `get_pair` in the bucket of a key. -/
theorem Stands.getPair_ok (hs : Stands vals h0 h L m) (key : CStr) : ∃ lot, L.lots[m.index key]? = some lot ∧
    bucketFor h L.self key = .ok (L.table, L.lots.map Lot.raw, m.index key, lot.raw) ∧ LotStands vals h lot (m.bucket key) ∧
    ((StrMap.getPair (m.bucket key) key = none ∧ getPair h lot.raw key = .ok none) ∨
      ∃ a i p q, FoundAt vals h m key lot a i p q ∧ getPair h lot.raw key = .ok (some (i, p))) := by
  obtain ⟨lot, hlot, hbucket, hls⟩ := hs.bucketFor_ok key
  refine ⟨lot, hlot, hbucket, hls, ?_⟩
  rcases getPair_cases (pairsOf_raw hls.arr) hls.pairs key with hnone | ⟨i, p, q, hp, hq, hpq, hm, hi, hget⟩
  · exact Or.inl hnone
  · right
    obtain ⟨hlt, -, hbefore⟩ := List.findIdx?_eq_some_iff_getElem.mp hi
    have hfind : StrMap.getPair (m.bucket key) key = some q := by
      rw [StrMap.getPair, List.find?_eq_some_iff_getElem]
      exact ⟨hm, i, hlt, (List.getElem?_eq_some_iff.mp hq).2, fun j hj => by simpa using hbefore j hj⟩
    rcases hls.arr with ⟨-, hnil⟩ | ⟨a, ha, -, hload⟩
    · rw [hnil] at hp
      cases hp
    · exact ⟨a, i, p, q, ⟨ha, hload, hp, hq, hpq, hm, hi, hfind⟩, hget⟩

/-- A lookup reads what the list has. -/
theorem Stands.smGetPtrvalue_ok (hs : Stands vals h0 h L m) (key : CStr) :
    ∃ v, smGetPtrvalue h L.self key = .ok v ∧ Option.Rel (vals.holds h) v (Lookaround.smGetPtrvalue m key) := by
  obtain ⟨lot, -, hbucket, -, ⟨hnone, hget⟩ | ⟨a, i, p, q, hf, hget⟩⟩ := hs.getPair_ok key
  · refine ⟨none, ?_, ?_⟩
    · simp only [Pooled.smGetPtrvalue, hbucket, bind, Except.bind, hget]
      rfl
    · rw [Lookaround.smGetPtrvalue, hnone]
      exact .none
  · refine ⟨p.value, ?_, ?_⟩
    · simp only [Pooled.smGetPtrvalue, hbucket, bind, Except.bind, hget]
      rfl
    · rw [Lookaround.smGetPtrvalue, hf.get]
      exact hf.stands.value

theorem Stands.smExists_ok (hs : Stands vals h0 h L m) (key : CStr) : smExists h L.self key = .ok (Lookaround.smExists m key) := by
  obtain ⟨lot, -, hbucket, -, ⟨hnone, hget⟩ | ⟨a, i, p, q, hf, hget⟩⟩ := hs.getPair_ok key
  · simp only [Pooled.smExists, Lookaround.smExists, hbucket, bind, Except.bind, hget, hnone]
    rfl
  · simp only [Pooled.smExists, Lookaround.smExists, hbucket, bind, Except.bind, hget, hf.get]
    rfl

/-! ## A new pair -/

/-- The map after a new pair was entered behind the others of its bucket. -/
theorem Stands.snoc (hs : Stands vals h0 h L m) {lot : Lot V} (hlot : L.lots[m.index key]? = some lot)
    (hls : LotStands vals h lot (m.bucket key)) {a k : Nat} {value : Option V} {w : Option W}
    (howns : Owns h0 h' (a :: (lot.pairs.flatMap (Pair.blocks vals) ++
      k :: (value.elim [] vals.blocks ++ L.others vals (m.index key)))))
    (htab : h'.load L.table = some (.buckets ((L.lots.map Lot.raw).set (m.index key) ⟨lot.pairs.length + 1, some a⟩)))
    (harr : h'.load a = some (.pairs (lot.pairs ++ [⟨some k, value⟩]))) (htext : TextAt h' k key)
    (hval : Option.Rel (vals.holds h') value w)
    (hframe : ∀ c ∈ lot.pairs.flatMap (Pair.blocks vals) ++ L.others vals (m.index key), c ≠ L.table →
      h'.load c = h.load c) :
    Stands vals h0 h' (L.setLot (m.index key) ⟨some a, lot.pairs ++ [⟨some k, value⟩]⟩)
      (m.setBucket key (m.bucket key ++ [⟨some key, w⟩])) := by
  have hnd := (hs.owns.perm (blocks_perm hlot)).nodup
  have htable : L.table ∈ L.others vals (m.index key) := List.mem_cons_of_mem _ List.mem_cons_self
  have hpairs : ∀ c ∈ lot.pairs.flatMap (Pair.blocks vals), c ≠ L.table := fun c hc =>
    (List.nodup_append.mp hnd).2.2 c (List.mem_append_right _ hc) _ htable
  apply hs.change_lot hlot
  · refine howns.perm ?_
    simp only [Lot.blocks, Pair.blocks, Option.toList_some, List.flatMap_append, List.flatMap_cons, List.flatMap_nil,
      List.append_nil, List.append_assoc, List.cons_append]
    exact List.Perm.refl _
  · rw [htab, List.map_set]
    simp [Lot.raw]
  · refine hls.snoc (fun c hc => hframe c (List.mem_append_left _ hc) (hpairs c hc)) harr ⟨?_, hval⟩
    exact .some htext
  · exact fun c hc hct => hframe c (List.mem_append_right _ hc) hct

theorem smPutPtrvalue_new {m : StrMap V} (hnone : StrMap.getPair (m.bucket key) key = none) (value : Option V) :
    Lookaround.smPutPtrvalue true true m key value = (true, m.setBucket key (m.bucket key ++ [⟨some key, value⟩])) := by
  unfold Lookaround.smPutPtrvalue
  rw [hnone]
  cases m.bucket key <;> rfl

/-- The copy of a key, before it is entered. -/
theorem Stands.calloc (hs : Stands vals h0 h L m) (b : Block V) :
    ∀ c ∈ L.blocks vals, (h.alloc b).2.load c = h.load c := fun c hc => by
  rw [load_alloc, if_neg (ne_of_mem_of_not_mem hc hs.owns.new_not_mem)]

/-! ## Deleting -/

/-- `mm_free` of NULL or of a block. -/
theorem mmFree_ok {k : Option Addr} {rest : List Nat} (ho : Owns h0 h (k.toList ++ rest)) :
    ∃ h', mmFree h k = .ok h' ∧ Owns h0 h' rest ∧ ∀ c ∈ rest, h'.load c = h.load c := by
  cases k with
  | none => exact ⟨h, rfl, ho, fun _ _ => rfl⟩
  | some a =>
      obtain ⟨b, hb⟩ := Option.isSome_iff_exists.mp (ho.live a List.mem_cons_self)
      obtain ⟨h', hfree, hload⟩ := free_ok hb
      refine ⟨h', by rw [mmFree, checked, hfree]; rfl, ho.free hload, fun c hc => ?_⟩
      rw [hload, if_neg (ne_of_mem_of_not_mem hc (List.nodup_cons.mp ho.nodup).1)]

/-- What a delete does with a value gives back what the value owns. -/
def Frees (vals : Values V W) (freeValue : Pool (Block V) → Option V → Except Misuse (Pool (Block V))) : Prop :=
  ∀ (h0 h : Pool (Block V)) (v : Option V) (rest : List Nat), Owns h0 h (v.elim [] vals.blocks ++ rest) →
    ∃ h', freeValue h v = .ok h' ∧ Owns h0 h' rest ∧ ∀ c ∈ rest, h'.load c = h.load c

variable {freeValue : Pool (Block V) → Option V → Except Misuse (Pool (Block V))}

theorem deletePairs_ok (hv : Frees vals freeValue) {ps : List (Pair V)} {rest : List Nat}
    (ho : Owns h0 h (ps.flatMap (Pair.blocks vals) ++ rest)) :
    ∃ h', deletePairs freeValue h ps = .ok h' ∧ Owns h0 h' rest ∧ ∀ c ∈ rest, h'.load c = h.load c := by
  induction ps generalizing h with
  | nil => exact ⟨h, rfl, ho, fun _ _ => rfl⟩
  | cons p ps ih =>
      rw [List.flatMap_cons, Pair.blocks, List.append_assoc, List.append_assoc] at ho
      obtain ⟨h1, hfree1, ho1, hload1⟩ := mmFree_ok ho
      obtain ⟨h2, hfree2, ho2, hload2⟩ := hv h0 h1 p.value _ ho1
      obtain ⟨h3, hrest, ho3, hload3⟩ := ih ho2
      refine ⟨h3, ?_, ho3, fun c hc => ?_⟩
      · unfold deletePairs at hrest ⊢
        rw [List.foldlM_cons]
        simp only [hfree1, hfree2, bind, Except.bind]
        exact hrest
      · have hc2 := List.mem_append_right (ps.flatMap (Pair.blocks vals)) hc
        rw [hload3 c hc, hload2 c hc2, hload1 c (List.mem_append_right _ hc2)]

/-- The outer loop of the deletes. -/
theorem deleteLots_ok (hv : Frees vals freeValue) {lots : List (Lot V)} {rest : List Nat} (hin : ∀ lot ∈ lots, lot.In h)
    (ho : Owns h0 h (lots.flatMap (Lot.blocks vals) ++ rest)) :
    ∃ h', (lots.map Lot.raw).foldlM (fun h bucket => do
        let pairs ← pairsOf h bucket
        let h ← deletePairs freeValue h pairs
        mmFree h bucket.pairs) h = .ok h' ∧ Owns h0 h' rest ∧ ∀ c ∈ rest, h'.load c = h.load c := by
  induction lots generalizing h with
  | nil => exact ⟨h, rfl, ho, fun _ _ => rfl⟩
  | cons lot lots ih =>
      have hpairs := pairsOf_raw (hin lot List.mem_cons_self)
      rw [List.flatMap_cons, Lot.blocks, List.append_assoc, List.append_assoc] at ho
      -- the array is given back after the pairs in it
      obtain ⟨h1, hdel1, ho1, hload1⟩ := deletePairs_ok hv (ho.perm (List.perm_append_comm_assoc _ _ _))
      obtain ⟨h2, hfree2, ho2, hload2⟩ := mmFree_ok ho1
      have hload : ∀ c ∈ lots.flatMap (Lot.blocks vals) ++ rest, h2.load c = h.load c := fun c hc => by
        rw [hload2 c hc, hload1 c (List.mem_append_right _ hc)]
      have hin2 : ∀ lot ∈ lots, lot.In h2 := fun lot' hlot' => (hin lot' (List.mem_cons_of_mem _ hlot')).congr fun c hc =>
        hload c (List.mem_append_left _ (List.mem_flatMap.mpr ⟨lot', hlot', List.mem_append_left _ hc⟩))
      obtain ⟨h3, hrest, ho3, hload3⟩ := ih hin2 ho2
      refine ⟨h3, ?_, ho3, fun c hc => ?_⟩
      · rw [List.map_cons, List.foldlM_cons]
        have hraw : lot.raw.pairs = lot.arr := rfl
        simp only [hpairs, hdel1, hraw, hfree2, bind, Except.bind]
        exact hrest
      · rw [hload3 c hc, hload c (List.mem_append_right _ hc)]

/-- **A delete** gives every block of the map back, and the pool is what it was before the map. -/
theorem Stands.deleteWith_ok (hs : Stands vals h0 h L m) (hv : Frees vals freeValue) :
    ∃ h', deleteWith freeValue h L.self = .ok h' ∧ ∀ a, h'.load a = h0.load a := by
  have hperm : (L.blocks vals).Perm (L.lots.flatMap (Lot.blocks vals) ++ [L.table, L.self]) := by
    unfold Layout.blocks
    have hlast : ([L.table, L.self] ++ L.lots.flatMap (Lot.blocks vals)).Perm _ := List.perm_append_comm
    exact (List.Perm.swap L.table L.self _).trans hlast
  have hin : ∀ lot ∈ L.lots, lot.In h := by
    intro lot hlot
    obtain ⟨j, hj, rfl⟩ := List.getElem_of_mem hlot
    exact ((List.forall₂_iff_get.mp hs.lots).2 j hj (by rwa [← hs.lots.length_eq])).arr
  obtain ⟨h1, hdel1, ho1, hload1⟩ := deleteLots_ok hv hin (hs.owns.perm hperm)
  obtain ⟨h2, hfree2, ho2, hload2⟩ := mmFree_ok (k := some L.table) ho1
  have hself : Owns h0 h2 ((some L.self).toList ++ []) := ho2
  obtain ⟨h3, hfree3, ho3, -⟩ := mmFree_ok hself
  refine ⟨h3, ?_, ho3.nil⟩
  have htake : (L.lots.map Lot.raw).take L.lots.length = L.lots.map Lot.raw := by
    rw [← List.length_map (f := Lot.raw), List.take_length]
  simp only [bind, Except.bind] at hdel1
  simp only [deleteWith, mapAt, hs.self, bucketsAt, hs.table, htake, hdel1, hfree2, hfree3, bind, Except.bind]

/-! ## Maps of pointers -/

section Pointers

variable {m : StrMap V} {value : Option V}

theorem blocks_pointers (p : Pair V) : p.blocks (pointers V) = p.key.toList := by
  obtain ⟨key, value⟩ := p
  cases value <;> simp [Pair.blocks, pointers]

theorem holds_pointers (h : Pool (Block V)) (value : Option V) : Option.Rel ((pointers V).holds h) value value := by
  cases value with
  | none => exact .none
  | some v => exact .some rfl

theorem eq_of_holds_pointers {v w : Option V} (hrel : Option.Rel ((pointers V).holds h) v w) : v = w := by
  cases hrel with
  | none => rfl
  | some hv => exact congrArg some hv

/-- `sm_ptrvalue_delete` leaves the values alone. -/
theorem frees_pointers : Frees (pointers V) fun h _ => .ok h := by
  intro h0 h v rest ho
  refine ⟨h, rfl, ?_, fun _ _ => rfl⟩
  cases v <;> exact ho

/-- The value of a pair that is there. -/
theorem Stands.replaceValue (hs : Stands (pointers V) h0 h L m) {lot : Lot V} {a i : Nat} {p : Pair V} {q : Lookaround.Pair V}
    (hlot : L.lots[m.index key]? = some lot) (hls : LotStands (pointers V) h lot (m.bucket key))
    (hf : FoundAt (pointers V) h m key lot a i p q) (value : Option V) :
    ∃ h' L', setPair h lot.raw i { p with value := value } = .ok h' ∧ L'.self = L.self ∧ Stands (pointers V) h0 h' L'
      (m.setBucket key (writePair key (fun pair => { pair with value := value }) (m.bucket key))) := by
  have hi : i < lot.pairs.length := (List.getElem?_eq_some_iff.mp hf.pair).1
  obtain ⟨h', hset, hload⟩ := setPair_ok lot.raw hf.arr hf.load hi { p with value := value }
  refine ⟨h', L.setLot (m.index key) (lot.setPair i { p with value := value }), hset, rfl, ?_⟩
  rw [writePair_eq_set hf.index hf.item]
  have hown := hs.blocks_pair hlot hf.pair
  have harr : a ∈ lot.others (pointers V) i ++ L.others (pointers V) (m.index key) :=
    List.mem_append_left _ (List.mem_append_left _ (by simp [hf.arr]))
  have hkey : a ∉ p.blocks (pointers V) := fun hmem => (List.nodup_append.mp hown.nodup).2.2 a hmem a harr rfl
  refine hs.change_pair hlot hls hf.arr hf.pair ?_ (by rw [hload, if_pos rfl]) ⟨?_, holds_pointers h' value⟩ fun c _ hca => ?_
  · have hstore := hown.store (List.mem_append_right _ harr) hload
    rwa [blocks_pointers] at hstore ⊢
  · rw [blocks_pointers] at hkey
    apply key_congr _ hf.stands.key
    intro k hk
    rw [hload, if_neg (ne_of_mem_of_not_mem hk hkey)]
  · rw [hload, if_neg hca]

/-- A key that is not in the map, with a copy. -/
theorem Stands.smPutPtrvalue_absent (hs : Stands (pointers V) h0 h L m) (alloc : PutAllocs) (value : Option V)
    (hnone : StrMap.getPair (m.bucket key) key = none) (hkey : alloc.key = true) :
    (alloc.Refuses ∧ smPutPtrvalue alloc h L.self key value = .error .free) ∨
      ∃ h' L', smPutPtrvalue alloc h L.self key value = .ok (true, h') ∧ L'.self = L.self ∧
        Stands (pointers V) h0 h' L' (m.setBucket key (m.bucket key ++ [⟨some key, value⟩])) := by
  obtain ⟨lot, hlot, hbucket, hls, ⟨-, hget⟩ | ⟨a, i, p, q, hf, -⟩⟩ := hs.getPair_ok key
  · let copy : Block V := .chars (List.replicate (key.bytes.length + 1) 0)
    have hput : smPutPtrvalue alloc h L.self key value = (addPair alloc (h.alloc copy).2 L.table (L.lots.map Lot.raw)
        (m.index key) lot.raw h.blocks.length key value).bind fun h => .ok (true, h) := by
      unfold smPutPtrvalue
      simp only [hbucket, bind, Except.bind, hget, hkey, mmCalloc, if_true]
      rfl
    rw [hput]
    have hcopy := (hs.owns.perm (blocks_perm hlot)).alloc copy
    have hold := fun c hc => hs.calloc copy c ((blocks_perm hlot).mem_iff.mpr hc)
    have htable : L.table ∈ L.others (pointers V) (m.index key) := List.mem_cons_of_mem _ List.mem_cons_self
    rcases addPair_cases alloc (m.index key) key value
      (hls.congr fun c hc => hold c (List.mem_append_left _ hc)) (hcopy.perm List.perm_middle.symm)
      (by rw [load_alloc, if_pos rfl]) htable (by rw [hold _ (List.mem_append_right _ htable), hs.table])
      with ⟨hrefuse, herr⟩ | ⟨a, h', hadd, howns, htab, harr, htext, hframe⟩
    · left
      exact ⟨hrefuse, by rw [herr]; rfl⟩
    · right
      refine ⟨h', L.setLot (m.index key) ⟨some a, lot.pairs ++ [⟨some h.blocks.length, value⟩]⟩, by rw [hadd]; rfl, rfl, ?_⟩
      refine hs.snoc hlot hls ?_ htab harr htext (holds_pointers h' value) fun c hc hct => ?_
      · cases value <;> exact howns
      · rw [hframe c hc hct]
        apply hold c
        rcases List.mem_append.mp hc with hc | hc
        · exact List.mem_append_left _ (List.mem_append_right _ hc)
        · exact List.mem_append_right _ hc
  · rw [hf.get] at hnone
    cases hnone

/-- **`sm_put_ptrvalue`** in the pool is `sm_put_ptrvalue` of the map of lists; only where a new key got its copy and the
array did not grow, the copy goes to `free`. -/
theorem Stands.smPutPtrvalue_cases (hs : Stands (pointers V) h0 h L m) (alloc : PutAllocs) (key : CStr) (value : Option V) :
    (alloc.key = true ∧ alloc.Refuses ∧ smPutPtrvalue alloc h L.self key value = .error .free) ∨
      ∃ h' L', smPutPtrvalue alloc h L.self key value =
          .ok ((Lookaround.smPutPtrvalue alloc.key true m key value).1, h') ∧ L'.self = L.self ∧
        Stands (pointers V) h0 h' L' (Lookaround.smPutPtrvalue alloc.key true m key value).2 := by
  obtain ⟨lot, hlot, hbucket, hls, ⟨hnone, hget⟩ | ⟨a, i, p, q, hf, hget⟩⟩ := hs.getPair_ok key
  · cases hk : alloc.key with
    | false =>
        right
        refine ⟨h, L, ?_, rfl, ?_⟩
        · simp only [smPutPtrvalue, Lookaround.smPutPtrvalue, hbucket, bind, Except.bind, hget, hnone, hk]
          rfl
        · simp only [Lookaround.smPutPtrvalue, hnone]
          exact hs
    | true =>
        rw [smPutPtrvalue_new hnone]
        rcases hs.smPutPtrvalue_absent alloc value hnone hk with hrefuse | hok
        · exact Or.inl ⟨rfl, hrefuse⟩
        · exact Or.inr hok
  · right
    obtain ⟨h', L', hset, hself, hstands⟩ := hs.replaceValue hlot hls hf value
    refine ⟨h', L', ?_, hself, ?_⟩
    · simp only [smPutPtrvalue, Lookaround.smPutPtrvalue, hbucket, bind, Except.bind, hget, hset, hf.get]
      rfl
    · simp only [Lookaround.smPutPtrvalue, hf.get]
      exact hstands

/-- **`sm_remove_ptrvalue`** gives the copy of the key back. -/
theorem Stands.smRemovePtrvalue_ok (hs : Stands (pointers V) h0 h L m) (key : CStr) :
    ∃ h' L', smRemovePtrvalue h L.self key = .ok h' ∧ L'.self = L.self ∧
      Stands (pointers V) h0 h' L' (Lookaround.smRemovePtrvalue m key) := by
  obtain ⟨lot, hlot, hbucket, hls, ⟨hnone, hget⟩ | ⟨a, i, p, q, hf, hget⟩⟩ := hs.getPair_ok key
  · refine ⟨h, L, ?_, rfl, ?_⟩
    · simp only [smRemovePtrvalue, hbucket, bind, Except.bind, hget]
      rfl
    · simp only [Lookaround.smRemovePtrvalue, hnone]
      exact hs
  · have hi : i < lot.pairs.length := (List.getElem?_eq_some_iff.mp hf.pair).1
    have hown := hs.blocks_pair hlot hf.pair
    have harr : a ∈ lot.others (pointers V) i ++ L.others (pointers V) (m.index key) :=
      List.mem_append_left _ (List.mem_append_left _ (by simp [hf.arr]))
    -- the pair that was found has a key
    have hk := hf.stands.key
    rw [(isMatch_iff.mp hf.isMatch).1] at hk
    cases hpk : p.key with
    | none =>
        rw [hpk] at hk
        cases hk
    | some k =>
        rw [blocks_pointers, hpk, Option.toList_some, List.singleton_append] at hown
        have hlive := hown.live k List.mem_cons_self
        obtain ⟨b, hb⟩ := Option.isSome_iff_exists.mp hlive
        obtain ⟨h1, hfree, hload1⟩ := free_ok hb
        have hka : k ≠ a := fun heq => (List.nodup_cons.mp hown.nodup).1 (heq ▸ harr)
        have harr1 : h1.load a = some (.pairs lot.pairs) := by rw [hload1, if_neg (Ne.symm hka), hf.load]
        obtain ⟨h2, hset, hload2⟩ := setPair_ok lot.raw hf.arr harr1 hi ⟨none, none⟩
        have hown2 := (hown.free hload1).store harr hload2
        refine ⟨h2, L.setLot (m.index key) (lot.setPair i ⟨none, none⟩), ?_, rfl, ?_⟩
        · simp only [smRemovePtrvalue, hbucket, bind, Except.bind, hget, hpk, mmFree, checked, hfree, Option.elim_some, hset]
        · simp only [Lookaround.smRemovePtrvalue, hf.get]
          rw [writePair_eq_set hf.index hf.item]
          refine hs.change_pair hlot hls hf.arr hf.pair ?_ (by rw [hload2, if_pos rfl]) ⟨.none, .none⟩ fun c hc hca => ?_
          · rw [blocks_pointers]
            exact hown2
          · rw [hload2, if_neg hca, hload1, if_neg (ne_of_mem_of_not_mem hc (List.nodup_cons.mp hown.nodup).1)]

end Pointers

/-! ## A new map -/

/-- **`sm_new`**: the empty map, in two blocks. -/
theorem smNew_ok (vals : Values V W) (h0 : Pool (Block V)) {capacity : Nat} (hcap : 0 < capacity) :
    ∃ h L, smNew true true h0 capacity = .ok (some L.self, h) ∧ Stands vals h0 h L (Lookaround.smNew W capacity hcap) := by
  let buckets : Block V := .buckets (List.replicate capacity ⟨0, none⟩)
  have ho := ((Owns.refl h0).alloc (.map ⟨0, 0⟩)).alloc buckets
  have hlen : (h0.alloc (Block.map ⟨0, 0⟩)).2.blocks.length = h0.blocks.length + 1 := List.length_append
  rw [hlen] at ho
  have hself : ((h0.alloc (.map ⟨0, 0⟩)).2.alloc buckets).2.load h0.blocks.length = some (.map ⟨0, 0⟩) := by
    rw [load_alloc, hlen, if_neg (Nat.ne_of_lt (Nat.lt_succ_self _)), load_alloc, if_pos rfl]
  obtain ⟨h, hstore, hload⟩ := store_ok hself (.map ⟨capacity, h0.blocks.length + 1⟩)
  refine ⟨h, ⟨h0.blocks.length, h0.blocks.length + 1, List.replicate capacity ⟨none, []⟩⟩, ?_, ?_, ?_, ?_, ?_⟩
  · have hstore' : ((h0.alloc (.map ⟨0, 0⟩)).2.alloc buckets).2.store (h0.alloc (Block.map (V := V) ⟨0, 0⟩)).1
        (.map ⟨capacity, ((h0.alloc (.map ⟨0, 0⟩)).2.alloc buckets).1⟩) = some h := by
      rw [← hstore, ← hlen]
      rfl
    simp only [smNew, mmCalloc, if_true, bind, Except.bind, checked, hstore', Option.elim_some, buckets]
    rfl
  · have hempty : (List.replicate capacity (⟨none, []⟩ : Lot V)).flatMap (Lot.blocks vals) = [] := by
      rw [List.flatMap_eq_nil_iff]
      intro lot hlot
      rw [List.eq_of_mem_replicate hlot]
      rfl
    unfold Layout.blocks
    rw [hempty]
    exact (ho.perm (List.Perm.swap _ _ _)).store List.mem_cons_self hload
  · rw [hload, if_pos rfl, List.length_replicate]
  · show h.load (h0.blocks.length + 1) = _
    rw [hload, if_neg (Nat.succ_ne_self _), load_alloc, hlen, if_pos rfl, List.map_replicate]
    rfl
  · unfold Lookaround.smNew
    apply List.forall₂_iff_get.mpr
    refine ⟨by simp, fun j hj hj' => ?_⟩
    simp only [List.get_eq_getElem, List.getElem_replicate]
    exact ⟨Or.inl ⟨rfl, rfl⟩, .nil⟩

/-! ## Histories of maps of pointers -/

/-- A call that changes a map of pointers. -/
inductive PtrOp (V : Type) where
  | put (alloc : PutAllocs) (key : CStr) (value : Option V)
  | remove (key : CStr)

/-- A call on the map in the pool; the answers of the puts are collected. -/
def applyPtrOp (map : Addr) (s : Pool (Block V) × List Bool) : PtrOp V → Except Misuse (Pool (Block V) × List Bool)
  | .put alloc key value => do
    let (ok, h) ← smPutPtrvalue alloc s.1 map key value
    return (h, s.2 ++ [ok])
  | .remove key => do
    let h ← smRemovePtrvalue s.1 map key
    return (h, s.2)

/-- The same call on a table: a put without a copy of its key is answered 0 where the key is new. -/
def tablePtrOp (s : (CStr → Option V) × List Bool) : PtrOp V → (CStr → Option V) × List Bool
  | .put alloc key value =>
    if (s.1 key).isNone && !alloc.key then (s.1, s.2 ++ [false]) else (Function.update s.1 key value, s.2 ++ [true])
  | .remove key => (Function.update s.1 key none, s.2)

/-- The table of a history. -/
def ptrTable (ops : List (PtrOp V)) : (CStr → Option V) × List Bool := ops.foldl tablePtrOp (fun _ => none, [])

theorem ptrTable_concat (ops : List (PtrOp V)) (op : PtrOp V) : ptrTable (ops ++ [op]) = tablePtrOp (ptrTable ops) op := by
  unfold ptrTable
  rw [List.foldl_append]
  rfl

/-- A put of the map of lists, as a table. -/
theorem tablePtrOp_put {m : StrMap V} (hg : m.Good) (alloc : PutAllocs) (key : CStr) (value : Option V) (answers : List Bool) :
    tablePtrOp (Lookaround.smGetPtrvalue m, answers) (.put alloc key value) =
      (Lookaround.smGetPtrvalue (Lookaround.smPutPtrvalue alloc.key true m key value).2,
        answers ++ [(Lookaround.smPutPtrvalue alloc.key true m key value).1]) := by
  show (if (Lookaround.smGetPtrvalue m key).isNone && !alloc.key then (Lookaround.smGetPtrvalue m, answers ++ [false])
    else (Function.update (Lookaround.smGetPtrvalue m) key value, answers ++ [true])) = _
  cases hret : (Lookaround.smPutPtrvalue alloc.key true m key value).1 with
  | false =>
      have hsame := smPutPtrvalue_false hret
      have hnone : Lookaround.smGetPtrvalue m key = none := by
        cases hp : StrMap.getPair (m.bucket key) key with
        | none => rw [Lookaround.smGetPtrvalue, hp]
        | some pair =>
            rw [Lookaround.smPutPtrvalue, hp] at hret
            cases hret
      have hkey : alloc.key = false := by
        rw [smPutPtrvalue_fst hnone, Bool.and_true] at hret
        exact hret
      rw [hsame, if_pos (by simp [hnone, hkey])]
  | true =>
      have hself := smGetPtrvalue_put_self hg hret
      have htest : ((Lookaround.smGetPtrvalue m key).isNone && !alloc.key) = false := by
        cases hg' : Lookaround.smGetPtrvalue m key with
        | some v => rfl
        | none =>
            rw [smPutPtrvalue_fst hg', Bool.and_true] at hret
            rw [hret]
            rfl
      rw [htest, if_neg Bool.false_ne_true]
      congr 1
      funext k
      by_cases hk : k = key
      · rw [hk, Function.update_self, hself]
      · rw [Function.update_of_ne hk, smGetPtrvalue_put_of_ne alloc.key true m hk value]

/-- A remove of the map of lists, as a table. -/
theorem tablePtrOp_remove {m : StrMap V} (hg : m.Good) (key : CStr) (answers : List Bool) :
    tablePtrOp (Lookaround.smGetPtrvalue m, answers) (.remove key) =
      (Lookaround.smGetPtrvalue (Lookaround.smRemovePtrvalue m key), answers) := by
  show (Function.update (Lookaround.smGetPtrvalue m) key none, answers) = _
  congr 1
  funext k
  by_cases hk : k = key
  · rw [hk, Function.update_self, smGetPtrvalue_remove_self hg]
  · rw [Function.update_of_ne hk, smGetPtrvalue_remove_of_ne m hk]

/-- The map in the pool stands for the table of the history. -/
def PtrServes (h0 : Pool (Block V)) (map : Addr) (ops : List (PtrOp V)) (s : Pool (Block V) × List Bool) : Prop :=
  ∃ (L : Layout V) (m : StrMap V), L.self = map ∧ Stands (pointers V) h0 s.1 L m ∧ m.Good ∧
    ptrTable ops = (Lookaround.smGetPtrvalue m, s.2)

/-- Why a call on a map of pointers may go wrong: a copy of a key without room for its pair. -/
def PtrOp.Strands : PtrOp V → Prop
  | .put alloc _ _ => alloc.key = true ∧ alloc.Refuses
  | .remove _ => False

theorem PtrServes.step {map : Addr} {ops : List (PtrOp V)} {s : Pool (Block V) × List Bool} (hI : PtrServes h0 map ops s)
    (op : PtrOp V) : (∃ s', applyPtrOp map s op = .ok s' ∧ PtrServes h0 map (ops ++ [op]) s') ∨
      ∃ e, applyPtrOp map s op = .error e ∧ e = .free ∧ op.Strands := by
  obtain ⟨L, m, rfl, hs, hg, htable⟩ := hI
  cases op with
  | put alloc key value =>
      rcases hs.smPutPtrvalue_cases alloc key value with ⟨hkey, hrefuse, herr⟩ | ⟨h', L', hput, hself, hs'⟩
      · refine Or.inr ⟨.free, ?_, rfl, hkey, hrefuse⟩
        simp only [applyPtrOp, herr, bind, Except.bind]
      · refine Or.inl ⟨(h', s.2 ++ [(Lookaround.smPutPtrvalue alloc.key true m key value).1]), ?_, L', _, hself, hs',
          Good.put hg alloc.key true key value, ?_⟩
        · simp only [applyPtrOp, hput, bind, Except.bind]
          rfl
        · rw [ptrTable_concat, htable, tablePtrOp_put hg]
  | remove key =>
      left
      obtain ⟨h', L', hremove, hself, hs'⟩ := hs.smRemovePtrvalue_ok key
      refine ⟨(h', s.2), ?_, L', _, hself, hs', Good.remove hg key, ?_⟩
      · simp only [applyPtrOp, hremove, bind, Except.bind]
        rfl
      · rw [ptrTable_concat, htable, tablePtrOp_remove hg]

/-- All blocks granted, the pair arrays moved. -/
def PutAllocs.grant : PutAllocs := ⟨true, true, true, .moved⟩

end Pooled

end Lookaround
