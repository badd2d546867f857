import Lookaround.Bytes
import Mathlib.Data.List.GetD
import Mathlib.Data.List.Nodup

/-!
# The string map (`ngx_http_lookaround_strmap.c`)

A hash table with one append-only pair array per bucket. A removed pair keeps its slot with a NULL key, a pair that was
given a NULL value keeps its key: `getPair` skips both.

* `smNew`, `smGetPtrvalue`, `smExists`, `smPutPtrvalue`, `smRemovePtrvalue` : the calls;
* `StrMap.Good` : every bucket holds at most one live pair per key;
* `smGetPtrvalue_put`, `smGetPtrvalue_remove` : one call against the table it implements;
* `strmap_refines_table` : a whole history of calls.

The value type `V` is the type of non-NULL `void *` values. The two Booleans of `smPutPtrvalue` are the outcomes of its
allocations: the copy of the key, then the pair array. A failed array leaves `bucket->pairs` and `bucket->count` as
they were, and the key copy that is then released belongs to no pair. Pairs come out of the `MM_BUF_SIZE` pool of
16 MiB, so `bucket->count` stays far below `2^32` and is the length of the list.
-/

namespace Lookaround

variable {V : Type}

/-- `Pair`: a NULL key is a removed pair. -/
structure Pair (V : Type) where
  key : Option CStr
  value : Option V

/-- `Bucket`: its pair array. -/
abbrev Bucket (V : Type) := List (Pair V)

/-- `StrMap`: `count` buckets. -/
structure StrMap (V : Type) where
  buckets : List (Bucket V)
  count_pos : 0 < buckets.length

namespace StrMap

/-- `hash`: `unsigned long` arithmetic on sign-extended characters. -/
def hash (str : CStr) : UInt64 :=
  str.bytes.foldl (fun hash c => ((hash <<< 5) + hash) + c.toInt8.toInt64.toUInt64) 5381

/-- `map->count`. -/
def count (map : StrMap V) : Nat := map.buckets.length

/-- `hash(key) % map->count`. -/
def index (map : StrMap V) (key : CStr) : Nat := (hash key).toNat % map.count

/-- The test of `get_pair`: key and value present, and the key equal. -/
def isMatch (key : CStr) (pair : Pair V) : Bool :=
  pair.key.isSome && pair.value.isSome && pair.key == some key

/-- `get_pair`: the first pair that passes the test. -/
def getPair (bucket : Bucket V) (key : CStr) : Option (Pair V) := bucket.find? (isMatch key)

/-- A write through the pointer that `get_pair` answers. -/
def writePair (key : CStr) (f : Pair V → Pair V) : Bucket V → Bucket V
  | [] => []
  | pair :: rest => if isMatch key pair then f pair :: rest else pair :: writePair key f rest

/-- `&map->buckets[index]`. -/
def bucket (map : StrMap V) (key : CStr) : Bucket V := map.buckets.getD (map.index key) []

def setBucket (map : StrMap V) (key : CStr) (b : Bucket V) : StrMap V where
  buckets := map.buckets.set (map.index key) b
  count_pos := by
    rw [List.length_set]
    exact map.count_pos

end StrMap

open StrMap

/-- `sm_new`. -/
def smNew (V : Type) (capacity : Nat) (h : 0 < capacity) : StrMap V where
  buckets := List.replicate capacity []
  count_pos := by rwa [List.length_replicate]

/-- `sm_get_ptrvalue`. -/
def smGetPtrvalue (map : StrMap V) (key : CStr) : Option V :=
  match getPair (map.bucket key) key with
  | none => none
  | some pair => pair.value

/-- `sm_exists`. -/
def smExists (map : StrMap V) (key : CStr) : Bool := (getPair (map.bucket key) key).isSome

/-- `sm_remove_ptrvalue`. -/
def smRemovePtrvalue (map : StrMap V) (key : CStr) : StrMap V :=
  match getPair (map.bucket key) key with
  | none => map
  | some _ => map.setBucket key (writePair key (fun _ => ⟨none, none⟩) (map.bucket key))

/-- `sm_put_ptrvalue`: the returned 1 or 0, and the map. -/
def smPutPtrvalue (okKey okPairs : Bool) (map : StrMap V) (key : CStr) (value : Option V) : Bool × StrMap V :=
  match getPair (map.bucket key) key with
  | some _ => (true, map.setBucket key (writePair key (fun pair => { pair with value := value }) (map.bucket key)))
  | none =>
    if !okKey then (false, map)
    else
      match map.bucket key with
      | [] => if !okPairs then (false, map) else (true, map.setBucket key [⟨some key, value⟩])
      | pairs => if !okPairs then (false, map) else (true, map.setBucket key (pairs ++ [⟨some key, value⟩]))

/-! ## Buckets -/

namespace StrMap

/-- What a bucket holds for a key. -/
def lookup (b : Bucket V) (key : CStr) : Option V := (getPair b key).bind Pair.value

/-- The keys of the pairs that `get_pair` may answer. -/
def liveKeys (b : Bucket V) : List CStr :=
  b.filterMap fun pair => if pair.value.isSome then pair.key else none

theorem isMatch_iff {key : CStr} {pair : Pair V} :
    isMatch key pair = true ↔ pair.key = some key ∧ pair.value.isSome = true := by
  unfold isMatch
  cases pair.key with
  | none => simp
  | some k => simp [and_comm]

theorem liveKeys_cons (pair : Pair V) (b : Bucket V) :
    liveKeys (pair :: b) = (if pair.value.isSome then pair.key else none).toList ++ liveKeys b := by
  unfold liveKeys
  rw [List.filterMap_cons]
  cases (if pair.value.isSome then pair.key else none) with
  | none => rfl
  | some k => rfl

theorem lookup_nil (key : CStr) : lookup ([] : Bucket V) key = none := rfl

theorem lookup_cons_match {key : CStr} {pair : Pair V} (h : isMatch key pair = true) (b : Bucket V) :
    lookup (pair :: b) key = pair.value := by
  simp [lookup, getPair, h]

theorem lookup_cons_skip {key : CStr} {pair : Pair V} (h : isMatch key pair = false) (b : Bucket V) :
    lookup (pair :: b) key = lookup b key := by
  simp [lookup, getPair, h]

theorem isSome_getPair (b : Bucket V) (key : CStr) : (getPair b key).isSome = (lookup b key).isSome := by
  unfold lookup
  cases h : getPair b key with
  | none => rfl
  | some pair => exact (isMatch_iff.mp (List.find?_some h)).2.symm

theorem mem_liveKeys {b : Bucket V} {key : CStr} : key ∈ liveKeys b ↔ (lookup b key).isSome = true := by
  induction b with
  | nil => simp [liveKeys, lookup_nil]
  | cons pair b ih =>
      rw [liveKeys_cons, List.mem_append]
      cases hm : isMatch key pair with
      | true =>
          obtain ⟨hk, hv⟩ := isMatch_iff.mp hm
          rw [lookup_cons_match hm]
          simp [hk, hv]
      | false =>
          rw [lookup_cons_skip hm, ← ih]
          have hnot : key ∉ (if pair.value.isSome then pair.key else none).toList := by
            intro hk
            have : isMatch key pair = true := by
              rw [isMatch_iff]
              split_ifs at hk with hv
              · exact ⟨by simpa using hk, hv⟩
              · simp at hk
            rw [hm] at this
            cases this
          simp only [hnot, false_or]

theorem lookup_eq_none_of_not_mem {b : Bucket V} {key : CStr} (h : key ∉ liveKeys b) : lookup b key = none := by
  rw [mem_liveKeys] at h
  simpa using h

theorem lookup_append (b c : Bucket V) (key : CStr) : lookup (b ++ c) key = (lookup b key).or (lookup c key) := by
  induction b with
  | nil => simp [lookup_nil]
  | cons pair b ih =>
      rw [List.cons_append]
      cases hm : isMatch key pair with
      | true =>
          rw [lookup_cons_match hm, lookup_cons_match hm]
          obtain ⟨v, hv⟩ := Option.isSome_iff_exists.mp (isMatch_iff.mp hm).2
          rw [hv, Option.some_or]
      | false => rw [lookup_cons_skip hm, lookup_cons_skip hm, ih]

theorem liveKeys_append (b c : Bucket V) : liveKeys (b ++ c) = liveKeys b ++ liveKeys c := by
  simp [liveKeys]

/-- Any other key does not see a write through the pair of `key`, if the new pair is not a live pair of that key. -/
theorem lookup_writePair_of_ne {key k : CStr} (f : Pair V → Pair V) (hne : k ≠ key)
    (hf : ∀ pair, isMatch key pair = true → isMatch k (f pair) = false) (b : Bucket V) :
    lookup (writePair key f b) k = lookup b k := by
  induction b with
  | nil => rfl
  | cons pair b ih =>
      rw [writePair]
      cases hm : isMatch key pair with
      | true =>
          have hk : isMatch k pair = false := by
            rw [Bool.eq_false_iff, Ne, isMatch_iff]
            rintro ⟨hk, -⟩
            exact hne (Option.some.inj (hk.symm.trans (isMatch_iff.mp hm).1))
          rw [if_pos rfl, lookup_cons_skip (hf pair hm), lookup_cons_skip hk]
      | false =>
          rw [if_neg (by simp)]
          cases hk : isMatch k pair with
          | true => rw [lookup_cons_match hk, lookup_cons_match hk]
          | false => rw [lookup_cons_skip hk, lookup_cons_skip hk, ih]

/-- A write that keeps the key: the key now has the new value. -/
theorem lookup_writePair_value {key : CStr} (value : Option V) {b : Bucket V} (hn : (liveKeys b).Nodup)
    (hk : key ∈ liveKeys b) : lookup (writePair key (fun pair => { pair with value := value }) b) key = value := by
  induction b with
  | nil => simp [liveKeys] at hk
  | cons pair b ih =>
      rw [writePair]
      cases hm : isMatch key pair with
      | true =>
          obtain ⟨hkey, hval⟩ := isMatch_iff.mp hm
          rw [if_pos rfl]
          rw [liveKeys_cons, hval, if_pos rfl, hkey, Option.toList_some, List.singleton_append, List.nodup_cons] at hn
          cases value with
          | none =>
              rw [lookup_cons_skip (by simp [isMatch])]
              exact lookup_eq_none_of_not_mem hn.1
          | some v => rw [lookup_cons_match (by simp [isMatch_iff, hkey])]
      | false =>
          rw [if_neg (by simp), lookup_cons_skip hm]
          rw [liveKeys_cons] at hn
          refine ih hn.of_append_right ?_
          rw [mem_liveKeys] at hk ⊢
          rwa [lookup_cons_skip hm] at hk

/-- A write that clears the pair: the key is gone. -/
theorem lookup_writePair_clear {key : CStr} {b : Bucket V} (hn : (liveKeys b).Nodup) :
    lookup (writePair key (fun _ => ⟨none, none⟩) b) key = none := by
  induction b with
  | nil => rfl
  | cons pair b ih =>
      rw [writePair]
      cases hm : isMatch key pair with
      | true =>
          obtain ⟨hkey, hval⟩ := isMatch_iff.mp hm
          rw [liveKeys_cons, hval, if_pos rfl, hkey, Option.toList_some, List.singleton_append, List.nodup_cons] at hn
          rw [if_pos rfl, lookup_cons_skip (by simp [isMatch])]
          exact lookup_eq_none_of_not_mem hn.1
      | false =>
          rw [liveKeys_cons] at hn
          rw [if_neg (by simp), lookup_cons_skip hm]
          exact ih hn.of_append_right

/-- A write leaves no new live key behind. -/
theorem liveKeys_writePair_sublist {key : CStr} (f : Pair V → Pair V)
    (hf : ∀ pair, (f pair).key = pair.key ∨ (f pair).key = none) (b : Bucket V) :
    (liveKeys (writePair key f b)).Sublist (liveKeys b) := by
  induction b with
  | nil => exact List.Sublist.refl _
  | cons pair b ih =>
      rw [writePair]
      cases hm : isMatch key pair with
      | true =>
          rw [if_pos rfl, liveKeys_cons, liveKeys_cons]
          refine List.Sublist.append ?_ (List.Sublist.refl _)
          rw [(isMatch_iff.mp hm).2, if_pos rfl]
          split_ifs with hv
          · rcases hf pair with h | h <;> rw [h]
            exact List.nil_sublist _
          · exact List.nil_sublist _
      | false =>
          rw [if_neg (by simp), liveKeys_cons, liveKeys_cons]
          exact List.Sublist.append (List.Sublist.refl _) ih

/-! ## One call -/

theorem index_lt (map : StrMap V) (key : CStr) : map.index key < map.buckets.length :=
  Nat.mod_lt _ map.count_pos

/-- The invariant of the table: at most one live pair per key in each bucket. -/
def Good (map : StrMap V) : Prop := ∀ b ∈ map.buckets, (liveKeys b).Nodup

theorem Good.bucket {map : StrMap V} (h : map.Good) (key : CStr) : (liveKeys (map.bucket key)).Nodup := by
  have hlt := map.index_lt key
  refine h _ ?_
  rw [StrMap.bucket, List.getD_eq_getElem _ _ hlt]
  exact List.getElem_mem hlt

theorem Good.setBucket {map : StrMap V} (h : map.Good) (key : CStr) {b : Bucket V} (hb : (liveKeys b).Nodup) :
    (map.setBucket key b).Good := by
  intro c hc
  rcases List.mem_or_eq_of_mem_set hc with hc | rfl
  · exact h c hc
  · exact hb

theorem smGetPtrvalue_eq_lookup (map : StrMap V) (key : CStr) :
    smGetPtrvalue map key = lookup (map.bucket key) key := by
  unfold smGetPtrvalue lookup
  cases getPair (map.bucket key) key <;> rfl

/-- Writing the bucket of `key`: a key of another bucket is not affected, a key of the same bucket reads the new
bucket. -/
theorem smGetPtrvalue_setBucket (map : StrMap V) (key k : CStr) (b : Bucket V) :
    smGetPtrvalue (map.setBucket key b) k =
      if map.index k = map.index key then lookup b k else smGetPtrvalue map k := by
  rw [smGetPtrvalue_eq_lookup, smGetPtrvalue_eq_lookup]
  have hidx : (map.setBucket key b).index k = map.index k := by
    simp [index, count, setBucket]
  unfold StrMap.bucket
  rw [hidx, setBucket]
  split_ifs with h
  · rw [h, List.getD_eq_getElem _ _ (by rw [List.length_set]; exact map.index_lt key), List.getElem_set_self]
  · rw [List.getD_eq_getElem?_getD, List.getElem?_set_ne (fun e => h e.symm), ← List.getD_eq_getElem?_getD]

theorem smGetPtrvalue_setBucket_self (map : StrMap V) (key : CStr) (b : Bucket V) :
    smGetPtrvalue (map.setBucket key b) key = lookup b key := by
  rw [smGetPtrvalue_setBucket, if_pos rfl]

theorem smGetPtrvalue_setBucket_of_ne (map : StrMap V) {key k : CStr} {b : Bucket V}
    (h : lookup b k = lookup (map.bucket key) k) : smGetPtrvalue (map.setBucket key b) k = smGetPtrvalue map k := by
  rw [smGetPtrvalue_setBucket]
  split_ifs with hidx
  · rw [h, smGetPtrvalue_eq_lookup]
    unfold StrMap.bucket
    rw [hidx]
  · rfl

end StrMap

/-- What a put does to the table: it took effect and stored the value, or it returned 0 and left the map alone. -/
theorem smPutPtrvalue_cases (okKey okPairs : Bool) (map : StrMap V) (key : CStr) (value : Option V) :
    smPutPtrvalue okKey okPairs map key value = (false, map) ∨
      (key ∈ liveKeys (map.bucket key) ∧ smPutPtrvalue okKey okPairs map key value =
        (true, map.setBucket key (writePair key (fun pair => { pair with value := value }) (map.bucket key)))) ∨
      (key ∉ liveKeys (map.bucket key) ∧ smPutPtrvalue okKey okPairs map key value =
        (true, map.setBucket key (map.bucket key ++ [⟨some key, value⟩]))) := by
  unfold smPutPtrvalue
  rw [mem_liveKeys, ← isSome_getPair]
  cases getPair (map.bucket key) key with
  | some pair => exact Or.inr (Or.inl ⟨rfl, rfl⟩)
  | none =>
      cases okKey
      · exact Or.inl rfl
      cases okPairs
      · exact Or.inl (by cases map.bucket key <;> rfl)
      · exact Or.inr (Or.inr ⟨by simp, by cases map.bucket key <;> rfl⟩)

/-- With both allocations granted a put returns 1. -/
theorem smPutPtrvalue_ok (map : StrMap V) (key : CStr) (value : Option V) :
    (smPutPtrvalue true true map key value).1 = true := by
  unfold smPutPtrvalue
  cases getPair (map.bucket key) key with
  | some pair => rfl
  | none => cases map.bucket key <;> rfl

/-- A new key needs both of its blocks. -/
theorem smPutPtrvalue_fst {okKey okPairs : Bool} {map : StrMap V} {key : CStr} (h : smGetPtrvalue map key = none)
    (value : Option V) : (smPutPtrvalue okKey okPairs map key value).1 = (okKey && okPairs) := by
  have hpair : getPair (map.bucket key) key = none := by
    have hsome := isSome_getPair (map.bucket key) key
    rw [← smGetPtrvalue_eq_lookup, h] at hsome
    exact Option.not_isSome_iff_eq_none.mp (by simp [hsome])
  unfold smPutPtrvalue
  rw [hpair]
  cases okKey <;> cases okPairs <;> cases map.bucket key <;> rfl

theorem smPutPtrvalue_false {okKey okPairs : Bool} {map : StrMap V} {key : CStr} {value : Option V}
    (h : (smPutPtrvalue okKey okPairs map key value).1 = false) :
    (smPutPtrvalue okKey okPairs map key value).2 = map := by
  rcases smPutPtrvalue_cases okKey okPairs map key value with he | ⟨-, he⟩ | ⟨-, he⟩
  · rw [he]
  · rw [he] at h
    cases h
  · rw [he] at h
    cases h

theorem smGetPtrvalue_put_self {okKey okPairs : Bool} {map : StrMap V} (hg : map.Good) {key : CStr} {value : Option V}
    (h : (smPutPtrvalue okKey okPairs map key value).1 = true) :
    smGetPtrvalue (smPutPtrvalue okKey okPairs map key value).2 key = value := by
  rcases smPutPtrvalue_cases okKey okPairs map key value with he | ⟨hk, he⟩ | ⟨hk, he⟩
  · rw [he] at h
    cases h
  · rw [he, smGetPtrvalue_setBucket_self]
    exact lookup_writePair_value value (hg.bucket key) hk
  · rw [he, smGetPtrvalue_setBucket_self, lookup_append, lookup_eq_none_of_not_mem hk, Option.none_or]
    cases value with
    | none => rw [lookup_cons_skip (by simp [isMatch]), lookup_nil]
    | some v => rw [lookup_cons_match (by simp [isMatch_iff])]

theorem smGetPtrvalue_put_of_ne (okKey okPairs : Bool) (map : StrMap V) {key k : CStr} (hne : k ≠ key)
    (value : Option V) :
    smGetPtrvalue (smPutPtrvalue okKey okPairs map key value).2 k = smGetPtrvalue map k := by
  have hskip : ∀ pair : Pair V, pair.key = some key → isMatch k pair = false := by
    intro pair hp
    rw [Bool.eq_false_iff, Ne, isMatch_iff, hp]
    rintro ⟨h, -⟩
    exact hne (Option.some.inj h).symm
  rcases smPutPtrvalue_cases okKey okPairs map key value with he | ⟨-, he⟩ | ⟨-, he⟩
  · rw [he]
  · rw [he]
    refine smGetPtrvalue_setBucket_of_ne map (lookup_writePair_of_ne _ hne (fun pair hp => ?_) _)
    exact hskip _ (isMatch_iff.mp hp).1
  · rw [he]
    refine smGetPtrvalue_setBucket_of_ne map ?_
    rw [lookup_append, lookup_cons_skip (hskip _ rfl), lookup_nil, Option.or_none]

theorem Good.put {map : StrMap V} (hg : map.Good) (okKey okPairs : Bool) (key : CStr) (value : Option V) :
    (smPutPtrvalue okKey okPairs map key value).2.Good := by
  rcases smPutPtrvalue_cases okKey okPairs map key value with he | ⟨-, he⟩ | ⟨hk, he⟩
  · rw [he]
    exact hg
  · rw [he]
    exact hg.setBucket key ((hg.bucket key).sublist
      (liveKeys_writePair_sublist (fun pair => { pair with value := value }) (fun _ => Or.inl rfl) _))
  · rw [he]
    refine hg.setBucket key ?_
    rw [liveKeys_append]
    have hlast : liveKeys [(⟨some key, value⟩ : Pair V)] = if value.isSome then [key] else [] := by
      cases value <;> rfl
    rw [hlast]
    split_ifs
    · exact (hg.bucket key).append (List.nodup_singleton key) (by simpa using hk)
    · rw [List.append_nil]
      exact hg.bucket key

theorem smGetPtrvalue_remove_self {map : StrMap V} (hg : map.Good) (key : CStr) :
    smGetPtrvalue (smRemovePtrvalue map key) key = none := by
  unfold smRemovePtrvalue
  cases h : getPair (map.bucket key) key with
  | none => rw [smGetPtrvalue, h]
  | some pair =>
      rw [smGetPtrvalue_setBucket_self]
      exact lookup_writePair_clear (hg.bucket key)

theorem smGetPtrvalue_remove_of_ne (map : StrMap V) {key k : CStr} (hne : k ≠ key) :
    smGetPtrvalue (smRemovePtrvalue map key) k = smGetPtrvalue map k := by
  unfold smRemovePtrvalue
  cases h : getPair (map.bucket key) key with
  | none => rfl
  | some pair =>
      refine smGetPtrvalue_setBucket_of_ne map (lookup_writePair_of_ne _ hne (fun pair _ => ?_) _)
      simp [isMatch]

theorem Good.remove {map : StrMap V} (hg : map.Good) (key : CStr) : (smRemovePtrvalue map key).Good := by
  unfold smRemovePtrvalue
  cases h : getPair (map.bucket key) key with
  | none => exact hg
  | some pair =>
      exact hg.setBucket key ((hg.bucket key).sublist (liveKeys_writePair_sublist _ (fun _ => Or.inr rfl) _))

theorem good_smNew (capacity : Nat) (h : 0 < capacity) : (smNew V capacity h).Good := by
  intro b hb
  rw [List.eq_of_mem_replicate hb]
  exact List.nodup_nil

theorem smGetPtrvalue_smNew (capacity : Nat) (h : 0 < capacity) (key : CStr) :
    smGetPtrvalue (smNew V capacity h) key = none := by
  have hb : (smNew V capacity h).bucket key = [] := by
    unfold StrMap.bucket
    rw [List.getD_eq_getElem _ _ ((smNew V capacity h).index_lt key)]
    exact List.getElem_replicate _
  rw [smGetPtrvalue_eq_lookup, hb, lookup_nil]

theorem smExists_eq (map : StrMap V) (key : CStr) : smExists map key = (smGetPtrvalue map key).isSome := by
  rw [smExists, isSome_getPair, smGetPtrvalue_eq_lookup]

/-! ## Histories -/

/-- A call on the map; a put carries the outcomes of its two allocations. -/
inductive MapCall (V : Type) where
  | put (key : CStr) (value : Option V) (okKey okPairs : Bool)
  | remove (key : CStr)
  | get (key : CStr)
  | exist (key : CStr)

namespace MapCall

/-- The map after a call. -/
def apply (map : StrMap V) : MapCall V → StrMap V
  | put key value okKey okPairs => (smPutPtrvalue okKey okPairs map key value).2
  | remove key => smRemovePtrvalue map key
  | get _ => map
  | exist _ => map

/-- The association a call made for `k`, if it made one: a put that returned 1, or a removal. -/
def binds (map : StrMap V) (k : CStr) : MapCall V → Option (Option V)
  | put key value okKey okPairs =>
    if key = k ∧ (smPutPtrvalue okKey okPairs map key value).1 then some value else none
  | remove key => if key = k then some none else none
  | get _ => none
  | exist _ => none

end MapCall

/-- The map after a history of calls. -/
def runCalls (map : StrMap V) (calls : List (MapCall V)) : StrMap V := calls.foldl MapCall.apply map

/-- The latest association a history made for `k`, over the one it started with. -/
def latest (k : CStr) (found : Option V) : StrMap V → List (MapCall V) → Option V
  | _, [] => found
  | map, call :: calls => latest k ((call.binds map k).getD found) (call.apply map) calls

theorem Good.apply {map : StrMap V} (hg : map.Good) (call : MapCall V) : (call.apply map).Good := by
  cases call with
  | put key value okKey okPairs => exact Good.put hg okKey okPairs key value
  | remove key => exact Good.remove hg key
  | get key => exact hg
  | exist key => exact hg

theorem Good.runCalls {map : StrMap V} (hg : map.Good) (calls : List (MapCall V)) : (runCalls map calls).Good := by
  induction calls generalizing map with
  | nil => exact hg
  | cons call calls ih => exact ih (Good.apply hg call)

theorem smGetPtrvalue_apply {map : StrMap V} (hg : map.Good) (call : MapCall V) (k : CStr) :
    smGetPtrvalue (call.apply map) k = (call.binds map k).getD (smGetPtrvalue map k) := by
  cases call with
  | put key value okKey okPairs =>
      change smGetPtrvalue (smPutPtrvalue okKey okPairs map key value).2 k = _
      rw [MapCall.binds]
      by_cases hk : key = k
      · subst hk
        cases hret : (smPutPtrvalue okKey okPairs map key value).1 with
        | true =>
            rw [smGetPtrvalue_put_self hg hret]
            simp
        | false =>
            rw [smPutPtrvalue_false hret]
            simp
      · rw [smGetPtrvalue_put_of_ne okKey okPairs map (Ne.symm hk) value]
        simp [hk]
  | remove key =>
      change smGetPtrvalue (smRemovePtrvalue map key) k = _
      rw [MapCall.binds]
      by_cases hk : key = k
      · subst hk
        rw [smGetPtrvalue_remove_self hg, if_pos rfl, Option.getD_some]
      · rw [smGetPtrvalue_remove_of_ne map (Ne.symm hk), if_neg hk, Option.getD_none]
  | get key => rfl
  | exist key => rfl

theorem smGetPtrvalue_runCalls {map : StrMap V} (hg : map.Good) (calls : List (MapCall V)) (k : CStr) :
    smGetPtrvalue (runCalls map calls) k = latest k (smGetPtrvalue map k) map calls := by
  induction calls generalizing map with
  | nil => rfl
  | cons call calls ih =>
      rw [latest, ← smGetPtrvalue_apply hg call k]
      exact ih (Good.apply hg call)

end Lookaround
