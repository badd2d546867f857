import Lookaround.StrMap
import Mathlib.Data.Set.Card

/-!
# Counting and enumeration of the string map (`sm_get_count`, `sm_enum`)

Both calls walk over all slots of the pair arrays and do not look at what is in them. A removal clears its slot and
leaves it in the array, and a later put of the same key takes a new one.

* `smGetCount`, `smEnum` : the calls; `enumCalls` : what a callback is called with, in that order;
* `slots` : the pair arrays, one behind the other;
* `StrMap.Indexed` : the live keys of all slots are different, and each is found;
* `removals` : how many calls of a history removed a key that was there;
* `length_slots` : as many slots as live keys and such removals;
* `smGetCount_smEnum_iff` : when count and enumeration agree with lookup.
-/

namespace Lookaround

namespace StrMap

variable {V : Type}

/-- The pairs of all buckets, in the order of the loops. -/
def slots (map : StrMap V) : List (Pair V) := map.buckets.flatten

end StrMap

open StrMap

variable {V : Type}

/-- `sm_get_count`. The pool bounds the number of pairs, so `count` does not wrap. -/
def smGetCount (map : StrMap V) : Nat :=
  map.buckets.foldl (fun count bucket => bucket.foldl (fun count _ => count + 1) count) 0

/-- `sm_enum`; `enum_func` takes the key and the value of a pair and acts on `obj`. -/
def smEnum {σ : Type} (map : StrMap V) (enumFunc : Option CStr → Option V → σ → σ) (obj : σ) : σ :=
  map.buckets.foldl (fun obj bucket => bucket.foldl (fun obj pair => enumFunc pair.key pair.value obj) obj) obj

/-- The calls of the callback. -/
def enumCalls (map : StrMap V) : List (Option CStr × Option V) :=
  smEnum map (fun key value calls => calls ++ [(key, value)]) []

/-- `sm_enum` calls its callback once for each key the map holds, with its value, and with nothing else. -/
def EnumExact (map : StrMap V) : Prop :=
  ((enumCalls map).map Prod.fst).Nodup ∧
    ∀ call, call ∈ enumCalls map ↔ ∃ k v, call = (some k, some v) ∧ smGetPtrvalue map k = some v

/-! ## Slots -/

theorem smGetCount_eq (map : StrMap V) : smGetCount map = map.slots.length := by
  have hinner : ∀ (b : Bucket V) (count : Nat), b.foldl (fun count _ => count + 1) count = count + b.length := by
    intro b count
    induction b generalizing count with
    | nil => rfl
    | cons pair b ih =>
        rw [List.foldl_cons, ih, List.length_cons]
        omega
  have houter : ∀ (bs : List (Bucket V)) (count : Nat),
      bs.foldl (fun count bucket => bucket.foldl (fun count _ => count + 1) count) count = count + bs.flatten.length := by
    intro bs count
    induction bs generalizing count with
    | nil => rfl
    | cons b bs ih =>
        rw [List.foldl_cons, ih, hinner, List.flatten_cons, List.length_append]
        omega
  rw [smGetCount, houter, Nat.zero_add, slots]

theorem smEnum_eq {σ : Type} (map : StrMap V) (enumFunc : Option CStr → Option V → σ → σ) (obj : σ) :
    smEnum map enumFunc obj = map.slots.foldl (fun obj pair => enumFunc pair.key pair.value obj) obj := by
  rw [smEnum, slots, List.foldl_flatten]

theorem enumCalls_eq (map : StrMap V) : enumCalls map = map.slots.map fun pair => (pair.key, pair.value) := by
  have hfold : ∀ (l : List (Pair V)) (calls : List (Option CStr × Option V)),
      l.foldl (fun calls pair => calls ++ [(pair.key, pair.value)]) calls =
        calls ++ l.map fun pair => (pair.key, pair.value) := by
    intro l calls
    induction l generalizing calls with
    | nil => simp
    | cons pair l ih => rw [List.foldl_cons, ih, List.map_cons, List.append_assoc, List.singleton_append]
  rw [enumCalls, smEnum_eq, hfold, List.nil_append]

/-- The slots around a bucket. -/
theorem exists_slots_eq (map : StrMap V) (key : CStr) : ∃ front rest : List (Pair V),
    map.slots = front ++ map.bucket key ++ rest ∧
      ∀ b : Bucket V, (map.setBucket key b).slots = front ++ b ++ rest := by
  have hlt := map.index_lt key
  refine ⟨(map.buckets.take (map.index key)).flatten, (map.buckets.drop (map.index key + 1)).flatten, ?_, fun b => ?_⟩
  · rw [StrMap.bucket, List.getD_eq_getElem _ _ hlt, List.append_assoc, ← List.flatten_cons,
      ← List.drop_eq_getElem_cons hlt, ← List.flatten_append, List.take_append_drop, slots]
  · rw [slots, setBucket]
    simp only
    rw [List.set_eq_take_append_cons_drop, if_pos hlt, List.flatten_append, List.flatten_cons, List.append_assoc]

theorem length_liveKeys_le (b : Bucket V) : (liveKeys b).length ≤ b.length := List.length_filterMap_le _ _

/-- With as many live keys as slots, every slot is live. -/
theorem live_of_length_eq {b : Bucket V} (h : b.length = (liveKeys b).length) : ∀ pair ∈ b,
    ∃ k v, pair = ⟨some k, some v⟩ := by
  induction b with
  | nil => exact fun pair hp => absurd hp List.not_mem_nil
  | cons p b ih =>
      have hle := length_liveKeys_le b
      rw [liveKeys_cons, List.length_append, List.length_cons] at h
      have hone : (if p.value.isSome then p.key else none).toList.length ≤ 1 := by
        cases (if p.value.isSome then p.key else none) <;> simp
      intro pair hp
      rcases List.mem_cons.mp hp with rfl | hp
      · obtain ⟨key, value⟩ := pair
        cases value with
        | none =>
            simp only [Option.isSome_none, Bool.false_eq_true, if_false, Option.toList_none, List.length_nil] at h
            omega
        | some v =>
            cases key with
            | none =>
                simp only [Option.isSome_some, if_true, Option.toList_none, List.length_nil] at h
                omega
            | some k => exact ⟨k, v, rfl⟩
      · exact ih (by omega) pair hp

/-- A live pair has its key among the live keys. -/
theorem mem_liveKeys_of_mem {b : Bucket V} {k : CStr} {v : V} (h : ⟨some k, some v⟩ ∈ b) : k ∈ liveKeys b :=
  List.mem_filterMap.mpr ⟨_, h, rfl⟩

/-- Two live pairs with the same key are in one slot. -/
theorem value_unique {b : Bucket V} (hn : (liveKeys b).Nodup) {k : CStr} {v w : V} (hv : ⟨some k, some v⟩ ∈ b)
    (hw : ⟨some k, some w⟩ ∈ b) : v = w := by
  induction b with
  | nil => exact absurd hv List.not_mem_nil
  | cons p b ih =>
      rw [liveKeys_cons] at hn
      rcases List.mem_cons.mp hv with rfl | hvb
      · rcases List.mem_cons.mp hw with heq | hwb
        · cases heq
          rfl
        · exact absurd (mem_liveKeys_of_mem hwb) (List.nodup_cons.mp hn).1
      · rcases List.mem_cons.mp hw with rfl | hwb
        · exact absurd (mem_liveKeys_of_mem hvb) (List.nodup_cons.mp hn).1
        · exact ih hn.of_append_right hvb hwb

/-- A write of a value keeps the live keys. -/
theorem liveKeys_writePair_value (key : CStr) (v : V) (b : Bucket V) :
    liveKeys (writePair key (fun pair => { pair with value := some v }) b) = liveKeys b := by
  induction b with
  | nil => rfl
  | cons pair b ih =>
      rw [writePair]
      cases hm : isMatch key pair with
      | true =>
          obtain ⟨-, hval⟩ := isMatch_iff.mp hm
          rw [if_pos rfl, liveKeys_cons, liveKeys_cons, hval, if_pos rfl]
          rfl
      | false => rw [if_neg Bool.false_ne_true, liveKeys_cons, liveKeys_cons, ih]

/-- A write that clears the pair takes its key away. -/
theorem liveKeys_writePair_clear (key : CStr) (b : Bucket V) :
    liveKeys (writePair key (fun _ => ⟨none, none⟩) b) = (liveKeys b).erase key := by
  induction b with
  | nil => rfl
  | cons pair b ih =>
      rw [writePair]
      cases hm : isMatch key pair with
      | true =>
          obtain ⟨hkey, hval⟩ := isMatch_iff.mp hm
          rw [if_pos rfl, liveKeys_cons, liveKeys_cons, hval, if_pos rfl, hkey, Option.toList_some,
            List.singleton_append, List.erase_cons_head]
          rfl
      | false =>
          have hnot : key ∉ (if pair.value.isSome then pair.key else none).toList := by
            intro hk
            split_ifs at hk with hv
            · rw [isMatch_iff.mpr ⟨by simpa using hk, hv⟩] at hm
              cases hm
            · simp at hk
          rw [if_neg Bool.false_ne_true, liveKeys_cons, liveKeys_cons, ih, List.erase_append_right _ hnot]

theorem length_writePair (key : CStr) (f : Pair V → Pair V) (b : Bucket V) : (writePair key f b).length = b.length := by
  induction b with
  | nil => rfl
  | cons pair b ih =>
      rw [writePair]
      split_ifs
      · rfl
      · rw [List.length_cons, List.length_cons, ih]

/-! ## Histories -/

namespace StrMap

/-- The live keys of all slots are different, and each is found in its bucket. -/
structure Indexed (map : StrMap V) : Prop where
  good : map.Good
  nodup : (liveKeys map.slots).Nodup
  found : ∀ k ∈ liveKeys map.slots, (smGetPtrvalue map k).isSome = true

theorem Indexed.mem_iff {map : StrMap V} (h : map.Indexed) (k : CStr) :
    k ∈ liveKeys map.slots ↔ (smGetPtrvalue map k).isSome = true := by
  refine ⟨h.found k, fun hk => ?_⟩
  obtain ⟨front, rest, hslots, -⟩ := exists_slots_eq map k
  rw [smGetPtrvalue_eq_lookup, ← mem_liveKeys] at hk
  rw [hslots, liveKeys_append, liveKeys_append]
  exact List.mem_append_left _ (List.mem_append_right _ hk)

/-- The value of a live slot is the one lookup answers. -/
theorem Indexed.mem_slots_iff {map : StrMap V} (h : map.Indexed) (k : CStr) (v : V) :
    ⟨some k, some v⟩ ∈ map.slots ↔ smGetPtrvalue map k = some v := by
  obtain ⟨front, rest, hslots, -⟩ := exists_slots_eq map k
  have hmem : ∀ w, smGetPtrvalue map k = some w → ⟨some k, some w⟩ ∈ map.slots := by
    intro w hw
    rw [smGetPtrvalue_eq_lookup, lookup, Option.bind_eq_some_iff] at hw
    obtain ⟨pair, hpair, hval⟩ := hw
    obtain ⟨hkey, -⟩ := isMatch_iff.mp (List.find?_some hpair)
    have heq : pair = ⟨some k, some w⟩ := by
      cases pair
      cases hkey
      cases hval
      rfl
    rw [hslots]
    exact List.mem_append_left _ (List.mem_append_right _ (heq ▸ List.mem_of_find?_eq_some hpair))
  refine ⟨fun hv => ?_, hmem v⟩
  obtain ⟨w, hw⟩ := Option.isSome_iff_exists.mp (h.found k (mem_liveKeys_of_mem hv))
  rw [hw, value_unique h.nodup hv (hmem w hw)]

/-- The keys the map holds. -/
theorem Indexed.ncard_eq {map : StrMap V} (h : map.Indexed) :
    Set.ncard { k | smGetPtrvalue map k ≠ none } = (liveKeys map.slots).length := by
  have hset : { k | smGetPtrvalue map k ≠ none } = ((liveKeys map.slots).toFinset : Set CStr) := by
    ext k
    rw [Finset.mem_coe, List.mem_toFinset, h.mem_iff, Option.isSome_iff_ne_none]
    rfl
  rw [hset, Set.ncard_coe_finset, List.toFinset_card_of_nodup h.nodup]

theorem indexed_smNew (capacity : Nat) (h : 0 < capacity) : (smNew V capacity h).Indexed := by
  have hslots : (smNew V capacity h).slots = [] := List.flatten_replicate_nil
  refine ⟨good_smNew capacity h, ?_, fun k hk => ?_⟩
  · rw [hslots]
    exact List.nodup_nil
  · rw [hslots] at hk
    exact absurd hk List.not_mem_nil

end StrMap

namespace MapCall

/-- A put of a value that gets its blocks, or any other call. -/
def Stores : MapCall V → Prop
  | put _ value okKey okPairs => value.isSome = true ∧ okKey = true ∧ okPairs = true
  | _ => True

/-- A removal of a key the map holds. -/
def hits (map : StrMap V) : MapCall V → Bool
  | remove key => (smGetPtrvalue map key).isSome
  | _ => false

end MapCall

/-- How many calls of a history removed a key that was there. -/
def removals : StrMap V → List (MapCall V) → Nat
  | _, [] => 0
  | map, call :: calls => (if call.hits map then 1 else 0) + removals (call.apply map) calls

/-- Slots minus live keys is what a call leaves alone, or raises by one when it removes a key. -/
structure StrMap.Kept (map map' : StrMap V) (n : Nat) : Prop where
  indexed : map'.Indexed
  slots : map'.slots.length + (liveKeys map.slots).length = map.slots.length + (liveKeys map'.slots).length + n

theorem StrMap.Indexed.kept_refl {map : StrMap V} (h : map.Indexed) : map.Kept map 0 := ⟨h, rfl⟩

/-- A new value for a live pair. -/
theorem StrMap.Indexed.setValue {map map' : StrMap V} (h : map.Indexed) {key : CStr} {v : V}
    (he : map' = map.setBucket key (writePair key (fun pair => { pair with value := some v }) (map.bucket key)))
    (hgood : map'.Good) (hfound : ∀ k ∈ liveKeys map.slots, (smGetPtrvalue map' k).isSome = true) : map.Kept map' 0 := by
  obtain ⟨front, rest, hslots, hset⟩ := exists_slots_eq map key
  have hlive : liveKeys map'.slots = liveKeys map.slots := by
    rw [he, hset, hslots]
    simp only [liveKeys_append, liveKeys_writePair_value]
  have hlen : map'.slots.length = map.slots.length := by
    rw [he, hset, hslots]
    simp only [List.length_append, length_writePair]
  refine ⟨⟨hgood, ?_, fun k hk => hfound k ?_⟩, ?_⟩
  · rw [hlive]
    exact h.nodup
  · rwa [hlive] at hk
  · rw [hlive, hlen, Nat.add_zero]

/-- A new pair for a key the map does not hold. -/
theorem StrMap.Indexed.addPair {map map' : StrMap V} (h : map.Indexed) {key : CStr} {v : V}
    (hk : key ∉ liveKeys (map.bucket key)) (he : map' = map.setBucket key (map.bucket key ++ [⟨some key, some v⟩]))
    (hgood : map'.Good) (hfound : ∀ k, k = key ∨ k ∈ liveKeys map.slots → (smGetPtrvalue map' k).isSome = true) :
    map.Kept map' 0 := by
  obtain ⟨front, rest, hslots, hset⟩ := exists_slots_eq map key
  have hnew : key ∉ liveKeys map.slots := by
    rw [h.mem_iff, smGetPtrvalue_eq_lookup, ← mem_liveKeys]
    exact hk
  have hperm : (liveKeys map'.slots).Perm (key :: liveKeys map.slots) := by
    rw [he, hset, hslots]
    simp only [liveKeys_append, List.append_assoc, List.singleton_append]
    rw [← List.append_assoc, ← List.append_assoc]
    exact List.perm_middle
  have hlen : map'.slots.length = map.slots.length + 1 := by
    rw [he, hset, hslots]
    simp only [List.length_append, List.length_cons, List.length_nil]
    omega
  refine ⟨⟨hgood, ?_, fun k hk => hfound k ?_⟩, ?_⟩
  · exact hperm.nodup_iff.mpr (List.nodup_cons.mpr ⟨hnew, h.nodup⟩)
  · exact List.mem_cons.mp (hperm.mem_iff.mp hk)
  · rw [hperm.length_eq, hlen, List.length_cons]
    omega

/-- A pair that is cleared: the slot stays. -/
theorem StrMap.Indexed.clearPair {map map' : StrMap V} (h : map.Indexed) {key : CStr}
    (hkey : key ∈ liveKeys (map.bucket key))
    (he : map' = map.setBucket key (writePair key (fun _ => ⟨none, none⟩) (map.bucket key))) (hgood : map'.Good)
    (hother : ∀ k, k ≠ key → smGetPtrvalue map' k = smGetPtrvalue map k) : map.Kept map' 1 := by
  obtain ⟨front, rest, hslots, hset⟩ := exists_slots_eq map key
  have hmem : key ∈ liveKeys map.slots := by
    rw [hslots, liveKeys_append, liveKeys_append]
    exact List.mem_append_left _ (List.mem_append_right _ hkey)
  have hnot : key ∉ liveKeys front := by
    -- the key is in its bucket and nowhere else
    have hnodup := h.nodup
    rw [hslots, liveKeys_append, liveKeys_append, List.nodup_append, List.nodup_append] at hnodup
    exact fun hf => hnodup.1.2.2 key hf key hkey rfl
  have hlive : liveKeys map'.slots = (liveKeys map.slots).erase key := by
    rw [he, hset, hslots]
    simp only [liveKeys_append, liveKeys_writePair_clear]
    rw [List.append_assoc, List.append_assoc, List.erase_append_right _ hnot, List.erase_append_left _ hkey]
  have hlen : map'.slots.length = map.slots.length := by
    rw [he, hset, hslots]
    simp only [List.length_append, length_writePair]
  refine ⟨⟨hgood, ?_, fun k hk => ?_⟩, ?_⟩
  · rw [hlive]
    exact h.nodup.erase key
  · rw [hlive, h.nodup.mem_erase_iff] at hk
    rw [hother k hk.1]
    exact h.found k hk.2
  · have hpos := List.length_pos_of_mem hmem
    rw [hlive, hlen, List.length_erase_of_mem hmem]
    omega

theorem StrMap.Indexed.put {map : StrMap V} (h : map.Indexed) (key : CStr) (v : V) :
    map.Kept (smPutPtrvalue true true map key (some v)).2 0 := by
  have hgood := Good.put h.good true true key (some v)
  have hok := smPutPtrvalue_ok map key (some v)
  have hself := smGetPtrvalue_put_self h.good hok
  have hfound : ∀ k, k = key ∨ k ∈ liveKeys map.slots →
      (smGetPtrvalue (smPutPtrvalue true true map key (some v)).2 k).isSome = true := by
    intro k hk
    by_cases hkey : k = key
    · rw [hkey, hself]
      rfl
    · rw [smGetPtrvalue_put_of_ne true true map hkey]
      exact h.found k (hk.resolve_left hkey)
  rcases smPutPtrvalue_cases true true map key (some v) with he | ⟨-, he⟩ | ⟨hk, he⟩
  · rw [he] at hok
    cases hok
  · exact h.setValue (congrArg Prod.snd he) hgood fun k hk => hfound k (Or.inr hk)
  · exact h.addPair hk (congrArg Prod.snd he) hgood hfound

theorem StrMap.Indexed.remove {map : StrMap V} (h : map.Indexed) (key : CStr) :
    map.Kept (smRemovePtrvalue map key) (if (smGetPtrvalue map key).isSome then 1 else 0) := by
  have hsome : (getPair (map.bucket key) key).isSome = (smGetPtrvalue map key).isSome := by
    rw [isSome_getPair, smGetPtrvalue_eq_lookup]
  cases hpair : getPair (map.bucket key) key with
  | none =>
      have he : smRemovePtrvalue map key = map := by simp only [smRemovePtrvalue, hpair]
      rw [hpair] at hsome
      rw [he, ← hsome]
      exact h.kept_refl
  | some pair =>
      have hkey : key ∈ liveKeys (map.bucket key) := by
        rw [mem_liveKeys, ← isSome_getPair, hpair]
        rfl
      rw [hpair] at hsome
      rw [← hsome, Option.isSome_some, if_pos rfl]
      exact h.clearPair hkey (by simp only [smRemovePtrvalue, hpair]) (Good.remove h.good key)
        fun k hk => smGetPtrvalue_remove_of_ne map hk

theorem StrMap.Indexed.apply {map : StrMap V} (h : map.Indexed) {call : MapCall V} (hc : call.Stores) :
    map.Kept (call.apply map) (if call.hits map then 1 else 0) := by
  cases call with
  | put key value okKey okPairs =>
      obtain ⟨hv, rfl, rfl⟩ := hc
      obtain ⟨v, rfl⟩ := Option.isSome_iff_exists.mp hv
      exact h.put key v
  | remove key => exact h.remove key
  | get key => exact h.kept_refl
  | exist key => exact h.kept_refl

theorem StrMap.Indexed.runCalls {map : StrMap V} (h : map.Indexed) {calls : List (MapCall V)}
    (hcalls : ∀ call ∈ calls, call.Stores) : map.Kept (runCalls map calls) (removals map calls) := by
  induction calls generalizing map with
  | nil => exact h.kept_refl
  | cons call calls ih =>
      have hstep := h.apply (hcalls call List.mem_cons_self)
      have hrun := ih hstep.indexed fun c hc => hcalls c (List.mem_cons_of_mem call hc)
      refine ⟨hrun.indexed, ?_⟩
      have h1 := hstep.slots
      have h2 := hrun.slots
      have hcons : Lookaround.runCalls map (call :: calls) = Lookaround.runCalls (call.apply map) calls := rfl
      rw [removals, hcons]
      omega

/-- **Slots of a history**: the keys the map holds, and the removals. -/
theorem length_slots (capacity : Nat) (h : 0 < capacity) {calls : List (MapCall V)}
    (hcalls : ∀ call ∈ calls, call.Stores) :
    (runCalls (smNew V capacity h) calls).slots.length =
      (liveKeys (runCalls (smNew V capacity h) calls).slots).length + removals (smNew V capacity h) calls := by
  have hkept := (indexed_smNew capacity h).runCalls hcalls
  have hslots : (smNew V capacity h).slots = [] := List.flatten_replicate_nil
  have hlen := hkept.slots
  rw [hslots] at hlen
  simpa [liveKeys] using hlen

theorem removals_eq_zero_iff {map : StrMap V} {calls : List (MapCall V)} : removals map calls = 0 ↔
    ∀ pre key post, calls = pre ++ .remove key :: post → smGetPtrvalue (runCalls map pre) key = none := by
  induction calls generalizing map with
  | nil => simp [removals]
  | cons call calls ih =>
      rw [removals, Nat.add_eq_zero_iff, ih]
      constructor
      · rintro ⟨hfirst, hrest⟩ pre key post heq
        cases pre with
        | nil =>
            cases heq
            cases hget : smGetPtrvalue map key with
            | none => exact hget
            | some v => simp [MapCall.hits, hget] at hfirst
        | cons c pre =>
            cases heq
            exact hrest pre key post rfl
      · intro hall
        refine ⟨?_, fun pre key post heq => ?_⟩
        · cases call with
          | remove key =>
              have hnone : smGetPtrvalue map key = none := hall [] key calls rfl
              simp [MapCall.hits, hnone]
          | put _ _ _ _ => rfl
          | get _ => rfl
          | exist _ => rfl
        · exact hall (call :: pre) key post (by rw [heq, List.cons_append])

/-- Enumeration is exact when every slot is live, and only then. -/
theorem StrMap.Indexed.enumExact_iff {map : StrMap V} (h : map.Indexed) :
    EnumExact map ↔ map.slots.length = (liveKeys map.slots).length := by
  rw [EnumExact, enumCalls_eq]
  constructor
  · rintro ⟨-, hcalls⟩
    have hlive : ∀ pair ∈ map.slots, (if pair.value.isSome then pair.key else none).isSome = true := by
      intro pair hp
      obtain ⟨k, v, heq, -⟩ := (hcalls (pair.key, pair.value)).mp (List.mem_map_of_mem hp)
      obtain ⟨hk, hv⟩ := Prod.mk.inj heq
      rw [hk, hv]
      rfl
    rw [liveKeys, List.length_filterMap_eq_countP, List.countP_eq_length.mpr hlive]
  · intro hlen
    have hlive := live_of_length_eq hlen
    refine ⟨?_, fun call => ⟨fun hc => ?_, ?_⟩⟩
    · have hkeys : (map.slots.map fun pair => (pair.key, pair.value)).map Prod.fst = (liveKeys map.slots).map some := by
        rw [List.map_map, liveKeys, List.map_filterMap, ← List.filterMap_eq_map]
        refine List.filterMap_congr fun pair hp => ?_
        obtain ⟨k, v, rfl⟩ := hlive pair hp
        rfl
      rw [hkeys]
      exact h.nodup.map (Option.some_injective _)
    · obtain ⟨pair, hp, rfl⟩ := List.mem_map.mp hc
      obtain ⟨k, v, rfl⟩ := hlive pair hp
      exact ⟨k, v, rfl, (h.mem_slots_iff k v).mp hp⟩
    · rintro ⟨k, v, rfl, hv⟩
      exact List.mem_map.mpr ⟨_, (h.mem_slots_iff k v).mpr hv, rfl⟩

/-- **When count and enumeration agree with lookup.** For every history of puts of values with allocations that succeed,
and of removals: exactly when no removal was for a key the map held. -/
theorem smGetCount_smEnum_iff (capacity : Nat) (h : 0 < capacity) (calls : List (MapCall V))
    (hcalls : ∀ call ∈ calls, call.Stores) :
    let map := runCalls (smNew V capacity h) calls
    smGetCount map = Set.ncard { k | smGetPtrvalue map k ≠ none } ∧ EnumExact map ↔
      ∀ pre key post, calls = pre ++ .remove key :: post →
        smGetPtrvalue (runCalls (smNew V capacity h) pre) key = none := by
  intro map
  have hindexed : map.Indexed := ((indexed_smNew capacity h).runCalls hcalls).indexed
  have hlen : map.slots.length = (liveKeys map.slots).length + removals (smNew V capacity h) calls :=
    length_slots capacity h hcalls
  rw [← removals_eq_zero_iff, smGetCount_eq, hindexed.ncard_eq, hindexed.enumExact_iff, and_self]
  omega

def keyA : CStr := ⟨[97], CStr.noNul_a⟩
def keyB : CStr := ⟨[98], CStr.noNul_b⟩

/-- Two keys of one bucket, the removal of a key that is not there, and a replaced value. -/
def twoKeys : List (MapCall Nat) :=
  [.put keyA (some 1) true true, .remove keyB, .put keyB (some 2) true true, .put keyA (some 3) true true]

theorem smGetCount_smEnum_twoKeys : enumCalls (runCalls (smNew Nat 1 Nat.one_pos) twoKeys) =
      [(some keyA, some 3), (some keyB, some 2)] ∧
    smGetCount (runCalls (smNew Nat 1 Nat.one_pos) twoKeys) =
      Set.ncard { k | smGetPtrvalue (runCalls (smNew Nat 1 Nat.one_pos) twoKeys) k ≠ none } ∧
    EnumExact (runCalls (smNew Nat 1 Nat.one_pos) twoKeys) := by
  have hcalls : ∀ call ∈ twoKeys, call.Stores := by simp [twoKeys, MapCall.Stores]
  have hzero : removals (smNew Nat 1 Nat.one_pos) twoKeys = 0 := by decide +kernel
  exact ⟨by decide +kernel,
    (smGetCount_smEnum_iff 1 Nat.one_pos twoKeys hcalls).mpr (removals_eq_zero_iff.mp hzero)⟩

/-- A removed key is still counted, and the callback is called with NULL for it. -/
theorem smGetCount_after_remove :
    let map := runCalls (smNew Nat 1 Nat.one_pos) [.put keyA (some 1) true true, .remove keyA]
    smGetCount map = 1 ∧ Set.ncard { k | smGetPtrvalue map k ≠ none } = 0 ∧ enumCalls map = [(none, none)] ∧
      ¬ EnumExact map := by
  intro map
  have hcalls : enumCalls map = [(none, none)] := by decide +kernel
  have hgood := Good.put (good_smNew (V := Nat) 1 Nat.one_pos) true true keyA (some 1)
  have hmap : map = smRemovePtrvalue (smPutPtrvalue true true (smNew Nat 1 Nat.one_pos) keyA (some 1)).2 keyA := rfl
  have hnone : ∀ k, smGetPtrvalue map k = none := by
    intro k
    rw [hmap]
    by_cases hk : k = keyA
    · rw [hk, smGetPtrvalue_remove_self hgood keyA]
    · rw [smGetPtrvalue_remove_of_ne _ hk, smGetPtrvalue_put_of_ne true true _ hk, smGetPtrvalue_smNew]
  refine ⟨by decide +kernel, ?_, hcalls, fun hexact => ?_⟩
  · have hempty : { k | smGetPtrvalue map k ≠ none } = ∅ := by
      ext k
      simp [hnone k]
    rw [hempty, Set.ncard_empty]
  · obtain ⟨k, v, heq, -⟩ := (hexact.2 (none, none)).mp (hcalls ▸ List.mem_cons_self)
    cases heq

end Lookaround
