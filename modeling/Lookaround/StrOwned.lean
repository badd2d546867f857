import Lookaround.StrPool

/-!
# What a string map owns

A string map in its pool stands for a map of lists, and it owns its blocks: nobody else has them, and there are no others.

* `Layout` : where the blocks of a map are; `Layout.blocks` : all of them;
* `Values` : what a value of a pair owns and stands for, `pointers` : nothing and itself, `strings` : a text;
* `Stands h0 h L m` : in the pool `h` the map at `L` stands for `m`, and `h` has the blocks of `h0`, untouched, and those of `L`;
* `Stands.change_lot`, `Stands.change_pair` : the ways in which the calls change it.
-/

namespace Lookaround

namespace Pooled

open Library Pool StrMap

variable {V W : Type}

/-! ## Texts -/

/-- A text with its terminator. -/
def TextAt (h : Pool (Block V)) (a : Addr) (s : CStr) : Prop := ∃ rest, h.load a = some (.chars (s.bytes ++ 0 :: rest))

theorem strcmp_eq {s k : Bytes} (hs : 0 ∉ s) (hk : 0 ∉ k) (rest : Bytes) :
    strcmp (s ++ 0 :: rest) (k ++ [0]) = some (decide (s = k)) := by
  induction s generalizing k with
  | nil =>
      cases k with
      | nil => rfl
      | cons b k =>
          have hb : (0 : UInt8) ≠ b := fun h => hk (h ▸ List.mem_cons_self)
          simp [strcmp, hb]
  | cons a s ih =>
      have ha : a ≠ 0 := fun h => hs (h ▸ List.mem_cons_self)
      cases k with
      | nil => simp [strcmp, ha]
      | cons b k =>
          rw [List.mem_cons, not_or] at hs hk
          rw [List.cons_append, List.cons_append, strcmp]
          by_cases hab : a = b
          · rw [if_neg (not_not.mpr hab), if_neg ha, ih hs.2 hk.2, hab]
            simp
          · rw [if_pos hab]
            simp [hab]

theorem strlen_eq {s : Bytes} (hs : 0 ∉ s) (rest : Bytes) : strlen (s ++ 0 :: rest) = some s.length := by
  unfold strlen
  induction s with
  | nil => rfl
  | cons a s ih =>
      rw [List.mem_cons, not_or] at hs
      rw [List.cons_append, List.findIdx?_cons, ih hs.2]
      simp [Ne.symm hs.1]

theorem strcpy_eq {cells : Bytes} {s : CStr} (h : s.bytes.length + 1 ≤ cells.length) :
    strcpy cells s = some (s.bytes ++ 0 :: cells.drop (s.bytes.length + 1)) := if_pos h

/-! ## Layouts -/

/-- A bucket: its pair array and the pairs in it. -/
structure Lot (V : Type) where
  arr : Option Addr
  pairs : List (Pair V)

/-- The bucket as the bucket array has it. -/
def Lot.raw (lot : Lot V) : Bucket := ⟨lot.pairs.length, lot.arr⟩

/-- The blocks of a string map, with what is in its arrays. -/
structure Layout (V : Type) where
  self : Addr
  table : Addr
  lots : List (Lot V)

/-- What the values of a map are. -/
structure Values (V W : Type) where
  /-- the blocks a value owns -/
  blocks : V → List Addr
  /-- what it stands for -/
  holds : Pool (Block V) → V → W → Prop
  congr : ∀ {h h' : Pool (Block V)} {v : V} {w : W}, (∀ a ∈ blocks v, h'.load a = h.load a) → holds h v w → holds h' v w

/-- A `void *` of the caller. -/
def pointers (V : Type) : Values V V where
  blocks := fun _ => []
  holds := fun _ v w => v = w
  congr := fun _ hw => hw

/-- A `char *` into the pool. -/
def strings : Values Addr CStr where
  blocks := fun a => [a]
  holds := TextAt
  congr := by
    intro h h' v w hl hw
    obtain ⟨rest, hrest⟩ := hw
    exact ⟨rest, by rw [hl v List.mem_cons_self, hrest]⟩

section Blocks

variable (vals : Values V W)

def Pair.blocks (p : Pair V) : List Addr := p.key.toList ++ p.value.elim [] vals.blocks

def Lot.blocks (lot : Lot V) : List Addr := lot.arr.toList ++ lot.pairs.flatMap (Pair.blocks vals)

def Layout.blocks (L : Layout V) : List Addr := L.self :: L.table :: L.lots.flatMap (Lot.blocks vals)

/-- A pair of an array, and the pair it stands for. -/
structure PairStands (h : Pool (Block V)) (p : Pair V) (q : Lookaround.Pair W) : Prop where
  key : Option.Rel (TextAt h) p.key q.key
  value : Option.Rel (vals.holds h) p.value q.value

/-- The array of a bucket is in the pool; an empty bucket has none. -/
def Lot.In (h : Pool (Block V)) (lot : Lot V) : Prop :=
  (lot.arr = none ∧ lot.pairs = []) ∨ ∃ a, lot.arr = some a ∧ lot.pairs ≠ [] ∧ h.load a = some (.pairs lot.pairs)

/-- A bucket, and the list of pairs it stands for. -/
structure LotStands (h : Pool (Block V)) (lot : Lot V) (b : Lookaround.Bucket W) : Prop where
  arr : lot.In h
  pairs : List.Forall₂ (PairStands vals h) lot.pairs b

/-- **The map at `L` stands for `m`** and owns its blocks. -/
structure Stands (h0 h : Pool (Block V)) (L : Layout V) (m : StrMap W) : Prop where
  owns : Owns h0 h (L.blocks vals)
  self : h.load L.self = some (.map ⟨L.lots.length, L.table⟩)
  table : h.load L.table = some (.buckets (L.lots.map Lot.raw))
  lots : List.Forall₂ (LotStands vals h) L.lots m.buckets

end Blocks

variable {vals : Values V W} {h h' h0 : Pool (Block V)} {L : Layout V} {m : StrMap W} {lot : Lot V} {p : Pair V}
  {q : Lookaround.Pair W} {ps : List (Pair V)} {b : Lookaround.Bucket W} {key : CStr}

theorem TextAt.congr {a : Nat} {s : CStr} (hl : h'.load a = h.load a) (ht : TextAt h a s) : TextAt h' a s := by
  obtain ⟨rest, hrest⟩ := ht
  exact ⟨rest, by rw [hl, hrest]⟩

theorem key_congr {k : Option Addr} {s : Option CStr} (hl : ∀ a ∈ k.toList, h'.load a = h.load a)
    (hk : Option.Rel (TextAt h) k s) : Option.Rel (TextAt h') k s := by
  cases hk with
  | none => exact .none
  | some ht => exact .some (ht.congr (hl _ (by simp)))

theorem PairStands.congr (hl : ∀ a ∈ p.blocks vals, h'.load a = h.load a) (hp : PairStands vals h p q) :
    PairStands vals h' p q := by
  obtain ⟨key, value⟩ := p
  obtain ⟨qkey, qvalue⟩ := q
  obtain ⟨hkey, hvalue⟩ := hp
  constructor
  · exact key_congr (fun a ha => hl a (List.mem_append_left _ ha)) hkey
  · cases hvalue with
    | none => exact .none
    | some hv => exact .some (vals.congr (fun a ha => hl a (List.mem_append_right _ ha)) hv)

theorem Lot.In.congr (hl : ∀ a ∈ lot.arr.toList, h'.load a = h.load a) (hs : lot.In h) : lot.In h' := by
  rcases hs with hnil | ⟨a, ha, hne, hload⟩
  · exact Or.inl hnil
  · refine Or.inr ⟨a, ha, hne, ?_⟩
    rw [hl a (by simp [ha]), hload]

theorem LotStands.congr (hl : ∀ a ∈ lot.blocks vals, h'.load a = h.load a) (hs : LotStands vals h lot b) :
    LotStands vals h' lot b := by
  refine ⟨hs.arr.congr fun a ha => hl a (List.mem_append_left _ ha), ?_⟩
  · have hmem : ∀ p ∈ lot.pairs, ∀ a ∈ p.blocks vals, h'.load a = h.load a := fun p hp a ha =>
      hl a (List.mem_append_right _ (List.mem_flatMap.mpr ⟨p, hp, ha⟩))
    exact List.forall₂_iff_get.mpr ⟨hs.pairs.length_eq, fun i hi hi' =>
      ((List.forall₂_iff_get.mp hs.pairs).2 i hi hi').congr (hmem _ (List.get_mem _ _))⟩

/-! ## Reading -/

theorem charsAt_ok {a : Nat} {cells : Bytes} (hl : h.load a = some (.chars cells)) : charsAt h a = .ok cells := by
  rw [charsAt, hl]

theorem pairsAt_ok {a : Nat} (hl : h.load a = some (.pairs ps)) : pairsAt h a = .ok ps := by
  rw [pairsAt, hl]

/-- The test of `get_pair` on a pair of the array. -/
theorem getPairLoop_cons (hp : PairStands vals h p q) (key : CStr) (ps : List (Pair V)) :
    getPairLoop h key (p :: ps) = if isMatch key q then .ok (some 0) else do
      let i ← getPairLoop h key ps
      return i.map (· + 1) := by
  obtain ⟨pkey, pvalue⟩ := p
  obtain ⟨qkey, qvalue⟩ := q
  obtain ⟨hkey, hvalue⟩ := hp
  cases hkey with
  | none => rfl
  | @some k s ht =>
      cases hvalue with
      | none => rfl
      | @some v w hv =>
          obtain ⟨rest, hrest⟩ := ht
          rw [getPairLoop]
          simp only [charsAt_ok hrest, strcmp_eq s.noNul key.noNul, checked, Option.elim_some, bind, Except.bind]
          have hmatch : isMatch key (⟨some s, some w⟩ : Lookaround.Pair W) = decide (s.bytes = key.bytes) := by
            rw [Bool.eq_iff_iff, isMatch_iff]
            simp [CStr.ext_iff]
          rw [hmatch]
          by_cases hs : s.bytes = key.bytes
          · simp only [hs, decide_true, if_true]
            rfl
          · simp only [hs, decide_false, Bool.false_eq_true, if_false]

theorem getPairLoop_eq (hps : List.Forall₂ (PairStands vals h) ps b) (key : CStr) :
    getPairLoop h key ps = .ok (b.findIdx? (isMatch key)) := by
  induction hps with
  | nil => rfl
  | @cons p q ps b hp _ ih =>
      rw [getPairLoop_cons hp, List.findIdx?_cons, ih]
      split_ifs <;> rfl

/-- `get_pair`: no pair of the list matches, or the first that does. -/
theorem getPair_cases {bucket : Bucket} (hbucket : pairsOf h bucket = .ok ps)
    (hps : List.Forall₂ (PairStands vals h) ps b) (key : CStr) :
    (StrMap.getPair b key = none ∧ getPair h bucket key = .ok none) ∨
      ∃ i p q, ps[i]? = some p ∧ b[i]? = some q ∧ PairStands vals h p q ∧ isMatch key q = true ∧
        b.findIdx? (isMatch key) = some i ∧ getPair h bucket key = .ok (some (i, p)) := by
  unfold getPair
  simp only [hbucket, getPairLoop_eq hps, bind, Except.bind]
  cases hi : b.findIdx? (isMatch key) with
  | none =>
      left
      refine ⟨?_, rfl⟩
      rw [List.findIdx?_eq_none_iff] at hi
      rw [StrMap.getPair, List.find?_eq_none]
      intro q hq
      simp [hi q hq]
  | some i =>
      right
      obtain ⟨hlt, hm, -⟩ := List.findIdx?_eq_some_iff_getElem.mp hi
      have hlt' : i < ps.length := by rwa [hps.length_eq]
      refine ⟨i, ps[i], b[i], List.getElem?_eq_getElem hlt', List.getElem?_eq_getElem hlt, ?_, hm, rfl, ?_⟩
      · exact (List.forall₂_iff_get.mp hps).2 i hlt' hlt
      · simp only [List.getElem?_eq_getElem hlt', checked, Option.elim_some]
        rfl

theorem pairsOf_raw (hs : lot.In h) : pairsOf h lot.raw = .ok lot.pairs := by
  unfold pairsOf
  rcases hs with ⟨-, hnil⟩ | ⟨a, ha, hne, hload⟩
  · simp [Lot.raw, hnil]
  · have hcount : lot.raw.count ≠ 0 := by simpa [Lot.raw] using hne
    rw [if_neg hcount]
    simp [Lot.raw, ha, nonNull, bind, Except.bind, pairsAt_ok hload]

/-- The bucket of a key in the pool and in the list. -/
theorem Stands.bucketFor_ok (hs : Stands vals h0 h L m) (key : CStr) : ∃ lot, L.lots[m.index key]? = some lot ∧
    bucketFor h L.self key = .ok (L.table, L.lots.map Lot.raw, m.index key, lot.raw) ∧ LotStands vals h lot (m.bucket key) := by
  have hlen := hs.lots.length_eq
  have hlt : m.index key < m.buckets.length := m.index_lt key
  have hlt' : m.index key < L.lots.length := by rwa [hlen]
  refine ⟨L.lots[m.index key], List.getElem?_eq_getElem hlt', ?_, ?_⟩
  · have hindex : (StrMap.hash key).toNat % L.lots.length = m.index key := by rw [hlen]; rfl
    have hget : (L.lots.map Lot.raw)[m.index key]? = some L.lots[m.index key].raw := by
      rw [List.getElem?_map, List.getElem?_eq_getElem hlt']
      rfl
    unfold bucketFor
    simp only [mapAt, hs.self, bucketsAt, hs.table, hindex, hget, checked, Option.elim_some, bind, Except.bind]
    rfl
  · have hbucket : m.bucket key = m.buckets[m.index key] := by
      rw [StrMap.bucket, List.getD_eq_getElem _ _ hlt]
    rw [hbucket]
    exact (List.forall₂_iff_get.mp hs.lots).2 _ hlt' hlt

/-! ## Writing -/

/-- The map with another bucket. -/
def Layout.setLot (L : Layout V) (i : Nat) (lot : Lot V) : Layout V := { L with lots := L.lots.set i lot }

/-- All blocks but those of one bucket. -/
def Layout.others (vals : Values V W) (L : Layout V) (i : Nat) : List Addr :=
  L.self :: L.table :: (L.lots.eraseIdx i).flatMap (Lot.blocks vals)

theorem blocks_perm {i : Nat} (hlot : L.lots[i]? = some lot) :
    (L.blocks vals).Perm (lot.blocks vals ++ L.others vals i) := by
  obtain ⟨hi, rfl⟩ := List.getElem?_eq_some_iff.mp hlot
  have hp := (List.getElem_cons_eraseIdx_perm hi).symm.flatMap_right (Lot.blocks vals)
  rw [List.flatMap_cons] at hp
  exact ((hp.cons _).cons _).trans (List.perm_append_comm_assoc [L.self, L.table] _ _)

theorem blocks_setLot_perm {i : Nat} (hlot : L.lots[i]? = some lot) (lot' : Lot V) :
    ((L.setLot i lot').blocks vals).Perm (lot'.blocks vals ++ L.others vals i) := by
  have hi : i < L.lots.length := (List.getElem?_eq_some_iff.mp hlot).1
  have hget : (L.setLot i lot').lots[i]? = some lot' := List.getElem?_set_self hi
  have hothers : (L.setLot i lot').others vals i = L.others vals i := by
    unfold Layout.others Layout.setLot
    rw [List.eraseIdx_set_eq]
  rw [← hothers]
  exact blocks_perm hget

/-- The blocks of the other buckets are among the others. -/
theorem blocks_subset_others {i j : Nat} {lot' : Lot V} (hij : j ≠ i) (hlot' : L.lots[j]? = some lot') :
    ∀ a ∈ lot'.blocks vals, a ∈ L.others vals i := by
  intro a ha
  refine List.mem_cons_of_mem _ (List.mem_cons_of_mem _ (List.mem_flatMap.mpr ⟨lot', ?_, ha⟩))
  rw [List.mem_eraseIdx_iff_getElem?]
  exact ⟨j, hij, hlot'⟩

/-- **One bucket changes**, and with it the bucket array; the other blocks stay. -/
theorem Stands.change_lot (hs : Stands vals h0 h L m) (hlot : L.lots[m.index key]? = some lot) {lot' : Lot V}
    (howns : Owns h0 h' (lot'.blocks vals ++ L.others vals (m.index key)))
    (htable : h'.load L.table = some (.buckets ((L.lots.set (m.index key) lot').map Lot.raw)))
    (hnew : LotStands vals h' lot' b)
    (hframe : ∀ a ∈ L.others vals (m.index key), a ≠ L.table → h'.load a = h.load a) :
    Stands vals h0 h' (L.setLot (m.index key) lot') (m.setBucket key b) where
  owns := howns.perm (blocks_setLot_perm hlot lot').symm
  self := by
    have hne : L.self ≠ L.table := by
      have hnd := hs.owns.nodup
      simp only [Layout.blocks, List.nodup_cons, List.mem_cons, not_or] at hnd
      exact hnd.1.1
    show h'.load L.self = some (.map ⟨(L.lots.set (m.index key) lot').length, L.table⟩)
    rw [hframe _ List.mem_cons_self hne, hs.self, List.length_set]
  table := htable
  lots := by
    have htab : L.table ∉ L.lots.flatMap (Lot.blocks vals) := by
      have hnd := hs.owns.nodup
      simp only [Layout.blocks, List.nodup_cons] at hnd
      exact hnd.2.1
    apply List.forall₂_iff_get.mpr
    refine ⟨by simp [Layout.setLot, StrMap.setBucket, hs.lots.length_eq], fun j hj hj' => ?_⟩
    simp only [Layout.setLot, StrMap.setBucket, List.get_eq_getElem, List.getElem_set]
    by_cases hij : m.index key = j
    · simp only [hij, if_true]
      exact hnew
    · simp only [hij, if_false]
      have hlt : j < L.lots.length := by simpa [Layout.setLot] using hj
      have hlt' : j < m.buckets.length := by rwa [← hs.lots.length_eq]
      have hold : LotStands vals h L.lots[j] m.buckets[j] := (List.forall₂_iff_get.mp hs.lots).2 j hlt hlt'
      refine hold.congr fun a ha => hframe a ?_ ?_
      · exact blocks_subset_others (Ne.symm hij) (List.getElem?_eq_getElem hlt) a ha
      · rintro rfl
        exact htab (List.mem_flatMap.mpr ⟨_, List.getElem_mem hlt, ha⟩)

/-! ## One pair -/

/-- All blocks of a bucket but those of one pair. -/
def Lot.others (vals : Values V W) (lot : Lot V) (i : Nat) : List Addr :=
  lot.arr.toList ++ (lot.pairs.eraseIdx i).flatMap (Pair.blocks vals)

theorem lot_blocks_perm {i : Nat} (hp : lot.pairs[i]? = some p) :
    (lot.blocks vals).Perm (p.blocks vals ++ lot.others vals i) := by
  obtain ⟨hi, rfl⟩ := List.getElem?_eq_some_iff.mp hp
  have hperm := (List.getElem_cons_eraseIdx_perm hi).symm.flatMap_right (Pair.blocks vals)
  rw [List.flatMap_cons] at hperm
  exact (hperm.append_left _).trans (List.perm_append_comm_assoc _ _ _)

/-- The bucket with another pair at `i`. -/
def Lot.setPair (lot : Lot V) (i : Nat) (p : Pair V) : Lot V := { lot with pairs := lot.pairs.set i p }

theorem lot_blocks_setPair_perm {i : Nat} (hp : lot.pairs[i]? = some p) (p' : Pair V) :
    ((lot.setPair i p').blocks vals).Perm (p'.blocks vals ++ lot.others vals i) := by
  have hi : i < lot.pairs.length := (List.getElem?_eq_some_iff.mp hp).1
  have hget : (lot.setPair i p').pairs[i]? = some p' := List.getElem?_set_self hi
  have hothers : (lot.setPair i p').others vals i = lot.others vals i := by
    unfold Lot.others Lot.setPair
    rw [List.eraseIdx_set_eq]
  rw [← hothers]
  exact lot_blocks_perm hget

/-- The blocks of a map, those of one pair first. -/
theorem Stands.blocks_pair (hs : Stands vals h0 h L m) {i j : Nat} (hlot : L.lots[j]? = some lot)
    (hp : lot.pairs[i]? = some p) : Owns h0 h (p.blocks vals ++ (lot.others vals i ++ L.others vals j)) := by
  have hpair : (lot.blocks vals).Perm (p.blocks vals ++ lot.others vals i) := lot_blocks_perm hp
  have hperm := (blocks_perm hlot).trans (hpair.append_right (L.others vals j))
  rw [List.append_assoc] at hperm
  exact hs.owns.perm hperm

/-- **One pair changes**, and with it the pair array; the other blocks stay. -/
theorem Stands.change_pair (hs : Stands vals h0 h L m) (hlot : L.lots[m.index key]? = some lot)
    (hls : LotStands vals h lot (m.bucket key)) {a i : Nat} (ha : lot.arr = some a) (hp : lot.pairs[i]? = some p)
    {p' : Pair V} {q' : Lookaround.Pair W}
    (howns : Owns h0 h' (p'.blocks vals ++ (lot.others vals i ++ L.others vals (m.index key))))
    (harr : h'.load a = some (.pairs (lot.pairs.set i p'))) (hpair : PairStands vals h' p' q')
    (hframe : ∀ c ∈ lot.others vals i ++ L.others vals (m.index key), c ≠ a → h'.load c = h.load c) :
    Stands vals h0 h' (L.setLot (m.index key) (lot.setPair i p')) (m.setBucket key ((m.bucket key).set i q')) := by
  have hi : i < lot.pairs.length := (List.getElem?_eq_some_iff.mp hp).1
  have hnd := (hs.blocks_pair hlot hp).nodup.of_append_right
  -- the array of the bucket is its own block
  have harr_mem : a ∈ lot.arr.toList := by simp [ha]
  have hne_others : ∀ c ∈ L.others vals (m.index key), c ≠ a := by
    intro c hc hca
    exact (List.nodup_append.mp hnd).2.2 a (List.mem_append_left _ harr_mem) c hc hca.symm
  have hne_pairs : ∀ c ∈ (lot.pairs.eraseIdx i).flatMap (Pair.blocks vals), c ≠ a := by
    intro c hc hca
    exact (List.nodup_append.mp hnd.of_append_left).2.2 a harr_mem c hc hca.symm
  have htable : L.table ∈ L.others vals (m.index key) := List.mem_cons_of_mem _ List.mem_cons_self
  have hraw : (L.lots.set (m.index key) (lot.setPair i p')).map Lot.raw = L.lots.map Lot.raw := by
    obtain ⟨hj, rfl⟩ := List.getElem?_eq_some_iff.mp hlot
    have hsame : (L.lots[m.index key].setPair i p').raw = L.lots[m.index key].raw := by
      unfold Lot.raw Lot.setPair
      rw [List.length_set]
    rw [List.map_set, hsame, ← List.getElem_map Lot.raw (h := by rwa [List.length_map]), List.set_getElem_self]
  apply hs.change_lot hlot
  · refine howns.perm ?_
    rw [← List.append_assoc]
    exact (lot_blocks_setPair_perm hp p').symm.append_right _
  · rw [hraw, hframe _ (List.mem_append_right _ htable) (hne_others _ htable), hs.table]
  · refine ⟨Or.inr ⟨a, ha, ?_, harr⟩, ?_⟩
    · intro hnil
      have hlen := congrArg List.length hnil
      rw [Lot.setPair, List.length_set, List.length_nil] at hlen
      omega
    · apply List.forall₂_iff_get.mpr
      refine ⟨by simp [Lot.setPair, hls.pairs.length_eq], fun j hj hj' => ?_⟩
      simp only [Lot.setPair, List.get_eq_getElem, List.getElem_set]
      by_cases hij : i = j
      · simp only [hij, if_true]
        exact hpair
      · simp only [hij, if_false]
        have hlt : j < lot.pairs.length := by simpa [Lot.setPair] using hj
        have hlt' : j < (m.bucket key).length := by rwa [← hls.pairs.length_eq]
        have hold : PairStands vals h lot.pairs[j] (m.bucket key)[j] := (List.forall₂_iff_get.mp hls.pairs).2 j hlt hlt'
        refine hold.congr fun c hc => ?_
        have hmem : c ∈ (lot.pairs.eraseIdx i).flatMap (Pair.blocks vals) := by
          refine List.mem_flatMap.mpr ⟨_, ?_, hc⟩
          rw [List.mem_eraseIdx_iff_getElem?]
          exact ⟨j, Ne.symm hij, List.getElem?_eq_getElem hlt⟩
        exact hframe c (List.mem_append_left _ (List.mem_append_right _ hmem)) (hne_pairs c hmem)
  · intro c hc _
    exact hframe c (List.mem_append_right _ hc) (hne_others c hc)

theorem setPair_ok (bucket : Bucket) {a i : Nat} (ha : bucket.pairs = some a) (hl : h.load a = some (.pairs ps))
    (hi : i < ps.length) (p' : Pair V) : ∃ h', setPair h bucket i p' = .ok h' ∧
      ∀ c, h'.load c = if c = a then some (.pairs (ps.set i p')) else h.load c := by
  obtain ⟨h', hstore, hload⟩ := store_ok hl (.pairs (ps.set i p'))
  refine ⟨h', ?_, hload⟩
  unfold setPair
  simp only [ha, nonNull, Option.elim_some, pairsAt_ok hl, bind, Except.bind, if_pos hi, hstore, checked]

/-- A write through the pair that `get_pair` answers. -/
theorem writePair_eq_set {i : Nat} (hi : b.findIdx? (isMatch key) = some i) (hq : b[i]? = some q)
    (f : Lookaround.Pair W → Lookaround.Pair W) : writePair key f b = b.set i (f q) := by
  induction b generalizing i with
  | nil => cases hi
  | cons q0 b ih =>
      rw [List.findIdx?_cons] at hi
      rw [writePair]
      split_ifs at hi ⊢ with hm
      · cases hi
        cases hq
        rfl
      · obtain ⟨j, hj, rfl⟩ := Option.map_eq_some_iff.mp hi
        rw [List.set_cons_succ, ih hj (by simpa using hq)]

/-! ## A new pair -/

/-- The array of a bucket cannot grow. -/
def PutAllocs.Refuses (alloc : PutAllocs) : Prop := alloc.pairs = false ∨ alloc.resize = .refused

variable {alloc : PutAllocs} {rest others : List Nat}

/-- `mm_realloc` of an owned block. -/
theorem mmRealloc_cases {r : Resize} {a : Nat} {c : Block V} (ho : Owns h0 h (a :: rest)) (hl : h.load a = some c)
    (c' : Block V) : (r = .refused ∧ mmRealloc r h a c' = .ok (none, h)) ∨
      ∃ a' h', mmRealloc r h a c' = .ok (some a', h') ∧ Owns h0 h' (a' :: rest) ∧ h'.load a' = some c' ∧
        ∀ x ∈ rest, h'.load x = h.load x := by
  have hnot : a ∉ rest := (List.nodup_cons.mp ho.nodup).1
  cases r with
  | refused => exact Or.inl ⟨rfl, rfl⟩
  | inPlace =>
      right
      obtain ⟨h1, hstore, hload1⟩ := store_ok hl c'
      refine ⟨a, h1, ?_, ho.store List.mem_cons_self hload1, by rw [hload1, if_pos rfl], fun x hx => ?_⟩
      · simp only [mmRealloc, hstore, checked, Option.elim_some, bind, Except.bind]
        rfl
      · rw [hload1, if_neg (ne_of_mem_of_not_mem hx hnot)]
  | moved =>
      right
      have hnew : h.blocks.length ≠ a := fun heq => ho.new_not_mem (heq ▸ List.mem_cons_self)
      have hl' : (h.alloc c').2.load a = some c := by rw [load_alloc, if_neg (Ne.symm hnew), hl]
      obtain ⟨h1, hfree, hload1⟩ := free_ok hl'
      refine ⟨h.blocks.length, h1, ?_, ?_, ?_, fun x hx => ?_⟩
      · simp only [mmRealloc, hfree, checked, Option.elim_some, bind, Except.bind]
        rfl
      · exact ((ho.alloc c').perm (List.Perm.swap _ _ _)).free hload1
      · rw [hload1, if_neg hnew, load_alloc, if_pos rfl]
      · rw [hload1, if_neg (ne_of_mem_of_not_mem hx hnot), load_alloc,
          if_neg (ne_of_mem_of_not_mem (List.mem_cons_of_mem a hx) ho.new_not_mem)]

/-- Room for one more pair: the array has another address, the other blocks stay. -/
theorem growBucket_cases (alloc : PutAllocs) (hls : LotStands vals h lot b) (ho : Owns h0 h (lot.blocks vals ++ rest)) :
    (alloc.Refuses ∧ growBucket alloc h lot.raw = .error .free) ∨
      ∃ a h1, growBucket alloc h lot.raw = .ok (⟨lot.pairs.length + 1, some a⟩, h1) ∧
        Owns h0 h1 (a :: (lot.pairs.flatMap (Pair.blocks vals) ++ rest)) ∧
        h1.load a = some (.pairs (lot.pairs ++ [⟨none, none⟩])) ∧
        ∀ c ∈ lot.pairs.flatMap (Pair.blocks vals) ++ rest, h1.load c = h.load c := by
  unfold growBucket
  rcases hls.arr with ⟨hnone, hnil⟩ | ⟨a, ha, hne, hload⟩
  · have hcount : lot.raw.count = 0 := by simp [Lot.raw, hnil]
    rw [if_pos hcount]
    cases hp : alloc.pairs with
    | false => exact Or.inl ⟨Or.inl hp, rfl⟩
    | true =>
        right
        have howns := ho.alloc (.pairs [⟨none, none⟩])
        have hblocks : lot.blocks vals = lot.pairs.flatMap (Pair.blocks vals) := by simp [Lot.blocks, hnone]
        rw [hblocks] at howns ho
        refine ⟨_, _, ?_, howns, ?_, fun c hc => ?_⟩
        · rw [hnil]
          rfl
        · rw [load_alloc, if_pos rfl, hnil]
          rfl
        · rw [load_alloc, if_neg (ne_of_mem_of_not_mem hc ho.new_not_mem)]
  · have hcount : lot.raw.count ≠ 0 := by simpa [Lot.raw] using hne
    have hblocks : lot.blocks vals ++ rest = a :: (lot.pairs.flatMap (Pair.blocks vals) ++ rest) := by simp [Lot.blocks, ha]
    rw [hblocks] at ho
    have hraw : lot.raw.pairs = some a := ha
    simp only [if_neg hcount, hraw, nonNull, Option.elim_some, pairsAt_ok hload, bind, Except.bind]
    rcases mmRealloc_cases (r := alloc.resize) ho hload (.pairs (lot.pairs ++ [⟨none, none⟩])) with
      ⟨hr, hre⟩ | ⟨a', h1, hre, ho1, hload1, hframe⟩
    · exact Or.inl ⟨Or.inr hr, by rw [hre]⟩
    · refine Or.inr ⟨a', h1, ?_, ho1, hload1, hframe⟩
      rw [hre]
      rfl

theorem strcpyTo_ok {a : Nat} {cells : Bytes} (src : CStr) (hl : h.load a = some (.chars cells))
    (hlen : src.bytes.length + 1 ≤ cells.length) : ∃ h', strcpyTo h a src = .ok h' ∧ TextAt h' a src ∧
      ∀ c, h'.load c = if c = a then some (.chars (src.bytes ++ 0 :: cells.drop (src.bytes.length + 1))) else h.load c := by
  obtain ⟨h', hstore, hload⟩ := store_ok hl (.chars (src.bytes ++ 0 :: cells.drop (src.bytes.length + 1)))
  refine ⟨h', ?_, ⟨_, by rw [hload, if_pos rfl]⟩, hload⟩
  unfold strcpyTo
  simp only [charsAt_ok hl, strcpy_eq hlen, checked, Option.elim_some, bind, Except.bind, hstore]

/-- A bucket with one more pair. -/
theorem LotStands.snoc {a : Nat} (hls : LotStands vals h lot b)
    (hframe : ∀ c ∈ lot.pairs.flatMap (Pair.blocks vals), h'.load c = h.load c)
    (harr : h'.load a = some (.pairs (lot.pairs ++ [p]))) (hp : PairStands vals h' p q) :
    LotStands vals h' ⟨some a, lot.pairs ++ [p]⟩ (b ++ [q]) where
  arr := Or.inr ⟨a, rfl, by simp, harr⟩
  pairs := by
    have hold : List.Forall₂ (PairStands vals h') lot.pairs b :=
      List.forall₂_iff_get.mpr ⟨hls.pairs.length_eq, fun i hi hi' =>
        ((List.forall₂_iff_get.mp hls.pairs).2 i hi hi').congr fun c hc =>
          hframe c (List.mem_flatMap.mpr ⟨_, List.get_mem _ _, hc⟩)⟩
    exact List.rel_append hold (.cons hp .nil)

/-- The pair is entered behind the others, with its key in the block `k`. -/
theorem addPair_cases (alloc : PutAllocs) {k table : Nat} (index : Nat) {cells : List Bucket} (key : CStr) (value : Option V)
    (hls : LotStands vals h lot b)
    (ho : Owns h0 h (lot.blocks vals ++ k :: rest))
    (hkey : h.load k = some (.chars (List.replicate (key.bytes.length + 1) 0))) (htable : table ∈ rest)
    (hcells : h.load table = some (.buckets cells)) :
    (alloc.Refuses ∧ addPair alloc h table cells index lot.raw k key value = .error .free) ∨
      ∃ a h', addPair alloc h table cells index lot.raw k key value = .ok h' ∧
        Owns h0 h' (a :: (lot.pairs.flatMap (Pair.blocks vals) ++ k :: rest)) ∧
        h'.load table = some (.buckets (cells.set index ⟨lot.pairs.length + 1, some a⟩)) ∧
        h'.load a = some (.pairs (lot.pairs ++ [⟨some k, value⟩])) ∧ TextAt h' k key ∧
        ∀ c ∈ lot.pairs.flatMap (Pair.blocks vals) ++ rest, c ≠ table → h'.load c = h.load c := by
  unfold addPair
  rcases growBucket_cases alloc hls ho with ⟨hrefuse, herr⟩ | ⟨a, h1, hgrow, ho1, harr1, hframe1⟩
  · refine Or.inl ⟨hrefuse, ?_⟩
    rw [herr]
    rfl
  · right
    simp only [hgrow, bind, Except.bind]
    -- the four blocks that are written are different ones
    obtain ⟨hanot, hnd⟩ := List.nodup_cons.mp ho1.nodup
    have hk : k ∈ lot.pairs.flatMap (Pair.blocks vals) ++ k :: rest := List.mem_append_right _ List.mem_cons_self
    have ht : table ∈ lot.pairs.flatMap (Pair.blocks vals) ++ k :: rest :=
      List.mem_append_right _ (List.mem_cons_of_mem _ htable)
    have hka : k ≠ a := ne_of_mem_of_not_mem hk hanot
    have hta : table ≠ a := ne_of_mem_of_not_mem ht hanot
    have hknot : k ∉ lot.pairs.flatMap (Pair.blocks vals) ++ rest := by
      have hperm : (lot.pairs.flatMap (Pair.blocks vals) ++ k :: rest).Perm
          (k :: (lot.pairs.flatMap (Pair.blocks vals) ++ rest)) := List.perm_middle
      exact (List.nodup_cons.mp (hperm.nodup_iff.mp hnd)).1
    have hkt : k ≠ table := fun heq => hknot (heq ▸ List.mem_append_right _ htable)
    -- the bucket array
    have htable1 : h1.load table = some (.buckets cells) := by rw [hframe1 table ht, hcells]
    obtain ⟨h2, hstore2, hload2⟩ := store_ok htable1 (.buckets (cells.set index ⟨lot.pairs.length + 1, some a⟩))
    -- the pair
    have harr2 : h2.load a = some (.pairs (lot.pairs ++ [⟨none, none⟩])) := by rw [hload2, if_neg (Ne.symm hta), harr1]
    obtain ⟨h3, hset3, hload3⟩ := setPair_ok ⟨lot.pairs.length + 1, some a⟩ rfl harr2
      (by rw [List.length_append]; exact Nat.lt_succ_self _ : lot.pairs.length < _) ⟨some k, value⟩
    -- the text of the key
    have hkey3 : h3.load k = some (.chars (List.replicate (key.bytes.length + 1) 0)) := by
      rw [hload3, if_neg hka, hload2, if_neg hkt, hframe1 k hk, hkey]
    obtain ⟨h4, hcpy4, htext4, hload4⟩ := strcpyTo_ok key hkey3 (by rw [List.length_replicate])
    refine ⟨a, h4, ?_, ?_, ?_, ?_, htext4, fun c hc hct => ?_⟩
    · simp only [hstore2, checked, Option.elim_some, Nat.add_sub_cancel, hset3, hcpy4]
    · exact ((ho1.store (List.mem_cons_of_mem _ ht) hload2).store List.mem_cons_self hload3).store
        (List.mem_cons_of_mem _ hk) hload4
    · rw [hload4, if_neg (Ne.symm hkt), hload3, if_neg hta, hload2, if_pos rfl]
    · rw [hload4, if_neg (Ne.symm hka), hload3, if_pos rfl, List.set_append_right _ _ (Nat.le_refl _), Nat.sub_self]
      rfl
    · have hmem : c ∈ lot.pairs.flatMap (Pair.blocks vals) ++ k :: rest := by
        rcases List.mem_append.mp hc with hc | hc
        · exact List.mem_append_left _ hc
        · exact List.mem_append_right _ (List.mem_cons_of_mem _ hc)
      rw [hload4, if_neg (ne_of_mem_of_not_mem hc hknot), hload3, if_neg (ne_of_mem_of_not_mem hmem hanot), hload2,
        if_neg hct, hframe1 c hmem]

end Pooled

end Lookaround
