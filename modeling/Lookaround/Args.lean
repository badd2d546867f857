import Lookaround.Nginx

/-!
# The search for a request argument (`ngx_http_arg`, `ngx_strlcasestrn`)

`ngxHttpArg` says which bytes an argument has. Here is how nginx finds them: with pointers into the query string. A
pointer is an offset, and `none` is a read outside the string or the name.

* `ngxStrncasecmp`, `ngxStrlcasestrn`, `ngxStrlchr`, `ngxHttpArgLoop` : the loops;
* `ngxHttpArgLoop_eq` : they stay inside the string and find what `ngxHttpArg` says;
* `encodeArgs` : the query string of a list of arguments; `ngxHttpArg_encodeArgs` : what is found in it.
-/

namespace Lookaround

/-! ## The loops -/

/-- `ngx_strncasecmp( s1, s2, n ) == 0`, with `s1` in the string and `s2` in the name. -/
def ngxStrncasecmp (args name : Bytes) : Nat → Nat → Nat → Option Bool
  | _, _, 0 => some true
  | s1, s2, n + 1 => do
    let c1 ← args[s1]?
    let c2 ← name[s2]?
    if toLower c1 = toLower c2 then
      if toLower c1 ≠ 0 then ngxStrncasecmp args name (s1 + 1) (s2 + 1) n else return true
    else return false

/-- The loops of `ngx_strlcasestrn` for a name with the first byte `c2`; `some none` is NULL. The pointer `last - n` is
compared as `last ≤ s1 + n`. -/
def ngxStrlcasestrnLoop (args name : Bytes) (last n : Nat) (c2 : UInt8) (s1 : Nat) : Option (Option Nat) :=
  if last ≤ s1 + n then some none
  else do
    let c1 ← args[s1]?
    if toLower c1 ≠ toLower c2 then ngxStrlcasestrnLoop args name last n c2 (s1 + 1)
    else if ← ngxStrncasecmp args name (s1 + 1) 1 n then return some s1
    else ngxStrlcasestrnLoop args name last n c2 (s1 + 1)
termination_by last - s1

/-- `ngx_strlcasestrn`. -/
def ngxStrlcasestrn (args : Bytes) (s1 last : Nat) (name : Bytes) (n : Nat) : Option (Option Nat) := do
  let c2 ← name[0]?
  ngxStrlcasestrnLoop args name last n c2 s1

/-- `ngx_strlchr`; `some none` is NULL. -/
def ngxStrlchr (args : Bytes) (last : Nat) (c : UInt8) (p : Nat) : Option (Option Nat) :=
  if last ≤ p then some none
  else do
    let b ← args[p]?
    if b = c then return some p
    else ngxStrlchr args last c (p + 1)
termination_by last - p

/-- `( p == r->args.data || *( p - 1 ) == '&' ) && *( p + len ) == '='`. -/
def isArgAt (args : Bytes) (len p : Nat) : Option Bool := do
  if p ≠ 0 then
    let prev ← args[p - 1]?
    if prev ≠ 38 then
      return false
  let c ← args[p + len]?
  return c = 61

/-- The loop of `ngx_http_arg`: the value as its offset and length, `some none` is `NGX_DECLINED`. Each round moves `p`
forward, and the fuel counts the rounds. -/
def ngxHttpArgRounds (args name : Bytes) : Nat → Nat → Option (Option (Nat × Nat))
  | 0, _ => none
  | fuel + 1, p =>
    if p < args.length then do
      match ← ngxStrlcasestrn args p (args.length - 1) name (name.length - 1) with
      | none => return none
      | some p =>
        if ← isArgAt args name.length p then
          let data := p + name.length + 1
          let last ← ngxStrlchr args args.length 38 p
          return some (data, last.getD args.length - data)
        else ngxHttpArgRounds args name fuel (p + 1)
    else return none

/-- `ngx_http_arg`. -/
def ngxHttpArgLoop (args name : Bytes) : Option (Option (Nat × Nat)) :=
  if args.length = 0 then some none else ngxHttpArgRounds args name (args.length + 1) 0

/-! ## Names in any case -/

/-- The bytes of a name, without their case. -/
def lowered (l : Bytes) : Bytes := l.map toLower

/-- A letter goes to a letter. -/
theorem toLower_letter {c : UInt8} (h : 65 ≤ c ∧ c ≤ 90) : 97 ≤ c ||| 32 ∧ c ||| 32 ≤ 122 := by
  have hall : ∀ k : Fin 26, 97 ≤ (65 + k.val).toUInt8 ||| 32 ∧ (65 + k.val).toUInt8 ||| 32 ≤ 122 := by decide
  have hlo : 65 ≤ c.toNat := UInt8.le_iff_toNat_le.mp h.1
  have hhi : c.toNat ≤ 90 := UInt8.le_iff_toNat_le.mp h.2
  have hc : (65 + (c.toNat - 65)).toUInt8 = c := by
    rw [Nat.add_sub_cancel' hlo]
    exact UInt8.ofNat_toNat
  have hk := hall ⟨c.toNat - 65, by omega⟩
  rwa [hc] at hk

/-- Only a letter changes, and only into a letter. -/
theorem toLower_eq_iff {c d : UInt8} (hd : ¬ (65 ≤ d ∧ d ≤ 90)) (hd' : ¬ (97 ≤ d ∧ d ≤ 122)) :
    toLower c = d ↔ c = d := by
  unfold toLower
  split_ifs with hc
  · constructor
    · rintro rfl
      exact absurd (toLower_letter hc) hd'
    · rintro rfl
      exact absurd hc hd
  · exact Iff.rfl

theorem toLower_eq_sign_iff {c : UInt8} : toLower c = 61 ↔ c = 61 := toLower_eq_iff (by decide) (by decide)

theorem toLower_eq_amp_iff {c : UInt8} : toLower c = 38 ↔ c = 38 := toLower_eq_iff (by decide) (by decide)

theorem toLower_eq_nul_iff {c : UInt8} : toLower c = 0 ↔ c = 0 := toLower_eq_iff (by decide) (by decide)

/-- The argument stands at the front: the name in some case, the sign, and the rest. -/
theorem ngxArgAt_eq_some_iff {name rest value : Bytes} : ngxArgAt name rest = some value ↔
    ∃ front, rest = front ++ 61 :: value ∧ lowered front = lowered name := by
  induction name generalizing rest with
  | nil =>
      cases rest with
      | nil => simp [ngxArgAt]
      | cons c rest =>
          rw [ngxArgAt]
          constructor
          · intro h
            split_ifs at h with hc
            cases h
            exact ⟨[], by rw [hc]; rfl, rfl⟩
          · rintro ⟨front, heq, hlow⟩
            obtain rfl : front = [] := List.map_eq_nil_iff.mp hlow
            cases heq
            rfl
  | cons n name ih =>
      cases rest with
      | nil => simp [ngxArgAt]
      | cons c rest =>
          rw [ngxArgAt]
          constructor
          · intro h
            split_ifs at h with hc
            obtain ⟨front, rfl, hlow⟩ := ih.mp h
            refine ⟨c :: front, rfl, ?_⟩
            rw [lowered, List.map_cons, ← hc, ← lowered, hlow]
            rfl
          · rintro ⟨front, heq, hlow⟩
            cases front with
            | nil => cases hlow
            | cons d front =>
                cases heq
                obtain ⟨hhead, htail⟩ := List.cons.inj hlow
                rw [if_pos hhead.symm]
                exact ih.mpr ⟨front, rfl, htail⟩

/-! ## What the loops find -/

section Loops

variable {args name : Bytes} {c2 : UInt8} {s1 s2 n p q last : Nat}

/-- The name stands at `i` in some case. -/
def NameAt (args name : Bytes) (i : Nat) : Prop := lowered ((args.drop i).take name.length) = lowered name

instance (args name : Bytes) (i : Nat) : Decidable (NameAt args name i) :=
  inferInstanceAs (Decidable (lowered ((args.drop i).take name.length) = lowered name))

theorem ngxStrncasecmp_eq (hnul : 0 ∉ name) (h1 : s1 + n ≤ args.length) (h2 : s2 + n ≤ name.length) :
    ngxStrncasecmp args name s1 s2 n =
      some (decide (lowered ((args.drop s1).take n) = lowered ((name.drop s2).take n))) := by
  induction n generalizing s1 s2 with
  | zero => simp [ngxStrncasecmp, lowered]
  | succ n ih =>
      have hlt1 : s1 < args.length := by omega
      have hlt2 : s2 < name.length := by omega
      rw [ngxStrncasecmp, List.getElem?_eq_getElem hlt1, List.getElem?_eq_getElem hlt2]
      simp only [bind, Option.bind_some, pure]
      rw [List.drop_eq_getElem_cons hlt1, List.drop_eq_getElem_cons hlt2, List.take_succ_cons, List.take_succ_cons]
      simp only [lowered, List.map_cons, List.cons.injEq]
      by_cases hc : toLower args[s1] = toLower name[s2]
      · have hne : toLower args[s1] ≠ 0 := by
          rw [hc, Ne, toLower_eq_nul_iff]
          intro h0
          exact hnul (h0 ▸ List.getElem_mem hlt2)
        rw [if_pos hc, if_pos hne, ih (by omega) (by omega)]
        simp [hc, lowered]
      · rw [if_neg hc]
        simp [hc]

theorem nameAt_cons (hlt : p < args.length) (name : Bytes) :
    NameAt args (c2 :: name) p ↔
      toLower args[p] = toLower c2 ∧ lowered ((args.drop (p + 1)).take name.length) = lowered name := by
  rw [NameAt, List.drop_eq_getElem_cons hlt, List.length_cons, List.take_succ_cons]
  simp only [lowered, List.map_cons, List.cons.injEq]

/-- `ngx_strlcasestrn` finds the first place of the name before `last`. -/
theorem ngxStrlcasestrnLoop_eq (hnul : 0 ∉ c2 :: name) (hlast : last ≤ args.length) (s1 : Nat) : ∃ r,
    ngxStrlcasestrnLoop args (c2 :: name) last name.length c2 s1 = some r ∧
      (r = none → ∀ i, s1 ≤ i → i + name.length < last → ¬ NameAt args (c2 :: name) i) ∧
      ∀ q, r = some q → s1 ≤ q ∧ q + name.length < last ∧ NameAt args (c2 :: name) q ∧
        ∀ i, s1 ≤ i → i < q → ¬ NameAt args (c2 :: name) i := by
  by_cases hend : last ≤ s1 + name.length
  · rw [ngxStrlcasestrnLoop, if_pos hend]
    exact ⟨none, rfl, fun _ i hi hlt => absurd hlt (by omega), fun q hq => by cases hq⟩
  · have hlt : s1 < args.length := by omega
    have hcmp : ngxStrncasecmp args (c2 :: name) (s1 + 1) 1 name.length =
        some (decide (lowered ((args.drop (s1 + 1)).take name.length) = lowered name)) := by
      rw [ngxStrncasecmp_eq hnul (by omega) (by simp; omega), List.drop_succ_cons, List.drop_zero, List.take_length]
    rw [ngxStrlcasestrnLoop, if_neg hend, List.getElem?_eq_getElem hlt]
    simp only [bind, Option.bind_some, hcmp, pure, decide_eq_true_eq]
    by_cases hat : NameAt args (c2 :: name) s1
    · obtain ⟨hc, hrest⟩ := (nameAt_cons hlt name).mp hat
      rw [if_neg (not_not.mpr hc), if_pos hrest]
      refine ⟨_, rfl, fun hr => (by cases hr), fun q hq => ?_⟩
      cases hq
      exact ⟨Nat.le_refl _, Nat.not_le.mp hend, hat, fun i hi hlt' => absurd hlt' (Nat.not_lt.mpr hi)⟩
    · -- no name here: the loop goes on behind this byte
      obtain ⟨r, hr, hnone, hsome⟩ := ngxStrlcasestrnLoop_eq hnul hlast (s1 + 1)
      have hskip : ∀ i, s1 ≤ i → (s1 + 1 ≤ i → ¬ NameAt args (c2 :: name) i) → ¬ NameAt args (c2 :: name) i := by
        intro i hi hrest
        rcases Nat.eq_or_lt_of_le hi with rfl | hi
        · exact hat
        · exact hrest hi
      refine ⟨r, ?_, fun hr0 i hi hlt' => hskip i hi fun hi' => hnone hr0 i hi' hlt', fun q hq => ?_⟩
      · rw [nameAt_cons hlt] at hat
        by_cases hc : toLower args[s1] = toLower c2
        · rw [if_neg (not_not.mpr hc), if_neg (fun h => hat ⟨hc, h⟩), hr]
        · rw [if_pos hc, hr]
      · obtain ⟨hle, hlt', hatq, hbefore⟩ := hsome q hq
        exact ⟨by omega, hlt', hatq, fun i hi hiq => hskip i hi fun hi' => hbefore i hi' hiq⟩
termination_by last - s1

/-- `ngx_strlchr` up to the end of the string: the length of what is before the byte. -/
theorem ngxStrlchr_eq (c : UInt8) (p : Nat) (hp : p ≤ args.length) : ∃ r, ngxStrlchr args args.length c p = some r ∧
    r.getD args.length = p + ((args.drop p).takeWhile (· ≠ c)).length := by
  by_cases hend : args.length ≤ p
  · rw [ngxStrlchr, if_pos hend, List.drop_eq_nil_of_le hend]
    exact ⟨none, rfl, by simpa using Nat.le_antisymm hend hp⟩
  · have hlt : p < args.length := Nat.not_le.mp hend
    rw [ngxStrlchr, if_neg hend, List.getElem?_eq_getElem hlt, List.drop_eq_getElem_cons hlt]
    simp only [bind, Option.bind_some, pure]
    by_cases hc : args[p] = c
    · rw [if_pos hc, List.takeWhile_cons_of_neg (by simpa using hc)]
      exact ⟨_, rfl, rfl⟩
    · obtain ⟨r, hr, hlen⟩ := ngxStrlchr_eq c (p + 1) hlt
      rw [if_neg hc, List.takeWhile_cons_of_pos (by simpa using hc)]
      refine ⟨r, hr, ?_⟩
      rw [hlen, List.length_cons, Nat.add_right_comm, Nat.add_assoc]
termination_by args.length - p

/-- The byte before `p`. -/
def byteBefore (args : Bytes) (p : Nat) : Option UInt8 := if p = 0 then none else args[p - 1]?

theorem byteBefore_succ (args : Bytes) (p : Nat) : byteBefore args (p + 1) = args[p]? := by
  rw [byteBefore, if_neg (Nat.succ_ne_zero p), Nat.add_sub_cancel]

/-- An argument stands at `p`: at the front or behind `&`, the name in some case, and the sign. -/
def ArgAt (args name : Bytes) (p : Nat) : Prop :=
  (byteBefore args p = none ∨ byteBefore args p = some 38) ∧ (ngxArgAt name (args.drop p)).isSome = true

/-- Where no argument stands the search goes on behind the byte. -/
theorem ngxHttpArgFrom_skip (hp : p < args.length) (hno : ¬ ArgAt args name p) :
    ngxHttpArgFrom name (byteBefore args p) (args.drop p) =
      ngxHttpArgFrom name (byteBefore args (p + 1)) (args.drop (p + 1)) := by
  rw [byteBefore_succ, List.drop_eq_getElem_cons hp, ngxHttpArgFrom, List.getElem?_eq_getElem hp]
  rw [ArgAt, List.drop_eq_getElem_cons hp] at hno
  split_ifs with hprev
  · cases hat : ngxArgAt name (args[p] :: args.drop (p + 1)) with
    | none => rfl
    | some value => exact absurd ⟨hprev, by rw [hat]; rfl⟩ hno
  · rfl

theorem ngxHttpArgFrom_skip_to (hpq : p ≤ q) (hq : q ≤ args.length) (hno : ∀ i, p ≤ i → i < q → ¬ ArgAt args name i) :
    ngxHttpArgFrom name (byteBefore args p) (args.drop p) = ngxHttpArgFrom name (byteBefore args q) (args.drop q) := by
  induction hpq with
  | refl => rfl
  | step hpq ih =>
      rename_i q
      rw [ih (by omega) fun i hi hlt => hno i hi (by omega)]
      exact ngxHttpArgFrom_skip hq (hno q hpq (Nat.lt_succ_self q))

/-- The name, the sign and the value behind them. -/
theorem exists_of_isSome_ngxArgAt {rest : Bytes} (h : (ngxArgAt name rest).isSome = true) : ∃ front value,
    ngxArgAt name rest = some value ∧ rest = front ++ 61 :: value ∧ lowered front = lowered name ∧
      front.length = name.length := by
  obtain ⟨value, hvalue⟩ := Option.isSome_iff_exists.mp h
  obtain ⟨front, hrest, hlow⟩ := ngxArgAt_eq_some_iff.mp hvalue
  exact ⟨front, value, hvalue, hrest, hlow, by simpa [lowered] using congrArg List.length hlow⟩

/-- Where an argument stands, the name does and there is room for the sign. -/
theorem ArgAt.nameAt (h : ArgAt args name p) : NameAt args name p ∧ p + name.length < args.length := by
  obtain ⟨front, value, -, hrest, hlow, hlen⟩ := exists_of_isSome_ngxArgAt h.2
  constructor
  · rw [NameAt, hrest, ← hlen, List.take_left, hlow]
  · have := congrArg List.length hrest
    rw [List.length_drop, List.length_append, List.length_cons] at this
    omega

/-- The two tests behind a name that was found. -/
theorem isArgAt_eq (hat : NameAt args name p) (hlt : p + name.length < args.length) : ∃ b,
    isArgAt args name.length p = some b ∧ (b = true ↔ ArgAt args name p) := by
  have hsign : (ngxArgAt name (args.drop p)).isSome = true ↔ args[p + name.length] = 61 := by
    have hsplit : args.drop p =
        (args.drop p).take name.length ++ args[p + name.length] :: args.drop (p + name.length + 1) := by
      rw [← List.drop_eq_getElem_cons hlt, ← List.drop_drop, List.take_append_drop]
    constructor
    · intro hsome
      obtain ⟨front, value, -, hrest, -, hlen⟩ := exists_of_isSome_ngxArgAt hsome
      have hget : (args.drop p)[name.length]? = some 61 := by
        rw [hrest, ← hlen, List.getElem?_append_right (Nat.le_refl _), Nat.sub_self, List.getElem?_cons_zero]
      rw [List.getElem?_drop, List.getElem?_eq_getElem hlt] at hget
      exact Option.some.inj hget
    · intro hc
      rw [hc] at hsplit
      rw [ngxArgAt_eq_some_iff.mpr ⟨_, hsplit, hat⟩]
      rfl
  rw [isArgAt]
  simp only [bind, Option.bind_some, pure, List.getElem?_eq_getElem hlt]
  unfold ArgAt byteBefore
  by_cases h0 : p = 0
  · rw [if_neg (not_not.mpr h0), if_pos h0]
    exact ⟨_, rfl, by rw [hsign]; simp⟩
  · rw [if_pos h0, if_neg h0, List.getElem?_eq_getElem (by omega : p - 1 < args.length), Option.bind_some]
    by_cases hamp : args[p - 1] = 38
    · rw [if_neg (not_not.mpr hamp)]
      exact ⟨_, rfl, by rw [hsign]; simp [hamp]⟩
    · rw [if_pos hamp]
      exact ⟨_, rfl, by simp [hamp]⟩

/-- The bytes of a value given by its offset and length. -/
def readValue (args : Bytes) (value : Nat × Nat) : Bytes := (args.drop value.1).take value.2

/-- The value behind an argument that was found. -/
theorem readValue_eq (hamp : 38 ∉ name) (h : ArgAt args name p) : ∃ last,
    ngxStrlchr args args.length 38 p = some last ∧
      ngxHttpArgFrom name (byteBefore args p) (args.drop p) =
        some (readValue args (p + name.length + 1, last.getD args.length - (p + name.length + 1))) := by
  obtain ⟨hat, hlt⟩ := h.nameAt
  obtain ⟨hprev, hsome⟩ := h
  obtain ⟨front, value, hvalue, hrest, hlow, hlen⟩ := exists_of_isSome_ngxArgAt hsome
  obtain ⟨last, hlast, hend⟩ := ngxStrlchr_eq 38 p (show p ≤ args.length by omega)
  -- the name has no `&`, so the first one is behind the value
  have hfront : ∀ c ∈ front, c ≠ 38 := by
    rintro c hc rfl
    have hmem : toLower 38 ∈ lowered name := by
      rw [← hlow]
      exact List.mem_map_of_mem hc
    obtain ⟨d, hd, hlower⟩ := List.mem_map.mp hmem
    exact hamp (toLower_eq_amp_iff.mp hlower ▸ hd)
  have hwhile : (args.drop p).takeWhile (· ≠ 38) = front ++ 61 :: value.takeWhile (· ≠ 38) := by
    rw [hrest, List.takeWhile_append_of_pos (by simpa using hfront), List.takeWhile_cons_of_pos (by decide)]
  have hdata : args.drop (p + name.length + 1) = value := by
    rw [Nat.add_assoc, ← List.drop_drop, hrest, ← hlen, ← List.drop_drop, List.drop_left, List.drop_one, List.tail_cons]
  have htake : last.getD args.length - (p + name.length + 1) = (value.takeWhile (· ≠ 38)).length := by
    rw [hend, hwhile, List.length_append, List.length_cons, hlen]
    omega
  refine ⟨last, hlast, ?_⟩
  rw [readValue, hdata, htake, ← List.prefix_iff_eq_take.mp (List.takeWhile_prefix _)]
  rw [List.drop_eq_getElem_cons (by omega : p < args.length)] at hvalue ⊢
  rw [ngxHttpArgFrom, if_pos hprev, hvalue]

theorem ngxHttpArgRounds_eq (hne : name ≠ []) (hnul : 0 ∉ name) (hamp : 38 ∉ name) (fuel : Nat) (hp : p ≤ args.length)
    (hfuel : args.length < p + fuel) : ∃ r, ngxHttpArgRounds args name fuel p = some r ∧
      r.map (readValue args) = ngxHttpArgFrom name (byteBefore args p) (args.drop p) := by
  obtain ⟨c2, tail, rfl⟩ := List.exists_cons_of_ne_nil hne
  induction fuel generalizing p with
  | zero => exact absurd hfuel (by omega)
  | succ fuel ih =>
      rw [ngxHttpArgRounds]
      by_cases hend : p < args.length
      · obtain ⟨r, hr, hnone, hsome⟩ :=
          ngxStrlcasestrnLoop_eq hnul (Nat.sub_le args.length 1) p
        rw [if_pos hend, ngxStrlcasestrn, List.length_cons, Nat.add_sub_cancel, List.getElem?_cons_zero]
        simp only [bind, Option.bind_some, hr]
        cases r with
        | none =>
            refine ⟨none, rfl, ?_⟩
            rw [ngxHttpArgFrom_skip_to (Nat.le_of_lt hend) (Nat.le_refl _) (fun i hi _ hat => ?_), List.drop_length]
            · rfl
            · obtain ⟨hname, hlt⟩ := hat.nameAt
              rw [List.length_cons] at hlt
              exact hnone rfl i hi (by omega) hname
        | some q =>
            obtain ⟨hle, hlt, hname, hbefore⟩ := hsome q rfl
            have hroom : q + (c2 :: tail).length < args.length := by
              rw [List.length_cons]
              omega
            obtain ⟨b, hb, hiff⟩ := isArgAt_eq hname hroom
            have hskip := ngxHttpArgFrom_skip_to hle (by omega)
              fun i hi hlt hat => hbefore i hi hlt (ArgAt.nameAt hat).1
            rw [List.length_cons] at hb
            simp only [hb, Option.bind_some]
            cases b with
            | true =>
                obtain ⟨last, hlast, hfrom⟩ := readValue_eq hamp (hiff.mp rfl)
                rw [hlast, hskip, hfrom]
                exact ⟨_, rfl, rfl⟩
            | false =>
                have hno : ¬ ArgAt args (c2 :: tail) q := fun hat => Bool.false_ne_true (hiff.mpr hat)
                obtain ⟨r, hr, hread⟩ := ih (p := q + 1) (by omega) (by omega)
                rw [hskip, ngxHttpArgFrom_skip (by omega) hno]
                exact ⟨r, hr, hread⟩
      · rw [if_neg hend, List.drop_eq_nil_of_le (Nat.not_lt.mp hend)]
        exact ⟨none, rfl, rfl⟩

end Loops

/-! ## Query strings -/

/-- One argument of a query string. -/
def encodeArg (arg : Bytes × Bytes) : Bytes := arg.1 ++ 61 :: arg.2

/-- The query string of a list of arguments: `name=value` with `&` between them. -/
def encodeArgs : List (Bytes × Bytes) → Bytes
  | [] => []
  | [arg] => encodeArg arg
  | arg :: rest => encodeArg arg ++ 38 :: encodeArgs rest

/-- A name has no `=` and no `&`, a value has no `&`. -/
def ArgOk (arg : Bytes × Bytes) : Prop := 61 ∉ arg.1 ∧ 38 ∉ arg.1 ∧ 38 ∉ arg.2

instance (arg : Bytes × Bytes) : Decidable (ArgOk arg) :=
  inferInstanceAs (Decidable (61 ∉ arg.1 ∧ 38 ∉ arg.1 ∧ 38 ∉ arg.2))

section Encode

variable {name : Bytes} {arg : Bytes × Bytes} {args : List (Bytes × Bytes)}

theorem encodeArgs_cons (arg : Bytes × Bytes) (args : List (Bytes × Bytes)) :
    encodeArgs (arg :: args) = encodeArg arg ++ if args = [] then [] else 38 :: encodeArgs args := by
  cases args with
  | nil => rw [if_pos rfl, List.append_nil, encodeArgs]
  | cons arg' args =>
      rw [if_neg (List.cons_ne_nil _ _), encodeArgs]
      exact List.cons_ne_nil _ _

/-- The search passes over bytes without `&` that no argument stands in front of. -/
theorem ngxHttpArgFrom_append {c : UInt8} (hc : c ≠ 38) {l : Bytes} (hl : 38 ∉ l) (rest : Bytes) :
    ngxHttpArgFrom name (some c) (l ++ 38 :: rest) = ngxHttpArgFrom name (some 38) rest := by
  induction l generalizing c with
  | nil =>
      rw [List.nil_append, ngxHttpArgFrom, if_neg (by simpa using hc)]
  | cons d l ih =>
      rw [List.cons_append, ngxHttpArgFrom, if_neg (by simpa using hc)]
      exact ih (fun h => hl (h ▸ List.mem_cons_self)) (fun h => hl (List.mem_cons_of_mem d h))

theorem ngxHttpArgFrom_eq_none {c : UInt8} (hc : c ≠ 38) {l : Bytes} (hl : 38 ∉ l) :
    ngxHttpArgFrom name (some c) l = none := by
  induction l generalizing c with
  | nil => rfl
  | cons d l ih =>
      rw [ngxHttpArgFrom, if_neg (by simpa using hc)]
      exact ih (fun h => hl (h ▸ List.mem_cons_self)) (fun h => hl (List.mem_cons_of_mem d h))

/-- At the front of an argument only its own name is found. -/
theorem ngxArgAt_encode (hname : 61 ∉ name) {front : Bytes} (hfront : 61 ∉ front) (value : Bytes) :
    ngxArgAt name (front ++ 61 :: value) = if lowered front = lowered name then some value else none := by
  induction name generalizing front with
  | nil =>
      cases front with
      | nil => rfl
      | cons d front =>
          have hd : d ≠ 61 := fun h => hfront (h ▸ List.mem_cons_self)
          have hnil : lowered (d :: front) ≠ lowered [] := List.cons_ne_nil _ _
          rw [List.cons_append, ngxArgAt, if_neg hd, if_neg hnil]
  | cons x name ih =>
      have hx : toLower x ≠ toLower 61 := fun h => hname (toLower_eq_sign_iff.mp h ▸ List.mem_cons_self)
      cases front with
      | nil =>
          have hnil : lowered [] ≠ lowered (x :: name) := List.cons_ne_nil _ _ |>.symm
          rw [List.nil_append, ngxArgAt, if_neg hx, if_neg hnil]
      | cons d front =>
          rw [List.cons_append, ngxArgAt, ih (fun h => hname (List.mem_cons_of_mem x h))
            (fun h => hfront (List.mem_cons_of_mem d h))]
          have hcons : lowered (d :: front) = lowered (x :: name) ↔
              toLower x = toLower d ∧ lowered front = lowered name := by
            simp only [lowered, List.map_cons, List.cons.injEq, eq_comm]
          by_cases hc : toLower x = toLower d
          · rw [if_pos hc]
            exact if_congr (by rw [hcons]; simp only [hc, true_and]) rfl rfl
          · rw [if_neg hc, if_neg fun h => hc (hcons.mp h).1]

theorem amp_not_mem_encodeArg (h : ArgOk arg) : 38 ∉ encodeArg arg := by
  rw [encodeArg, List.mem_append, List.mem_cons]
  rintro (hmem | hmem | hmem)
  · exact h.2.1 hmem
  · exact absurd hmem (by decide)
  · exact h.2.2 hmem

theorem ngxHttpArgFrom_encodeArgs (hname : 61 ∉ name) (hargs : ∀ arg ∈ args, ArgOk arg) {prev : Option UInt8}
    (hprev : prev = none ∨ prev = some 38) : ngxHttpArgFrom name prev (encodeArgs args) =
      (args.find? fun arg => lowered arg.1 = lowered name).map Prod.snd := by
  induction args generalizing prev with
  | nil => rfl
  | cons arg args ih =>
      have harg := hargs arg List.mem_cons_self
      have hrest : ∀ arg ∈ args, ArgOk arg := fun a ha => hargs a (List.mem_cons_of_mem _ ha)
      rw [encodeArgs_cons]
      obtain ⟨tail, htail⟩ : ∃ tail, tail = if args = [] then [] else 38 :: encodeArgs args := ⟨_, rfl⟩
      rw [← htail]
      have hat : ngxArgAt name (encodeArg arg ++ tail) =
          if lowered arg.1 = lowered name then some (arg.2 ++ tail) else none := by
        rw [encodeArg, List.append_assoc, List.cons_append]
        exact ngxArgAt_encode hname harg.1 _
      obtain ⟨c, l, hcl⟩ : ∃ c l, encodeArg arg = c :: l :=
        List.exists_cons_of_ne_nil (List.append_ne_nil_of_right_ne_nil _ (List.cons_ne_nil _ _))
      have hamp := amp_not_mem_encodeArg harg
      rw [hcl] at hamp
      have hc : c ≠ 38 := fun h => hamp (h ▸ List.mem_cons_self)
      have hl : 38 ∉ l := fun h => hamp (List.mem_cons_of_mem c h)
      rw [hcl, List.cons_append] at hat ⊢
      rw [ngxHttpArgFrom, if_pos hprev, hat]
      by_cases hlow : lowered arg.1 = lowered name
      · rw [if_pos hlow, List.find?_cons_of_pos (by simpa using hlow), Option.map_some]
        have hvalue : ∀ b ∈ arg.2, (decide (b ≠ 38)) = true := by
          intro b hb
          simpa using fun h : b = 38 => harg.2.2 (h ▸ hb)
        have hstop : tail.takeWhile (· ≠ 38) = [] := by
          rw [htail]
          split_ifs <;> rfl
        simp only [List.takeWhile_append_of_pos hvalue, hstop, List.append_nil]
      · rw [if_neg hlow, List.find?_cons_of_neg (by simpa using hlow)]
        by_cases hnil : args = []
        · rw [htail, if_pos hnil, List.append_nil, hnil]
          exact ngxHttpArgFrom_eq_none hc hl
        · rw [htail, if_neg hnil]
          exact (ngxHttpArgFrom_append hc hl _).trans (ih hrest (Or.inr rfl))

/-- **A query string gives its arguments back.** In the query string of any list of arguments, in any order and with
any others among them, a name is found in any case, and its value is that of the first argument of that name. -/
theorem ngxHttpArg_encodeArgs (hname : 61 ∉ name) (hargs : ∀ arg ∈ args, ArgOk arg) :
    ngxHttpArg (encodeArgs args) name = (args.find? fun arg => lowered arg.1 = lowered name).map Prod.snd :=
  ngxHttpArgFrom_encodeArgs hname hargs (Or.inl rfl)

theorem ngxHttpArg_encodeArgs_lat :
    ngxHttpArg (encodeArgs [(ascii "id", ascii "lat=1"), (ascii "LAT", ascii "5")]) (ascii "lat") =
      some (ascii "5") := by
  exact (ngxHttpArg_encodeArgs (by decide) (by decide)).trans rfl

end Encode

end Lookaround
