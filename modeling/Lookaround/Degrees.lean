import Lookaround.Handler

/-!
# Coordinates as text (`fn_v_FormatDeg` and back)

`%d.%06d` of a quotient and a remainder that C truncates toward zero: a negative coordinate has its sign in both parts,
or only behind the point.

* `digitsValue_fmtNat`, `length_fmtNat_le_iff` : printed numbers;
* `formatDeg_nonneg`, `formatDeg_neg` : the text of a coordinate of either sign;
* `Numeral6` : a decimal numeral with six decimals; `formatDeg_roundtrip_iff` : which coordinates print as one that reads
  back;
* `parseDeg_eq` : what is stored for an argument; `length_formatDeg_iff` : which coordinates have a short text;
* `DegFits` : the arguments whose coordinate fits `achBufLat`; `stored_degrees_fit` : that these are the ones.
-/

namespace Lookaround

open NlaCoreData

/-! ## Printed numbers -/

section Digits

variable {n k : Nat}

theorem fmtNat_ne_nil (n : Nat) : fmtNat n ≠ [] := by
  rw [fmtNat, Ne, List.map_eq_nil_iff]
  exact Nat.toDigits_ne_nil

theorem length_fmtNat_le_iff (h : 0 < k) : (fmtNat n).length ≤ k ↔ n < 10 ^ k := by
  rw [fmtNat, List.length_map]
  exact Nat.length_toDigits_le_iff (by decide) h

/-- The byte of a digit. -/
theorem toUInt8_digit {c : Char} (h : c ∈ Nat.toDigits 10 n) :
    isDigit c.toNat.toUInt8 = true ∧ c.toNat.toUInt8.toNat = c.toNat := by
  have hdigit := Nat.isDigit_of_mem_toDigits (by decide) (by decide) h
  simp only [Char.isDigit, Bool.and_eq_true, decide_eq_true_eq] at hdigit
  have hlo : 48 ≤ c.toNat := hdigit.1
  have hhi : c.toNat ≤ 57 := hdigit.2
  have hval : c.toNat.toUInt8.toNat = c.toNat := by
    simp only [Nat.toUInt8, UInt8.toNat_ofNat']
    omega
  refine ⟨?_, hval⟩
  simp only [isDigit, Bool.and_eq_true, decide_eq_true_eq, UInt8.le_iff_toNat_le, hval]
  exact ⟨hlo, hhi⟩

theorem all_isDigit_fmtNat (n : Nat) : (fmtNat n).all isDigit = true := by
  rw [List.all_eq_true]
  intro b hb
  obtain ⟨c, hc, rfl⟩ := List.mem_map.mp hb
  exact (toUInt8_digit hc).1

theorem digitsValue_fmtNat (n : Nat) : digitsValue (fmtNat n) = n := by
  have hfold : ∀ (l : List Char), (∀ c ∈ l, c.toNat.toUInt8.toNat = c.toNat) → ∀ v,
      (l.map fun c => c.toNat.toUInt8).foldl (fun v c => v * 10 + (c.toNat - 48)) v = Nat.ofDigitChars 10 l v := by
    intro l hl v
    induction l generalizing v with
    | nil => simp
    | cons c l ih =>
        rw [List.map_cons, List.foldl_cons, hl c List.mem_cons_self, ih fun d hd => hl d (List.mem_cons_of_mem c hd),
          Nat.ofDigitChars_cons, Nat.mul_comm]
        rfl
  rw [digitsValue, fmtNat, hfold _ (fun c hc => (toUInt8_digit hc).2), Nat.ofDigitChars_ten_toDigits]

theorem length_padZeros (width : Nat) (l : Bytes) : (padZeros width l).length = max width l.length := by
  rw [padZeros, List.length_append, List.length_replicate]
  omega

theorem all_isDigit_padZeros (width : Nat) {l : Bytes} (h : l.all isDigit = true) :
    (padZeros width l).all isDigit = true := by
  rw [padZeros, List.all_append, h, Bool.and_true, List.all_eq_true]
  intro b hb
  rw [List.eq_of_mem_replicate hb]
  decide

theorem digitsValue_padZeros (width : Nat) (l : Bytes) : digitsValue (padZeros width l) = digitsValue l := by
  have hzeros : ∀ k, digitsValue (List.replicate k 48) = 0 := by
    intro k
    induction k with
    | zero => rfl
    | succ k ih =>
        rw [digitsValue, List.replicate_succ, List.foldl_cons]
        exact ih
  rw [digitsValue, padZeros, List.foldl_append, foldl_digits]
  change digitsValue (List.replicate _ 48) * _ + _ = _
  rw [hzeros, zero_mul, zero_add]

end Digits

/-! ## The text of a coordinate -/

section Format

variable {deg : NLADeg}

theorem toInt_degBase : (1000000 : NLADeg).toInt = 1000000 := by decide

/-- The two arguments of `sprintf`. -/
theorem formatDeg_eq (deg : NLADeg) : formatDeg deg =
    fmtInt (deg.toInt.tdiv 1000000) ++ ascii "." ++ fmtInt06 (deg.toInt.tmod 1000000) := by
  rw [formatDeg, Int32.toInt_div_of_ne_right _ _ (by decide), Int32.toInt_mod, toInt_degBase]

theorem formatDeg_nonneg (h : 0 ≤ deg.toInt) : formatDeg deg =
    fmtNat (deg.toInt.natAbs / 1000000) ++ 46 :: padZeros 6 (fmtNat (deg.toInt.natAbs % 1000000)) := by
  obtain ⟨n, hn⟩ := Int.eq_ofNat_of_zero_le h
  have hdiv : (n : Int).tdiv 1000000 = ((n / 1000000 : Nat) : Int) := by
    rw [Int.tdiv_eq_ediv_of_nonneg (by omega)]
    rfl
  have hmod : (n : Int).tmod 1000000 = ((n % 1000000 : Nat) : Int) := by
    rw [Int.tmod_eq_emod_of_nonneg (by omega)]
    rfl
  rw [formatDeg_eq, hn, hdiv, hmod, fmtInt, fmtInt06, if_neg (by omega), if_neg (by omega), Int.natAbs_natCast,
    Int.natAbs_natCast, Int.natAbs_natCast, List.append_assoc]
  rfl

/-- A negative coordinate: the sign is printed with each part that is not zero, and takes one of the six places. -/
theorem formatDeg_neg (h : deg.toInt < 0) : formatDeg deg =
    (if deg.toInt.natAbs / 1000000 = 0 then ascii "0" else 45 :: fmtNat (deg.toInt.natAbs / 1000000)) ++ 46 ::
      if deg.toInt.natAbs % 1000000 = 0 then ascii "000000" else
        45 :: padZeros 5 (fmtNat (deg.toInt.natAbs % 1000000)) := by
  obtain ⟨n, hn⟩ := Int.eq_ofNat_of_zero_le (by omega : 0 ≤ -deg.toInt)
  have hneg : deg.toInt = -(n : Int) := by omega
  have hdiv : (-(n : Int)).tdiv 1000000 = -((n / 1000000 : Nat) : Int) := by
    rw [Int.neg_tdiv, Int.tdiv_eq_ediv_of_nonneg (by omega)]
    rfl
  have hmod : (-(n : Int)).tmod 1000000 = -((n % 1000000 : Nat) : Int) := by
    rw [Int.neg_tmod, Int.tmod_eq_emod_of_nonneg (by omega)]
    rfl
  rw [formatDeg_eq, hneg, hdiv, hmod, fmtInt, fmtInt06, Int.natAbs_neg, Int.natAbs_neg, Int.natAbs_neg,
    Int.natAbs_natCast, Int.natAbs_natCast, Int.natAbs_natCast, List.append_assoc]
  by_cases hw : n / 1000000 = 0
  · rw [if_neg (by omega), if_pos hw, hw]
    by_cases hf : n % 1000000 = 0
    · rw [if_neg (by omega), if_pos hf, hf]
      decide
    · rw [if_pos (by omega), if_neg hf]
      rfl
  · rw [if_pos (by omega), if_neg hw]
    by_cases hf : n % 1000000 = 0
    · rw [if_neg (by omega), if_pos hf, hf]
      rfl
    · rw [if_pos (by omega), if_neg hf]
      rfl

end Format

/-! ## Round trips -/

/-- A decimal numeral with six decimals: an optional minus sign, digits, a point and six digits. `v` is its value in
millionths. -/
def Numeral6 (l : Bytes) (v : Int) : Prop :=
  ∃ (minus : Bool) (whole frac : Bytes), l = (if minus then ascii "-" else []) ++ whole ++ ascii "." ++ frac ∧
    whole ≠ [] ∧ whole.all isDigit = true ∧ frac.length = 6 ∧ frac.all isDigit = true ∧
    v = (if minus then -1 else 1) * (digitsValue whole * 10 ^ 6 + digitsValue frac)

/-- Behind its first byte a numeral has no sign. -/
theorem Numeral6.tail {l : Bytes} {v : Int} (h : Numeral6 l v) : ∀ c ∈ l.tail, c ≠ 45 := by
  obtain ⟨minus, whole, frac, rfl, -, hw, -, hf, -⟩ := h
  have hplain : ∀ c ∈ whole ++ ascii "." ++ frac, c ≠ 45 := by
    rintro c hc rfl
    rcases List.mem_append.mp hc with hc | hc
    · rcases List.mem_append.mp hc with hc | hc
      · exact absurd (List.all_eq_true.mp hw 45 hc) (by decide)
      · exact absurd hc (by decide)
    · exact absurd (List.all_eq_true.mp hf 45 hc) (by decide)
  intro c hc
  rw [List.append_assoc, List.append_assoc, ← List.append_assoc whole] at hc
  cases minus with
  | true => exact hplain c hc
  | false => exact hplain c (List.mem_of_mem_tail hc)

/-- A numeral without a sign, with six decimals. -/
theorem unsigned6_eq {whole frac : Bytes} (hne : whole ≠ []) (hw : whole.all isDigit = true) (hlen : frac.length = 6)
    (hf : frac.all isDigit = true) :
    unsigned6 (whole ++ 46 :: frac) = some (digitsValue whole * 10 ^ 6 + digitsValue frac) := by
  have hdigits : ∀ c ∈ whole, isDigit c = true := List.all_eq_true.mp hw
  have htake : (whole ++ 46 :: frac).takeWhile isDigit = whole := by
    rw [List.takeWhile_append_of_pos hdigits, List.takeWhile_cons_of_neg (by decide), List.append_nil]
  have hdrop : (whole ++ 46 :: frac).dropWhile isDigit = 46 :: frac := by
    rw [List.dropWhile_append_of_pos hdigits, List.dropWhile_cons_of_neg (by decide)]
  unfold unsigned6
  simp only [htake, hdrop]
  rw [if_neg hne, if_pos ⟨trivial, hf, by omega⟩, hlen, Nat.sub_self, pow_zero, mul_one]

/-- `ngx_atofp` answers `NGX_ERROR` for a text with a byte that is no digit and no point. -/
theorem atofpLoop_eq_none {l : Bytes} {c : UInt8} (hc : c ∈ l) (hdigit : isDigit c = false) (hpoint : c ≠ 46) (dot : Bool)
    (point : Nat) (value : Int64) : atofpLoop l dot point value = none := by
  induction l generalizing dot point value with
  | nil => exact absurd hc List.not_mem_nil
  | cons b l ih =>
      rw [atofpLoop]
      split_ifs with h0 h1 h2 h3
      · rfl
      · rfl
      · have hcl : c ∈ l := (List.mem_cons.mp hc).resolve_left (fun heq => hpoint (heq.trans h1))
        exact ih hcl true point value
      · rfl
      all_goals
        have hcl : c ∈ l := by
          refine (List.mem_cons.mp hc).resolve_left ?_
          rintro rfl
          rw [hdigit] at h3
          exact h3 rfl
        exact ih hcl _ _ _

theorem ngxAtofp_of_minus {l : Bytes} (h : 45 ∈ l) : ngxAtofp l 6 = -1 := by
  have hne : l ≠ [] := List.ne_nil_of_mem h
  rw [ngxAtofp, if_neg hne, atofpLoop_eq_none h (by decide) (by decide)]

/-- A negative coordinate is printed with a minus sign somewhere. -/
theorem minus_mem_formatDeg {deg : NLADeg} (h : deg.toInt < 0) : 45 ∈ formatDeg deg := by
  rw [formatDeg_neg h]
  by_cases hw : deg.toInt.natAbs / 1000000 = 0
  · have hf : deg.toInt.natAbs % 1000000 ≠ 0 := by omega
    rw [if_neg hf]
    simp
  · rw [if_neg hw]
    simp

/-- **Which coordinates print and read back.** For every `NLADeg`: the text is a decimal numeral with six decimals and
the value of the coordinate, and `setitem` reads it as the coordinate, exactly when the coordinate is not negative. -/
theorem formatDeg_roundtrip_iff (deg : NLADeg) :
    Numeral6 (formatDeg deg) deg.toInt ∧ parseDeg (formatDeg deg) = deg ↔ 0 ≤ deg.toInt := by
  constructor
  · rintro ⟨hnum, hparse⟩
    by_contra hneg
    have hlt : deg.toInt < 0 := by omega
    rw [parseDeg, degFixpoint, ngxAtofp_of_minus (minus_mem_formatDeg hlt)] at hparse
    -- the only negative coordinate that reads back is the error value, and its text is no numeral
    subst hparse
    have htext : formatDeg (Int64.toInt32 (-1)) = ascii "0.-00001" := by decide
    rw [htext] at hnum
    exact hnum.tail 45 (by decide) rfl
  · intro h
    have hlt := deg.toInt_lt
    have hfrac : (padZeros 6 (fmtNat (deg.toInt.natAbs % 1000000))).length = 6 := by
      have hle := (length_fmtNat_le_iff (n := deg.toInt.natAbs % 1000000) (k := 6) (by decide)).mpr (by omega)
      rw [length_padZeros]
      omega
    have hpad := all_isDigit_padZeros 6 (all_isDigit_fmtNat (deg.toInt.natAbs % 1000000))
    have hun := unsigned6_eq (fmtNat_ne_nil (deg.toInt.natAbs / 1000000)) (all_isDigit_fmtNat _) hfrac hpad
    rw [digitsValue_padZeros, digitsValue_fmtNat, digitsValue_fmtNat] at hun
    have hval : deg.toInt.natAbs / 1000000 * 10 ^ 6 + deg.toInt.natAbs % 1000000 = deg.toInt.natAbs := by omega
    rw [hval] at hun
    rw [formatDeg_nonneg h]
    refine ⟨⟨false, fmtNat (deg.toInt.natAbs / 1000000), _, ?_, fmtNat_ne_nil _, all_isDigit_fmtNat _, hfrac, hpad, ?_⟩,
      ?_⟩
    · rw [if_neg Bool.false_ne_true, List.nil_append, List.append_assoc]
      rfl
    · rw [digitsValue_padZeros, digitsValue_fmtNat, digitsValue_fmtNat]
      simp only [Bool.false_eq_true, if_false, one_mul]
      omega
    · have hfp := ngxAtofp_unsigned hun (by omega)
      rw [parseDeg, degFixpoint, ← Int32.toInt_inj, Int64.toInt_toInt32, hfp]
      rw [Int.bmod_eq_of_le (by omega) (by omega)]
      omega

/-- A degree and a half below zero has two signs and reads back as the error value; a whole degree below zero is a
numeral, and reads back as the error value, too. -/
theorem formatDeg_negative : formatDeg (-1500000) = ascii "-1.-500000" ∧
    ¬ Numeral6 (formatDeg (-1500000)) (-1500000 : NLADeg).toInt ∧ parseDeg (formatDeg (-1500000)) = -1 ∧
    formatDeg (-1000000) = ascii "-1.000000" ∧ parseDeg (formatDeg (-1000000)) = -1 := by
  have htext : formatDeg (-1500000) = ascii "-1.-500000" := by decide
  refine ⟨htext, ?_, by decide, by decide, by decide⟩
  rw [htext]
  exact fun hnum => hnum.tail 45 (by decide) rfl

/-! ## Room for the text -/

/-- What is stored for an argument: `-1` for none that `ngx_atofp` takes and for one it takes for negative in 64 bits,
else the low 32 bits of the number. -/
theorem parseDeg_eq (l : Bytes) : (parseDeg l).toInt = match millionths l with
    | none => -1
    | some n => if 2 ^ 63 ≤ n % 2 ^ 64 then -1 else (n : Int).bmod (2 ^ 32) := by
  rw [parseDeg, degFixpoint, ngxAtofp_eq]
  cases millionths l with
  | none => rfl
  | some n =>
      have hint : (Int64.ofNat n).toInt = (n : Int).bmod (2 ^ 64) := Int64.toInt_ofNat'
      have hlt : Int64.ofNat n < 0 ↔ 2 ^ 63 ≤ n % 2 ^ 64 := by
        rw [Int64.lt_iff_toInt_lt, hint, Int.bmod_def]
        change _ < (0 : Int) ↔ _
        omega
      dsimp only
      rw [checked]
      split_ifs with hneg hbig hbig
      · rfl
      · exact absurd (hlt.mp hneg) hbig
      · exact absurd (hlt.mpr hbig) hneg
      · rw [Int64.toInt_toInt32, hint]
        exact Int.bmod_bmod_of_dvd (by decide)

theorem length_fmtInt_le {x : Int} {k : Nat} (hk : 0 < k) (h : x.natAbs < 10 ^ k) : (fmtInt x).length ≤ k + 1 := by
  have hdigits := (length_fmtNat_le_iff hk).mpr h
  unfold fmtInt
  split
  · rw [List.length_append]
    change 1 + _ ≤ _
    omega
  · omega

/-- The length of the text: the whole degrees, the point and six places, and one more byte for each sign that is
printed, behind the point only when the digits leave it no place of the six. -/
theorem length_formatDeg (deg : NLADeg) : (formatDeg deg).length =
    (fmtNat (deg.toInt.natAbs / 1000000)).length + 7 + (if deg.toInt < 0 ∧ deg.toInt.natAbs / 1000000 ≠ 0 then 1 else 0) +
      (if deg.toInt < 0 ∧ 10 ^ 5 ≤ deg.toInt.natAbs % 1000000 then 1 else 0) := by
  have hf5 := length_fmtNat_le_iff (n := deg.toInt.natAbs % 1000000) (k := 5) (by decide)
  have hf6 := length_fmtNat_le_iff (n := deg.toInt.natAbs % 1000000) (k := 6) (by decide)
  by_cases h : deg.toInt < 0
  · have hzeros : (ascii "000000").length = 6 := by decide
    rw [formatDeg_neg h, List.length_append, List.length_cons]
    simp only [h, true_and]
    have hfrac : (if deg.toInt.natAbs % 1000000 = 0 then ascii "000000" else
        45 :: padZeros 5 (fmtNat (deg.toInt.natAbs % 1000000))).length =
        6 + if 10 ^ 5 ≤ deg.toInt.natAbs % 1000000 then 1 else 0 := by
      by_cases hf : deg.toInt.natAbs % 1000000 = 0
      · rw [if_pos hf, hzeros, if_neg (by omega)]
      · rw [if_neg hf, List.length_cons, length_padZeros]
        split_ifs with hbig
        · omega
        · omega
    have hwhole : (if deg.toInt.natAbs / 1000000 = 0 then ascii "0" else
        45 :: fmtNat (deg.toInt.natAbs / 1000000)).length =
        (fmtNat (deg.toInt.natAbs / 1000000)).length + if deg.toInt.natAbs / 1000000 ≠ 0 then 1 else 0 := by
      by_cases hw : deg.toInt.natAbs / 1000000 = 0
      · rw [if_pos hw, if_neg (not_not.mpr hw), hw]
        decide
      · rw [if_neg hw, if_pos hw, List.length_cons]
    rw [hwhole, hfrac]
    omega
  · rw [formatDeg_nonneg (not_lt.mp h), List.length_append, List.length_cons, length_padZeros,
      if_neg (fun hn => h hn.1), if_neg (fun hn => h hn.1)]
    omega

/-- No coordinate takes more than 13 bytes. -/
theorem length_formatDeg_le (deg : NLADeg) : (formatDeg deg).length ≤ 13 := by
  have hlo := deg.le_toInt
  have hhi := deg.toInt_lt
  have hw4 := length_fmtNat_le_iff (n := deg.toInt.natAbs / 1000000) (k := 4) (by decide)
  rw [length_formatDeg]
  split_ifs <;> omega

/-- Which coordinates fit, with their terminator, into 12 bytes. -/
theorem length_formatDeg_iff (deg : NLADeg) : (formatDeg deg).length + 1 ≤ degMaxBufLen ↔
    0 ≤ deg.toInt ∨ deg.toInt.natAbs < 10 ^ 8 ∨ deg.toInt.natAbs < 10 ^ 9 ∧ deg.toInt.natAbs % 10 ^ 6 < 10 ^ 5 := by
  have hlo := deg.le_toInt
  have hhi := deg.toInt_lt
  have hpos : 0 < (fmtNat (deg.toInt.natAbs / 1000000)).length := List.length_pos_of_ne_nil (fmtNat_ne_nil _)
  have hw2 := length_fmtNat_le_iff (n := deg.toInt.natAbs / 1000000) (k := 2) (by decide)
  have hw3 := length_fmtNat_le_iff (n := deg.toInt.natAbs / 1000000) (k := 3) (by decide)
  have hw4 := length_fmtNat_le_iff (n := deg.toInt.natAbs / 1000000) (k := 4) (by decide)
  rw [length_formatDeg, degMaxBufLen]
  split_ifs <;> omega

/-- The argument is none that `ngx_atofp` takes, or it denotes a number that is negative in 64 bits, or not negative in
its low 32 bits, or one whose low 32 bits stand for less than 100 degrees below zero, or for less than 1000 with less
than a tenth of a degree behind the point. -/
def DegFits (l : Bytes) : Prop :=
  match millionths l with
  | none => True
  | some n => 2 ^ 63 ≤ n % 2 ^ 64 ∨ n % 2 ^ 32 < 2 ^ 31 ∨ 2 ^ 32 - n % 2 ^ 32 < 10 ^ 8 ∨
      2 ^ 32 - n % 2 ^ 32 < 10 ^ 9 ∧ (2 ^ 32 - n % 2 ^ 32) % 10 ^ 6 < 10 ^ 5

theorem degFits_iff (l : Bytes) : (formatDeg (parseDeg l)).length + 1 ≤ degMaxBufLen ↔ DegFits l := by
  rw [length_formatDeg_iff, parseDeg_eq, DegFits]
  cases millionths l with
  | none => decide
  | some n =>
      dsimp only
      split_ifs with hbig
      · exact iff_of_true (by decide) (Or.inl hbig)
      · rw [Int.bmod_def]
        omega

variable {conf : Conf} {s s' : NlaCoreData} {r : Request} {rs : List Request} {iHashSize : Nat}

/-- **Which stored coordinates fit their buffers.** In every state a run of requests reaches, for every `setitem`
request with an acceptable id that is served: the text of each coordinate of the item, with its terminator, takes at
most `NLA_DEG_MAX_BUF_LEN` bytes exactly when its argument is one of `DegFits`; `getitem` writes behind a buffer exactly
when one of the two is not. -/
theorem stored_degrees_fit (h0 : 0 < iHashSize) (hrun : runRequests conf (initCoreData iHashSize h0) rs = .ok s)
    {sID sLat sLon : Bytes} (hid : ngxHttpArg r.args (ascii "id") = some sID) (hpos : sID ≠ [])
    (hlen : sID.length ≤ dataIdMaxLen) (hlat : ngxHttpArg r.args (ascii "lat") = some sLat)
    (hlon : ngxHttpArg r.args (ascii "lon") = some sLon) {reply : Reply}
    (hset : setitem conf .succeed s r = .ok (reply, s')) :
    ∃ d data, s'.getdatanode (CStr.ofBuffer sID) = some d ∧ s'.item d = some data ∧
      ((formatDeg data.loc.lat).length + 1 ≤ degMaxBufLen ↔ DegFits sLat) ∧
      ((formatDeg data.loc.lon).length + 1 ≤ degMaxBufLen ↔ DegFits sLon) ∧
      ∀ r', idArg r' = some (CStr.ofBuffer sID) →
        (getitem s' r' = .error .bufferOverflow ↔ ¬ (DegFits sLat ∧ DegFits sLon)) := by
  have hinv := runRequests_inv h0 hrun
  obtain ⟨op, hop, hopid, hoploc⟩ := setitemArgs_of_args hid hpos hlen hlat hlon
  have hs : applySet conf s op = .ok s' := by
    rw [setitem_of_args conf s hop] at hset
    cases happly : applySet conf s op with
    | error e =>
        rw [happly] at hset
        cases hset
    | ok s1 =>
        rw [happly] at hset
        cases hset
        rfl
  obtain ⟨d, data, hd, hdata, hloc⟩ := applySet_stored hinv hs
  rw [hopid] at hd
  have hfitlat := degFits_iff sLat
  have hfitlon := degFits_iff sLon
  have hloc' : data.loc = ⟨parseDeg sLat, parseDeg sLon⟩ := hloc.trans hoploc
  refine ⟨d, data, hd, hdata, by rw [hloc']; exact hfitlat, by rw [hloc']; exact hfitlon, fun r' hr' => ?_⟩
  have hfits : data.loc.fits = true ↔ DegFits sLat ∧ DegFits sLon := by
    rw [← hfitlat, ← hfitlon, hloc', Nla2dloc.fits, Bool.and_eq_true, decide_eq_true_eq, decide_eq_true_eq]
    rfl
  rw [← hfits, getitem_eq hr' hd hdata]
  cases data.loc.fits with
  | true => simp
  | false => simp

theorem stored_degrees_fit_plain : ∃ reply s' d data,
    setitem ⟨1⟩ .succeed (initCoreData 1 Nat.one_pos) (getRequest "id=a&lat=5.5&lon=120") = .ok (reply, s') ∧
      s'.getdatanode (CStr.ofBuffer (ascii "a")) = some d ∧ s'.item d = some data ∧
      (formatDeg data.loc.lat).length + 1 ≤ degMaxBufLen ∧ (formatDeg data.loc.lon).length + 1 ≤ degMaxBufLen := by
  have hrun : runRequests ⟨1⟩ (initCoreData 1 Nat.one_pos) [] = .ok (initCoreData 1 Nat.one_pos) := rfl
  have hlat : DegFits (ascii "5.5") := Or.inr (Or.inl (by decide))
  have hlon : DegFits (ascii "120") := Or.inr (Or.inl (by decide))
  obtain ⟨d, data, hd, hdata, hfit, hfit', -⟩ := stored_degrees_fit Nat.one_pos hrun
    (r := getRequest "id=a&lat=5.5&lon=120") rfl (by decide) (by decide) rfl rfl rfl
  exact ⟨_, _, d, data, rfl, hd, hdata, hfit.mpr hlat, hfit'.mpr hlon⟩

/-- 2148 degrees are 2148000000 millionths, in 32 bits a number below zero with two signs in its text: 13 bytes and a
terminator. -/
theorem setitem_wide_latitude : ∃ reply s' d data,
    setitem ⟨1⟩ .succeed (initCoreData 1 Nat.one_pos) (getRequest "id=a&lat=2148&lon=5") = .ok (reply, s') ∧
      s'.getdatanode (CStr.ofBuffer (ascii "a")) = some d ∧ s'.item d = some data ∧
      formatDeg data.loc.lat = ascii "-2146.-967296" ∧ ¬ (formatDeg data.loc.lat).length + 1 ≤ degMaxBufLen ∧
      getitem s' (getRequest "id=a") = .error .bufferOverflow := by
  refine ⟨_, _, _, _, rfl, rfl, rfl, ?_, ?_, ?_⟩
  · decide +kernel
  · decide +kernel
  · rfl

end Lookaround
