import Lookaround.Bytes
import Mathlib.Tactic.Ring

/-!
# What the handlers use of nginx (`ngx_http_parse.c`, `ngx_string.c`)

* `ngxHttpArg` : the value of a request argument;
* `ngxAtoi`, `ngxAtofp` : numbers, in 64-bit arithmetic that wraps;
* `decimal6` : a decimal numeral with at most six decimals, in millionths, as a reader would take it;
* `millionths` : what any argument denotes; `ngxAtofp_eq` : what `ngxAtofp` makes of it;
* `ngxAtofp_unsigned`, `ngxAtofp_minus` : what `ngxAtofp` makes of a numeral.
-/

namespace Lookaround

/-! ## Arguments -/

/-- The lower case of an ASCII letter. -/
def toLower (c : UInt8) : UInt8 := if 65 ≤ c ∧ c ≤ 90 then c ||| 32 else c

/-- `name=` at the front of `args`, in any case; the bytes behind the sign. -/
def ngxArgAt : Bytes → Bytes → Option Bytes
  | [], c :: rest => if c = 61 then some rest else none
  | n :: name, c :: rest => if toLower n = toLower c then ngxArgAt name rest else none
  | _, [] => none

/-- `ngx_http_arg` behind the byte `prev`: the first place where the name stands at the front or behind `&` and has a
`=` after it; the value is the bytes up to the next `&`. -/
def ngxHttpArgFrom (name : Bytes) : Option UInt8 → Bytes → Option Bytes
  | _, [] => none
  | prev, c :: rest =>
    match if prev = none ∨ prev = some 38 then ngxArgAt name (c :: rest) else none with
    | some value => some (value.takeWhile (· ≠ 38))
    | none => ngxHttpArgFrom name (some c) rest

/-- `ngx_http_arg`: `none` for `NGX_DECLINED`. -/
def ngxHttpArg (args name : Bytes) : Option Bytes := ngxHttpArgFrom name none args

/-! ## Numbers -/

def isDigit (c : UInt8) : Bool := 48 ≤ c && c ≤ 57

/-- `value * 10 + (*line - '0')`. -/
def pushDigit (value : Int64) (c : UInt8) : Int64 := value * 10 + Int64.ofNat (c.toNat - 48)

/-- The `value < 0` test at the end; `-1` is `NGX_ERROR`. -/
def checked (value : Int64) : Int64 := if value < 0 then -1 else value

/-- `ngx_atoi`. -/
def ngxAtoi (line : Bytes) : Int64 :=
  if line = [] then -1 else if line.all isDigit then checked (line.foldl pushDigit 0) else -1

/-- `while (point--) value = value * 10`. -/
def scale : Nat → Int64 → Int64
  | 0, value => value
  | point + 1, value => scale point (value * 10)

/-- The loops of `ngx_atofp`: `none` for an early `NGX_ERROR`. -/
def atofpLoop : Bytes → Bool → Nat → Int64 → Option Int64
  | [], _, point, value => some (scale point value)
  | c :: line, dot, point, value =>
    if point = 0 then none
    else if c = 46 then
      if dot then none else atofpLoop line true point value
    else if !isDigit c then none
    else atofpLoop line dot (if dot then point - 1 else point) (pushDigit value c)

/-- `ngx_atofp`. -/
def ngxAtofp (line : Bytes) (point : Nat) : Int64 :=
  if line = [] then -1
  else match atofpLoop line false point 0 with
    | none => -1
    | some value => checked value

example : ngxAtofp (ascii "10.5") 2 = 1050 := by decide

/-! ## Numerals -/

/-- The number a string of digits stands for. -/
def digitsValue (digits : Bytes) : Nat := digits.foldl (fun v c => v * 10 + (c.toNat - 48)) 0

/-- Digits, then nothing or a point and at most six digits; the value in millionths. -/
def unsigned6 (l : Bytes) : Option Nat :=
  let whole := l.takeWhile isDigit
  if whole = [] then none
  else match l.dropWhile isDigit with
    | [] => some (digitsValue whole * 10 ^ 6)
    | c :: frac =>
      if c = 46 ∧ frac.all isDigit ∧ frac.length ≤ 6 then
        some (digitsValue whole * 10 ^ 6 + digitsValue frac * 10 ^ (6 - frac.length))
      else none

/-- What an argument denotes, in millionths: digits, and optionally a point and at most six digits behind it. -/
def millionths (l : Bytes) : Option Nat :=
  if l = [] then none
  else match l.dropWhile isDigit with
    | [] => some (digitsValue (l.takeWhile isDigit) * 10 ^ 6)
    | c :: frac =>
      if c = 46 ∧ frac.all isDigit ∧ frac.length ≤ 6 then
        some (digitsValue (l.takeWhile isDigit) * 10 ^ 6 + digitsValue frac * 10 ^ (6 - frac.length))
      else none

/-- A decimal numeral: an optional minus sign, digits, and optionally a point with at most six decimals. The value is in
millionths. -/
def decimal6 : Bytes → Option Int
  | 45 :: l => (unsigned6 l).map fun v => -(v : Int)
  | l => (unsigned6 l).map Int.ofNat

/-- The numeral has a minus sign. -/
def signed : Bytes → Bool
  | 45 :: _ => true
  | _ => false

section Numerals

variable {l : Bytes} {v : Nat}

theorem isDigit_ne_point {c : UInt8} (h : isDigit c = true) : c ≠ 46 := by
  rintro rfl
  exact absurd h (by decide)

theorem foldl_digits (ds : Bytes) (v : Nat) :
    ds.foldl (fun v c => v * 10 + (c.toNat - 48)) v = v * 10 ^ ds.length + digitsValue ds := by
  induction ds generalizing v with
  | nil => simp [digitsValue]
  | cons d ds ih =>
      have hd : digitsValue (d :: ds) = (d.toNat - 48) * 10 ^ ds.length + digitsValue ds := by
        rw [digitsValue, List.foldl_cons, ih, zero_mul, zero_add]
      rw [List.foldl_cons, ih, hd, List.length_cons, pow_succ]
      ring

theorem pushDigit_ofNat (v : Nat) (c : UInt8) :
    pushDigit (Int64.ofNat v) c = Int64.ofNat (v * 10 + (c.toNat - 48)) := by
  rw [pushDigit, Int64.ofNat_add, Int64.ofNat_mul]
  rfl

theorem scale_ofNat (point v : Nat) : scale point (Int64.ofNat v) = Int64.ofNat (v * 10 ^ point) := by
  induction point generalizing v with
  | zero => rw [scale, pow_zero, mul_one]
  | succ point ih =>
      have h10 : Int64.ofNat v * 10 = Int64.ofNat (v * 10) := (Int64.ofNat_mul v 10).symm
      rw [scale, h10, ih, pow_succ']
      congr 1
      ring

/-- Digits before the point do not use up places. -/
theorem atofpLoop_whole (whole : Bytes) (hw : ∀ c ∈ whole, isDigit c = true) (rest : Bytes) {point : Nat}
    (hp : point ≠ 0) (v : Nat) : atofpLoop (whole ++ rest) false point (Int64.ofNat v) =
      atofpLoop rest false point (Int64.ofNat (whole.foldl (fun v c => v * 10 + (c.toNat - 48)) v)) := by
  induction whole generalizing v with
  | nil => rfl
  | cons c whole ih =>
      have hc := hw c List.mem_cons_self
      rw [List.cons_append, atofpLoop, if_neg hp, if_neg (isDigit_ne_point hc)]
      simp only [hc, Bool.not_true, Bool.false_eq_true, if_false, pushDigit_ofNat, List.foldl_cons]
      exact ih (fun d hd => hw d (List.mem_cons_of_mem c hd)) _

/-- Each digit behind the point uses up a place. -/
theorem atofpLoop_frac (frac : Bytes) (hf : ∀ c ∈ frac, isDigit c = true) {point : Nat} (hp : frac.length ≤ point)
    (v : Nat) : atofpLoop frac true point (Int64.ofNat v) =
      some (Int64.ofNat (frac.foldl (fun v c => v * 10 + (c.toNat - 48)) v * 10 ^ (point - frac.length))) := by
  induction frac generalizing v point with
  | nil =>
      rw [atofpLoop, scale_ofNat]
      rfl
  | cons c frac ih =>
      have hc := hf c List.mem_cons_self
      rw [List.length_cons] at hp
      rw [atofpLoop, if_neg (by omega), if_neg (isDigit_ne_point hc)]
      simp only [hc, Bool.not_true, Bool.false_eq_true, if_false, if_true, pushDigit_ofNat, List.foldl_cons]
      rw [ih (fun d hd => hf d (List.mem_cons_of_mem c hd)) (by omega), List.length_cons]
      congr 4
      omega

theorem checked_ofNat (h : v < 2 ^ 63) : (checked (Int64.ofNat v)).toInt = v := by
  have hint : (Int64.ofNat v).toInt = v := Int64.toInt_ofNat_of_lt h
  have hneg : ¬ Int64.ofNat v < 0 := by
    rw [Int64.lt_iff_toInt_lt, hint]
    change ¬ (v : Int) < 0
    omega
  rw [checked, if_neg hneg, hint]

theorem foldl_pushDigit (ds : Bytes) (v : Nat) : ds.foldl pushDigit (Int64.ofNat v) =
    Int64.ofNat (ds.foldl (fun v c => v * 10 + (c.toNat - 48)) v) := by
  induction ds generalizing v with
  | nil => rfl
  | cons c ds ih => rw [List.foldl_cons, pushDigit_ofNat, ih, List.foldl_cons]

/-- A string of digits is taken at its value, as long as this is below `2 ^ 63`. -/
theorem ngxAtoi_digits (hne : l ≠ []) (hd : l.all isDigit = true) (hv : digitsValue l < 2 ^ 63) :
    (ngxAtoi l).toInt = digitsValue l := by
  rw [ngxAtoi, if_neg hne, if_pos hd]
  change (checked (l.foldl pushDigit (Int64.ofNat 0))).toInt = _
  rw [foldl_pushDigit]
  exact checked_ofNat hv

theorem ngxAtoi_eq_error (h : l.all isDigit = false) : ngxAtoi l = -1 := by
  rw [ngxAtoi, h, if_neg Bool.false_ne_true, ite_self]

/-- Behind the point, a seventh digit and any other byte are errors. -/
theorem atofpLoop_frac_eq_none {frac : Bytes} {point : Nat} (h : ¬ (frac.all isDigit = true ∧ frac.length ≤ point))
    (value : Int64) : atofpLoop frac true point value = none := by
  induction frac generalizing point value with
  | nil => exact absurd ⟨rfl, Nat.zero_le _⟩ h
  | cons c frac ih =>
      rw [atofpLoop]
      by_cases h0 : point = 0
      · rw [if_pos h0]
      · rw [if_neg h0]
        by_cases hpoint : c = 46
        · rw [if_pos hpoint, if_pos rfl]
        · rw [if_neg hpoint]
          cases hd : isDigit c with
          | false => rfl
          | true =>
              simp only [Bool.not_true, Bool.false_eq_true, if_false, if_true]
              refine ih (fun hrest => h ⟨?_, ?_⟩) _
              · rw [List.all_cons, hd, Bool.true_and, hrest.1]
              · rw [List.length_cons]
                omega

/-- **`ngx_atofp` on any argument**: the number it denotes in 64 bits, or `NGX_ERROR`. -/
theorem ngxAtofp_eq (l : Bytes) : ngxAtofp l 6 = match millionths l with
    | none => -1
    | some n => checked (Int64.ofNat n) := by
  have hsplit : l.takeWhile isDigit ++ l.dropWhile isDigit = l := List.takeWhile_append_dropWhile
  have hw : ∀ c ∈ l.takeWhile isDigit, isDigit c = true := fun c hc => List.mem_takeWhile_imp hc
  have hloop := atofpLoop_whole _ hw (l.dropWhile isDigit) (by decide : 6 ≠ 0) 0
  rw [hsplit] at hloop
  unfold ngxAtofp millionths
  by_cases hne : l = []
  · rw [if_pos hne, if_pos hne]
  · rw [if_neg hne, if_neg hne]
    change (match atofpLoop l false 6 (Int64.ofNat 0) with | none => -1 | some value => checked value) = _
    rw [hloop]
    cases hrest : l.dropWhile isDigit with
    | nil =>
        rw [atofpLoop, scale_ofNat]
        rfl
    | cons c frac =>
        have hdigit : isDigit c = false := by
          have hhead := List.head?_dropWhile_not isDigit l
          rw [hrest] at hhead
          simpa using hhead
        rw [atofpLoop, if_neg (by decide)]
        dsimp only
        by_cases hc : c = 46
        · rw [if_pos hc, if_neg Bool.false_ne_true]
          by_cases hfrac : frac.all isDigit = true ∧ frac.length ≤ 6
          · rw [if_pos ⟨hc, hfrac⟩, atofpLoop_frac frac (List.all_eq_true.mp hfrac.1) hfrac.2, foldl_digits, add_mul,
              mul_assoc, ← pow_add, Nat.add_sub_cancel' hfrac.2]
            rfl
          · rw [if_neg (fun h => hfrac h.2), atofpLoop_frac_eq_none hfrac]
        · rw [if_neg hc, if_pos (by rw [hdigit]; rfl), if_neg (fun h => hc h.1)]

/-- A numeral denotes its value. -/
theorem millionths_of_unsigned6 (h : unsigned6 l = some v) : millionths l = some v := by
  have hne : l ≠ [] := by
    rintro rfl
    cases h
  rw [millionths, if_neg hne]
  unfold unsigned6 at h
  simp only at h
  split_ifs at h
  exact h

/-- **A numeral without a sign is taken at its value**, as long as this is below `2 ^ 63`. -/
theorem ngxAtofp_unsigned (h : unsigned6 l = some v) (hv : v < 2 ^ 63) : (ngxAtofp l 6).toInt = v := by
  rw [ngxAtofp_eq, millionths_of_unsigned6 h]
  exact checked_ofNat hv

/-- **A numeral with a minus sign is taken as `NGX_ERROR`.** -/
theorem ngxAtofp_minus (h : signed l = true) : ngxAtofp l 6 = -1 := by
  unfold signed at h
  split at h
  · rfl
  · cases h

end Numerals

end Lookaround
