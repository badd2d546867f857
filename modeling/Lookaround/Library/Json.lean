import Mathlib.Data.List.Forall2
import Mathlib.Data.List.TakeWhile

/-!
# JSON texts

A reader of JSON over code points, with fuel, and what it makes of texts put together without escaping.

* `parse` : the value of a text; `value`, `strBody`, `number` : the parts of the grammar;
* `Plain s` : a string that stands for itself between quotes;
* `reads_objText` : an object of plain members, pasted together, reads back as these members;
* `parse_arrText` : an array of texts reads back as the array of their values.
-/

namespace Library.Json

/-- A text, as code points. -/
abbrev Text := List Nat

inductive Value where
  | null
  | bool (b : Bool)
  | num (text : Text)
  | str (s : Text)
  | arr (vs : List Value)
  | obj (ms : List (Text × Value))

/-! ## The grammar -/

/-- Space, tab, line feed and carriage return. -/
def isWs (c : Nat) : Bool := c == 32 || c == 9 || c == 10 || c == 13

def skipWs (l : Text) : Text := l.dropWhile isWs

def isDigit (c : Nat) : Bool := 48 ≤ c && c ≤ 57

def hexVal (c : Nat) : Option Nat :=
  if 48 ≤ c ∧ c ≤ 57 then some (c - 48)
  else if 65 ≤ c ∧ c ≤ 70 then some (c - 55)
  else if 97 ≤ c ∧ c ≤ 102 then some (c - 87)
  else none

/-- The four digits behind a `u`. -/
def hex4 : Text → Option (Nat × Text)
  | a :: b :: c :: d :: r => do
    return (((← hexVal a) * 16 + (← hexVal b)) * 256 + (← hexVal c) * 16 + (← hexVal d), r)
  | _ => none

/-- What a letter behind a backslash stands for. -/
def unescape (c : Nat) : Option Nat :=
  if c = 34 ∨ c = 92 ∨ c = 47 then some c
  else if c = 98 then some 8
  else if c = 102 then some 12
  else if c = 110 then some 10
  else if c = 114 then some 13
  else if c = 116 then some 9
  else none

/-- A code point behind `u`; a high surrogate takes the low one that has to follow. -/
def unicode (l : Text) : Option (Nat × Text) :=
  match hex4 l with
  | none => none
  | some (u, r) =>
    if 0xD800 ≤ u ∧ u < 0xDC00 then
      match r with
      | 92 :: 117 :: r =>
        match hex4 r with
        | some (v, r) =>
          if 0xDC00 ≤ v ∧ v < 0xE000 then some (0x10000 + (u - 0xD800) * 1024 + (v - 0xDC00), r) else none
        | none => none
      | _ => none
    else if 0xDC00 ≤ u ∧ u < 0xE000 then none
    else some (u, r)

/-- What is behind a backslash. -/
def escape : Text → Option (Nat × Text)
  | [] => none
  | e :: r => if e = 117 then unicode r else (unescape e).map fun x => (x, r)

/-- A string behind its opening quote: its code points, and what is behind the closing quote. -/
def strBody : Nat → Text → Option (Text × Text)
  | 0, _ => none
  | _ + 1, [] => none
  | n + 1, c :: r =>
    if c = 34 then some ([], r)
    else if c = 92 then (escape r).bind fun u => (strBody n u.2).map fun q => (u.1 :: q.1, q.2)
    else if c < 32 then none
    else (strBody n r).map fun q => (c :: q.1, q.2)

def takeDigits (l : Text) : Option (Text × Text) :=
  if l.takeWhile isDigit = [] then none else some (l.takeWhile isDigit, l.dropWhile isDigit)

def intPart : Text → Option (Text × Text)
  | 48 :: r => some ([48], r)
  | l => takeDigits l

def fracPart : Text → Option (Text × Text)
  | 46 :: r => (takeDigits r).map fun q => (46 :: q.1, q.2)
  | l => some ([], l)

def signPart : Text → Text × Text
  | 43 :: r => ([43], r)
  | 45 :: r => ([45], r)
  | l => ([], l)

def expPart : Text → Option (Text × Text)
  | c :: r =>
    if c = 101 ∨ c = 69 then (takeDigits (signPart r).2).map fun q => (c :: (signPart r).1 ++ q.1, q.2)
    else some ([], c :: r)
  | [] => some ([], [])

/-- A number, kept as its text. -/
def number (l : Text) : Option (Text × Text) := do
  let (sign, l) := match l with
    | 45 :: r => ([45], r)
    | l => ([], l)
  let (i, l) ← intPart l
  let (f, l) ← fracPart l
  let (e, l) ← expPart l
  return (sign ++ i ++ f ++ e, l)

/-- The elements of an array, up to its closing bracket. -/
def elements (p : Text → Option (Value × Text)) : Nat → Text → Option (List Value × Text)
  | 0, _ => none
  | n + 1, l =>
    match p l with
    | none => none
    | some (v, r) =>
      match skipWs r with
      | 44 :: r => (elements p n r).map fun q => (v :: q.1, q.2)
      | 93 :: r => some ([v], r)
      | _ => none

/-- The members of an object, up to its closing brace. -/
def members (p : Text → Option (Value × Text)) : Nat → Text → Option (List (Text × Value) × Text)
  | 0, _ => none
  | n + 1, l =>
    match skipWs l with
    | 34 :: r =>
      match strBody (r.length + 1) r with
      | none => none
      | some (k, r) =>
        match skipWs r with
        | 58 :: r =>
          match p r with
          | none => none
          | some (v, r) =>
            match skipWs r with
            | 44 :: r => (members p n r).map fun q => ((k, v) :: q.1, q.2)
            | 125 :: r => some ([(k, v)], r)
            | _ => none
        | _ => none
    | _ => none

/-- A value, and what is behind it. -/
def value : Nat → Text → Option (Value × Text)
  | 0, _ => none
  | n + 1, l =>
    match skipWs l with
    | 123 :: r =>
      match skipWs r with
      | 125 :: r => some (.obj [], r)
      | r => (members (value n) (r.length + 1) r).map fun q => (.obj q.1, q.2)
    | 91 :: r =>
      match skipWs r with
      | 93 :: r => some (.arr [], r)
      | r => (elements (value n) (r.length + 1) r).map fun q => (.arr q.1, q.2)
    | 34 :: r => (strBody (r.length + 1) r).map fun q => (.str q.1, q.2)
    | 116 :: 114 :: 117 :: 101 :: r => some (.bool true, r)
    | 102 :: 97 :: 108 :: 115 :: 101 :: r => some (.bool false, r)
    | 110 :: 117 :: 108 :: 108 :: r => some (.null, r)
    | r => (number r).map fun q => (.num q.1, q.2)

/-- The value of a text: nothing but blanks may be around it. -/
def parse (l : Text) : Option Value :=
  match value (l.length + 1) l with
  | some (v, r) => if skipWs r = [] then some v else none
  | none => none

/-! ## Texts put together -/

/-- A string with no quote, backslash or control character. -/
def Plain (s : Text) : Prop := ∀ c ∈ s, 32 ≤ c ∧ c ≠ 34 ∧ c ≠ 92

def quoted (s : Text) : Text := 34 :: s ++ [34]

/-- Texts with commas between them. -/
def joined : List Text → Text
  | [] => []
  | [t] => t
  | t :: ts => t ++ 44 :: joined ts

def memberText (m : Text × Text) : Text := quoted m.1 ++ 58 :: quoted m.2

def objText (ms : List (Text × Text)) : Text := 123 :: joined (ms.map memberText) ++ [125]

def arrText (ts : List Text) : Text := 91 :: joined ts ++ [93]

theorem skipWs_cons {c : Nat} (h : isWs c = false) (r : Text) : skipWs (c :: r) = c :: r := by
  rw [skipWs, List.dropWhile_cons_of_neg (by rw [h]; exact Bool.false_ne_true)]

theorem strBody_plain {s : Text} (h : Plain s) (r : Text) {n : Nat} (hn : s.length < n) :
    strBody n (s ++ 34 :: r) = some (s, r) := by
  induction s generalizing n with
  | nil =>
      obtain ⟨n, rfl⟩ : ∃ k, n = k + 1 := ⟨n - 1, by omega⟩
      rw [List.nil_append, strBody, if_pos rfl]
  | cons c s ih =>
      obtain ⟨n, rfl⟩ : ∃ k, n = k + 1 := ⟨n - 1, by omega⟩
      obtain ⟨h32, h34, h92⟩ := h c List.mem_cons_self
      have hs : Plain s := fun d hd => h d (List.mem_cons_of_mem c hd)
      rw [List.length_cons] at hn
      rw [List.cons_append, strBody, if_neg h34, if_neg h92, if_neg (by omega), ih hs (by omega)]
      rfl

theorem value_quoted {s : Text} (h : Plain s) (n : Nat) (r : Text) :
    value (n + 1) (34 :: (s ++ 34 :: r)) = some (.str s, r) := by
  have hlen : s.length < (s ++ 34 :: r).length + 1 := by
    rw [List.length_append]
    omega
  rw [value, skipWs_cons (by decide)]
  simp only
  rw [strBody_plain h r hlen]
  rfl

/-- One member, and the comma or the brace behind it. -/
theorem members_memberText {m : Text × Text} (hkey : Plain m.1) (hval : Plain m.2) (k n : Nat) (rest : Text) :
    members (value (k + 1)) (n + 1) (memberText m ++ 44 :: rest) =
        (members (value (k + 1)) n rest).map (fun q => ((m.1, .str m.2) :: q.1, q.2)) ∧
      members (value (k + 1)) (n + 1) (memberText m ++ 125 :: rest) = some ([(m.1, .str m.2)], rest) := by
  have hshape : ∀ c, memberText m ++ c :: rest = 34 :: (m.1 ++ 34 :: (58 :: 34 :: (m.2 ++ 34 :: (c :: rest)))) := by
    intro c
    simp [memberText, quoted]
  have hlen : ∀ r : Text, m.1.length < (m.1 ++ 34 :: r).length + 1 := by
    intro r
    rw [List.length_append]
    omega
  constructor
  all_goals
    rw [hshape, members, skipWs_cons (by decide)]
    simp only
    rw [strBody_plain hkey _ (hlen _)]
    simp only
    rw [skipWs_cons (by decide)]
    simp only
    rw [value_quoted hval]
    simp only
    rw [skipWs_cons (by decide)]
    simp only

theorem members_joined {ms : List (Text × Text)} (hne : ms ≠ []) (hp : ∀ m ∈ ms, Plain m.1 ∧ Plain m.2) (k : Nat)
    (r : Text) {n : Nat} (hn : ms.length ≤ n) : members (value (k + 1)) n (joined (ms.map memberText) ++ 125 :: r) =
      some (ms.map fun m => (m.1, .str m.2), r) := by
  induction ms generalizing n with
  | nil => exact absurd rfl hne
  | cons m ms ih =>
      obtain ⟨n, rfl⟩ : ∃ k, n = k + 1 := ⟨n - 1, by rw [List.length_cons] at hn; omega⟩
      obtain ⟨hkey, hval⟩ := hp m List.mem_cons_self
      cases ms with
      | nil => exact (members_memberText hkey hval k n r).2
      | cons m' ms =>
          have hrest := ih (List.cons_ne_nil _ _) (fun x hx => hp x (List.mem_cons_of_mem m hx))
            (Nat.le_of_succ_le_succ hn)
          have hjoin : joined ((m :: m' :: ms).map memberText) ++ 125 :: r =
              memberText m ++ 44 :: (joined ((m' :: ms).map memberText) ++ 125 :: r) := by
            simp [joined]
          rw [hjoin, (members_memberText hkey hval k n _).1, hrest]
          rfl

theorem length_le_joined {ts : List Text} (h : ∀ t ∈ ts, t ≠ []) : ts.length ≤ (joined ts).length := by
  induction ts with
  | nil => exact Nat.zero_le _
  | cons t ts ih =>
      have ht : 0 < t.length := List.length_pos_of_ne_nil (h t List.mem_cons_self)
      cases ts with
      | nil => exact ht
      | cons t' ts =>
          have hrest := ih fun x hx => h x (List.mem_cons_of_mem t hx)
          simp only [joined, List.length_append, List.length_cons] at hrest ⊢
          omega

theorem memberText_ne_nil (m : Text × Text) : memberText m ≠ [] := by
  simp [memberText, quoted]

/-- A text that is read as `v` wherever an element of an array may stand. -/
structure Reads (t : Text) (v : Value) : Prop where
  start : ∃ c t', t = c :: t' ∧ isWs c = false ∧ c ≠ 93
  value_append : ∀ n r, value (n + 2) (t ++ r) = some (v, r)

/-- An object of plain members, pasted together. -/
theorem reads_objText {ms : List (Text × Text)} (hne : ms ≠ []) (hp : ∀ m ∈ ms, Plain m.1 ∧ Plain m.2) :
    Reads (objText ms) (.obj (ms.map fun m => (m.1, .str m.2))) := by
  refine ⟨⟨123, _, rfl, by decide, by decide⟩, fun n r => ?_⟩
  have hshape : objText ms ++ r = 123 :: (joined (ms.map memberText) ++ 125 :: r) := by
    simp [objText]
  -- the first character behind the brace is a quote
  obtain ⟨rest, hquote⟩ : ∃ rest, joined (ms.map memberText) ++ 125 :: r = 34 :: rest := by
    obtain ⟨m, ms', hms⟩ := List.exists_cons_of_ne_nil hne
    rw [hms, List.map_cons]
    cases ms'.map memberText <;> exact ⟨_, by simp [joined, memberText, quoted]; rfl⟩
  have hlen : ms.length ≤ (joined (ms.map memberText) ++ 125 :: r).length + 1 := by
    have hle : (ms.map memberText).length ≤ (joined (ms.map memberText)).length := by
      apply length_le_joined
      intro t ht
      obtain ⟨m, -, rfl⟩ := List.mem_map.mp ht
      exact memberText_ne_nil m
    rw [List.length_map] at hle
    rw [List.length_append]
    omega
  have hmem := members_joined hne hp n r hlen
  rw [hquote] at hmem
  rw [hshape, hquote, value, skipWs_cons (by decide)]
  simp only
  rw [skipWs_cons (by decide)]
  simp only
  rw [hmem]
  rfl

/-- One element, and the comma or the bracket behind it. -/
theorem elements_reads {t : Text} {v : Value} (h : Reads t v) (k n : Nat) (rest : Text) :
    elements (value (k + 2)) (n + 1) (t ++ 44 :: rest) =
        (elements (value (k + 2)) n rest).map (fun q => (v :: q.1, q.2)) ∧
      elements (value (k + 2)) (n + 1) (t ++ 93 :: rest) = some ([v], rest) := by
  constructor
  all_goals
    rw [elements, h.value_append]
    simp only
    rw [skipWs_cons (by decide)]
    simp only

theorem elements_joined {ts : List Text} {vs : List Value} (hne : ts ≠ []) (h : List.Forall₂ Reads ts vs) (k : Nat)
    (r : Text) {n : Nat} (hn : ts.length ≤ n) :
    elements (value (k + 2)) n (joined ts ++ 93 :: r) = some (vs, r) := by
  induction h generalizing n with
  | nil => exact absurd rfl hne
  | @cons t v ts vs ht hts ih =>
      obtain ⟨n, rfl⟩ : ∃ k, n = k + 1 := ⟨n - 1, by rw [List.length_cons] at hn; omega⟩
      cases hts with
      | nil => exact (elements_reads ht k n r).2
      | @cons t' v' ts vs ht' hts =>
          have hrest := ih (List.cons_ne_nil _ _) (Nat.le_of_succ_le_succ hn)
          have hjoin : joined (t :: t' :: ts) ++ 93 :: r = t ++ 44 :: (joined (t' :: ts) ++ 93 :: r) := by
            simp [joined]
          rw [hjoin, (elements_reads ht k n _).1, hrest]
          rfl

/-- An array of texts, pasted together. -/
theorem value_arrText {ts : List Text} {vs : List Value} (h : List.Forall₂ Reads ts vs) (n : Nat) (r : Text) :
    value (n + 3) (arrText ts ++ r) = some (.arr vs, r) := by
  have hshape : arrText ts ++ r = 91 :: (joined ts ++ 93 :: r) := by
    simp [arrText]
  rw [hshape, value, skipWs_cons (by decide)]
  simp only
  by_cases hne : ts = []
  · subst hne
    cases h
    rfl
  · have hstart : ∀ t ∈ ts, ∃ c t', t = c :: t' ∧ isWs c = false ∧ c ≠ 93 := by
      intro t ht
      obtain ⟨i, hi, rfl⟩ := List.getElem_of_mem ht
      exact ((List.forall₂_iff_get.mp h).2 i hi (by rw [← h.length_eq]; exact hi)).start
    have hlen : ts.length ≤ (joined ts ++ 93 :: r).length + 1 := by
      have hle : ts.length ≤ (joined ts).length := by
        apply length_le_joined
        intro t ht
        obtain ⟨c, t', rfl, -⟩ := hstart t ht
        exact List.cons_ne_nil c t'
      rw [List.length_append]
      omega
    have hel := elements_joined hne h n r hlen
    -- the first character behind the bracket is that of the first element
    obtain ⟨c, rest, hc, hws, hclose⟩ : ∃ c rest, joined ts ++ 93 :: r = c :: rest ∧ isWs c = false ∧ c ≠ 93 := by
      obtain ⟨t, ts', rfl⟩ := List.exists_cons_of_ne_nil hne
      obtain ⟨c, t', rfl, hws, hclose⟩ := hstart t List.mem_cons_self
      cases ts' <;> exact ⟨c, _, by simp [joined]; rfl, hws, hclose⟩
    rw [hc] at hel ⊢
    rw [skipWs_cons hws]
    split
    · rename_i heq
      cases heq
      exact absurd rfl hclose
    · rw [hel]
      rfl

theorem parse_of_value {t : Text} {v : Value} (h : value (t.length + 1) t = some (v, [])) : parse t = some v := by
  rw [parse, h]
  rfl

theorem Reads.parse {t : Text} {v : Value} (h : Reads t v) : parse t = some v := by
  obtain ⟨c, t', rfl, -⟩ := h.start
  apply parse_of_value
  have hval := h.value_append t'.length []
  rw [List.append_nil] at hval
  exact hval

theorem parse_arrText {ts : List Text} {vs : List Value} (h : List.Forall₂ Reads ts vs) :
    parse (arrText ts) = some (.arr vs) := by
  apply parse_of_value
  have hlen : (arrText ts).length + 1 = (joined ts).length + 3 := by
    rw [arrText, List.length_append, List.length_cons]
    rfl
  have hval := value_arrText h (joined ts).length []
  rw [hlen]
  rw [List.append_nil] at hval
  exact hval

end Library.Json
