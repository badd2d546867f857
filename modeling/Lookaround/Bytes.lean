import Lookaround.Library.Buffer
import Mathlib.Data.List.TakeWhile

/-!
# Byte strings and C strings

The module and nginx handle two kinds of text: counted byte strings (`ngx_str_t`) and NUL-terminated strings
(`char *`). `Bytes` is the first; `CStr` is the second, without its terminator and with the proof that no byte before
it is NUL. `putAll_terminated` is the copy of one into an array.
-/

namespace Lookaround

/-- A counted string: `ngx_str_t`. -/
abbrev Bytes := List UInt8

/-- The bytes of an ASCII literal of the source. -/
def ascii (s : String) : Bytes := s.toList.map fun c => c.toNat.toUInt8

/-- A NUL-terminated string, given by the bytes before its terminator. -/
structure CStr where
  bytes : Bytes
  noNul : 0 ∉ bytes
  deriving DecidableEq

namespace CStr

theorem ext_iff {a b : CStr} : a = b ↔ a.bytes = b.bytes := by
  constructor
  · rintro rfl
    rfl
  · intro h
    cases a
    cases b
    cases h
    rfl

/-- The one-letter strings `a` and `b`. -/
theorem noNul_a : (0 : UInt8) ∉ [97] := by decide

theorem noNul_b : (0 : UInt8) ∉ [98] := by decide

/-- What C string functions read of a buffer: the bytes up to the first NUL. -/
def ofBuffer (buf : Bytes) : CStr where
  bytes := buf.takeWhile (· ≠ 0)
  noNul := by
    intro h
    simpa using List.mem_takeWhile_imp h

theorem ofBuffer_eq_of_noNul {buf : Bytes} (h : 0 ∉ buf) : (ofBuffer buf).bytes = buf := by
  rw [ofBuffer, List.takeWhile_eq_self_iff]
  intro b hb
  have hne : b ≠ 0 := by
    rintro rfl
    exact h hb
  simpa using hne

/-- Bytes behind the terminator are not read. -/
theorem ofBuffer_append_nul {buf : Bytes} (h : 0 ∉ buf) (rest : Bytes) : (ofBuffer (buf ++ 0 :: rest)).bytes = buf := by
  have htake := ofBuffer_eq_of_noNul h
  simp only [ofBuffer] at htake ⊢
  rw [List.takeWhile_append, htake]
  simp

end CStr

/-- A text and its terminator, copied to the front of an array: inside exactly when the text is shorter than the array,
and read back as the text. -/
theorem putAll_terminated {n : Nat} (dest : Library.Buffer UInt8 n) {l : Bytes} (hl : 0 ∉ l) :
    (∃ b, dest.putAll 0 (l ++ [0]) = some b ∧ (CStr.ofBuffer b.cells).bytes = l) ↔ l.length < n := by
  have hlen : (l ++ [0]).length = l.length + 1 := List.length_append
  constructor
  · rintro ⟨b, hb, -⟩
    have hsome : (dest.putAll 0 (l ++ [0])).isSome = true := by rw [hb]; rfl
    have hle := (dest.isSome_putAll_iff (List.append_ne_nil_of_right_ne_nil _ (List.cons_ne_nil 0 []))).mp hsome
    omega
  · intro h
    obtain ⟨b, hb, hcells⟩ := Library.Buffer.putAll_zero (b := dest) (l := l ++ [0]) (by omega)
    refine ⟨b, hb, ?_⟩
    rw [hcells, List.append_assoc]
    exact CStr.ofBuffer_append_nul hl _

end Lookaround
