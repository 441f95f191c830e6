import Payz.Ccan.Strmap
import Payz.Json.Utf8

/-! # Names as C strings

A name without a NUL is kept as the C string of its UTF-8 bytes.  Bytes compare as the code
points they encode.
-/

namespace Payz

theorem char_lt (c : Char) : c.val.toNat < 0x110000 := by
  rcases c.valid with low | ⟨_, high⟩
  · exact low.trans (by decide)
  · exact high

theorem digits64_lt {v w : Nat} (less : v < w) :
    v / 262144 < w / 262144 ∨ v / 262144 = w / 262144 ∧ (v / 4096 % 64 < w / 4096 % 64 ∨
      v / 4096 % 64 = w / 4096 % 64 ∧ (v / 64 % 64 < w / 64 % 64 ∨
        v / 64 % 64 = w / 64 % 64 ∧ v % 64 < w % 64)) := by
  have digits : ∀ n, n = ((n / 262144 * 64 + n / 4096 % 64) * 64 + n / 64 % 64) * 64 + n % 64 ∧
      n / 4096 % 64 < 64 ∧ n / 64 % 64 < 64 ∧ n % 64 < 64 := fun n => by omega
  obtain ⟨valueV, v1, v2, v3⟩ := digits v
  obtain ⟨valueW, w1, w2, w3⟩ := digits w
  generalize v / 262144 = a at *
  generalize w / 262144 = a' at *
  generalize v / 4096 % 64 = b at *
  generalize w / 4096 % 64 = b' at *
  generalize v / 64 % 64 = c at *
  generalize w / 64 % 64 = c' at *
  omega

/-- The smaller of two characters has the smaller bytes, whatever follows them. -/
theorem utf8EncodeChar_lt {c d : Char} (less : c < d) (s t : List UInt8) :
    String.utf8EncodeChar c ++ s < String.utf8EncodeChar d ++ t := by
  have numbers : c.val.toNat < d.val.toNat := less
  have boundC := char_lt c
  have boundD := char_lt d
  unfold String.utf8EncodeChar
  dsimp only
  generalize c.val.toNat = v at numbers boundC
  generalize d.val.toNat = w at numbers boundD
  have digits := digits64_lt numbers
  split_ifs <;>
    simp only [List.cons_append, List.nil_append, List.cons_lt_cons_iff, UInt8.lt_iff_toNat_lt,
      ← UInt8.toNat_inj, UInt8.toNat_ofNat'] <;>
    rcases digits with high | ⟨high, next | ⟨next, low | ⟨low, last⟩⟩⟩ <;> omega

theorem utf8EncodeChar_ne_nil (c : Char) : String.utf8EncodeChar c ≠ [] := by
  unfold String.utf8EncodeChar
  dsimp only
  split_ifs <;> simp

theorem flatMap_utf8_lt {s t : Text} (less : s < t) :
    s.flatMap String.utf8EncodeChar < t.flatMap String.utf8EncodeChar := by
  induction s generalizing t with
  | nil =>
      cases t with
      | nil => exact absurd less (List.lt_irrefl _)
      | cons d t =>
          rw [List.flatMap_nil, List.flatMap_cons]
          obtain ⟨b, rest, bytes⟩ := List.exists_cons_of_ne_nil (utf8EncodeChar_ne_nil d)
          rw [bytes, List.cons_append]
          exact List.nil_lt_cons _ _
  | cons c s ih =>
      cases t with
      | nil => exact absurd less (List.not_lt_nil _)
      | cons d t =>
          rw [List.flatMap_cons, List.flatMap_cons]
          rcases List.cons_lt_cons_iff.mp less with smaller | ⟨rfl, rest⟩
          · exact utf8EncodeChar_lt smaller _ _
          · exact List.append_left_lt (ih rest)

theorem zero_notMem_utf8EncodeChar {c : Char} (nul : c ≠ '\x00') :
    0 ∉ String.utf8EncodeChar c := by
  have positive : c.val.toNat ≠ 0 := fun zero => nul (Char.ext (UInt32.toNat_inj.mp zero))
  have bound := char_lt c
  unfold String.utf8EncodeChar
  dsimp only
  generalize c.val.toNat = v at positive bound
  split_ifs <;>
    simp only [List.mem_cons, List.not_mem_nil, or_false, ← UInt8.toNat_inj, UInt8.toNat_ofNat',
      UInt8.toNat_zero] <;> omega

abbrev CText : Type := { text : Text // '\x00' ∉ text }

def CText.cstr (text : CText) : CStr where
  bytes := text.1.flatMap String.utf8EncodeChar
  noNul := by
    intro member
    obtain ⟨c, there, zero⟩ := List.mem_flatMap.mp member
    refine zero_notMem_utf8EncodeChar (fun nul => text.2 ?_) zero
    rwa [nul] at there

theorem CText.cstr_lt {s t : CText} (less : s.1 < t.1) : s.cstr.bytes < t.cstr.bytes :=
  flatMap_utf8_lt less

theorem CText.cstr_injective : Function.Injective CText.cstr := by
  intro s t same
  have bytes : s.cstr.bytes = t.cstr.bytes := congrArg CStr.bytes same
  cases order : compare s.1 t.1 with
  | lt => exact absurd (CText.cstr_lt (compare_eq_lt_iff.mp order)) (bytes ▸ List.lt_irrefl _)
  | eq => exact Subtype.ext (Std.LawfulEqCmp.eq_of_compare order)
  | gt =>
      have greater := CText.cstr_lt (compare_eq_lt_iff.mp (Std.OrientedCmp.gt_iff_lt.mp order))
      exact absurd greater (bytes ▸ List.lt_irrefl _)

end Payz
