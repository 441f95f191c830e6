import Payz.Json.Out
import Payz.Tester.Chunks

/-! # Data that may be sent

A datum may be sent as a message if its text is JSON and its strings are in UTF-8: whatever is
read from a stream of such messages is what has been written.
-/

namespace Payz

open Layout

/-- The bytes of a text without a zero. -/
def Utf8Text (raw : Text) : Prop := ∃ text, '\x00' ∉ text ∧ raw = utf8Bytes text

/-- A datum that may be sent. -/
structure Json.Encoded (j : Json) : Prop where
  wellFormed : j.WellFormed
  utf8 : ∀ raw ∈ j.strings, Utf8Text raw

/-! ## Texts in UTF-8 -/

theorem charBytes_ascii {c : Char} (ascii : c.toNat < 128) : charBytes c = [c] := by
  have small : c.val.toNat ≤ 127 := Nat.le_of_lt_succ ascii
  unfold charBytes String.utf8EncodeChar
  dsimp only
  rw [if_pos small, List.map_singleton]
  refine congrArg (· :: []) (Char.ext (UInt32.toNat_inj.mp ?_))
  exact toNat_ofNat_byte (by omega)

theorem charBytes_wide {c : Char} (wide : 128 ≤ c.toNat) :
    ∀ b ∈ charBytes c, 128 ≤ b.toNat := by
  have large : ¬ c.val.toNat ≤ 127 := Nat.not_le_of_lt wide
  have bound : c.val.toNat < 1114112 := by
    have := c.valid
    rcases this with low | high <;> omega
  unfold charBytes String.utf8EncodeChar
  dsimp only
  generalize c.val.toNat = v at large bound
  have byte : ∀ n, 128 ≤ n → n < 256 → 128 ≤ (Char.ofNat (UInt8.ofNat n).toNat).toNat :=
    fun n low high => by rwa [toNat_ofNat_byte high]
  split_ifs with two three <;>
    simp only [List.map_cons, List.map_nil, List.forall_mem_cons, List.not_mem_nil, false_imp_iff,
      implies_true, and_true]
  · exact ⟨byte _ (by omega) (by omega), byte _ (by omega) (by omega)⟩
  · exact ⟨byte _ (by omega) (by omega), byte _ (by omega) (by omega),
      byte _ (by omega) (by omega)⟩
  · exact ⟨byte _ (by omega) (by omega), byte _ (by omega) (by omega),
      byte _ (by omega) (by omega), byte _ (by omega) (by omega)⟩

theorem utf8Bytes_append (s t : Text) : utf8Bytes (s ++ t) = utf8Bytes s ++ utf8Bytes t :=
  List.flatMap_append

theorem utf8Bytes_ascii {t : Text} (ascii : ∀ c ∈ t, c.toNat < 128) : utf8Bytes t = t := by
  induction t with
  | nil => rfl
  | cons c t ih =>
      rw [List.forall_mem_cons] at ascii
      rw [utf8Bytes, List.flatMap_cons, charBytes_ascii ascii.1]
      exact congrArg (c :: ·) (ih ascii.2)

theorem Utf8Text.of_ascii {t : Text} (ascii : ∀ c ∈ t, c.toNat < 128) (nul : '\x00' ∉ t) :
    Utf8Text t := ⟨t, nul, (utf8Bytes_ascii ascii).symm⟩

theorem escapeChar_wide {c : Char} (wide : 128 ≤ c.toNat) : escapeChar c = [c] := by
  refine escapeChar_eq_self ?_
  have quote : c ≠ '"' := by
    rintro rfl
    exact absurd wide (by decide)
  have backslash : c ≠ '\\' := by
    rintro rfl
    exact absurd wide (by decide)
  simp [jsonEscapeNeeded, quote, backslash]
  omega

theorem escapeChar_ascii {c : Char} (ascii : c.toNat < 128) :
    ∀ d ∈ escapeChar c, d.toNat < 128 := by
  have hex : ∀ n, (hexDigitUpper n).toNat < 128 := fun n => by
    have all : ∀ m : Fin 16,
        (if m.1 < 10 then Char.ofNat (48 + m.1) else Char.ofNat (55 + m.1)).toNat < 128 := by decide
    exact all ⟨n % 16, Nat.mod_lt n (by decide)⟩
  unfold escapeChar
  split_ifs <;>
    simp only [List.forall_mem_cons, List.not_mem_nil, false_imp_iff, implies_true, and_true]
  all_goals first | decide | exact ascii | skip
  · exact ⟨by decide, ascii⟩
  · exact ⟨by decide, by decide, hex _, hex _, hex _, hex _⟩

/-- Escapes are made byte by byte, and are the same character by character. -/
theorem jsonEscape_utf8Bytes (t : Text) : jsonEscape (utf8Bytes t) = utf8Bytes (jsonEscape t) := by
  induction t with
  | nil => rfl
  | cons c t ih =>
      have one : jsonEscape (charBytes c) = utf8Bytes (escapeChar c) := by
        by_cases ascii : c.toNat < 128
        · rw [charBytes_ascii ascii, utf8Bytes_ascii (escapeChar_ascii ascii)]
          simp [jsonEscape]
        · rw [not_lt] at ascii
          rw [escapeChar_wide ascii]
          have each : ∀ b ∈ charBytes c, escapeChar b = [b] := fun b member =>
            escapeChar_wide (charBytes_wide ascii b member)
          rw [jsonEscape, List.flatMap_congr each, List.flatMap_singleton']
          simp [utf8Bytes]
      have front : utf8Bytes (c :: t) = charBytes c ++ utf8Bytes t := rfl
      have back : jsonEscape (c :: t) = escapeChar c ++ jsonEscape t := rfl
      rw [front, back, utf8Bytes_append, ← one, ← ih]
      exact List.flatMap_append

theorem StringText.nul_not_mem {t : Text} (text : StringText t) : '\x00' ∉ t := by
  induction text with
  | nil => exact List.not_mem_nil
  | plain _ _ nul _ ih =>
      rw [List.mem_cons, not_or]
      exact ⟨nul.symm, ih⟩
  | escape simple _ ih =>
      rw [List.mem_cons, not_or, List.mem_cons, not_or]
      exact ⟨by decide, (ne_nul_of_isSimpleEscape simple).symm, ih⟩
  | unicode hex _ ih =>
      have digits := fun h member => ne_nul_of_isHexDigit (hex h member)
      simp only [List.forall_mem_cons, List.not_mem_nil, false_imp_iff, implies_true, and_true]
        at digits
      simp only [List.mem_cons, not_or]
      exact ⟨by decide, by decide, digits.1.symm, digits.2.1.symm, digits.2.2.1.symm,
        digits.2.2.2.symm, ih⟩

theorem Utf8Text.jsonEscape {t : Text} (utf8 : Utf8Text t) : Utf8Text (Payz.jsonEscape t) := by
  obtain ⟨text, -, rfl⟩ := utf8
  exact ⟨Payz.jsonEscape text, (stringText_jsonEscape text).nul_not_mem, jsonEscape_utf8Bytes text⟩

/-! ## Strings of what is built -/

theorem mem_memberStrings {raw : Text} {members : List (Text × Json)} :
    raw ∈ memberStrings members ↔ ∃ m ∈ members, raw = m.1 ∨ raw ∈ m.2.strings := by
  induction members with
  | nil => simp [memberStrings]
  | cons m members ih =>
      obtain ⟨key, value⟩ := m
      simp [memberStrings, ih, or_assoc]

theorem Json.Encoded.primitive {t : Text} (text : PrimitiveText t) :
    (Json.primitive t).Encoded := ⟨.primitive text, by simp [Json.strings]⟩

theorem Json.Encoded.formatU (n : Nat) : (Json.primitive (Payz.formatU n)).Encoded :=
  ⟨.formatU n, by simp [Json.strings]⟩

theorem Json.Encoded.formatD (n : Int) : (Json.primitive (Payz.formatD n)).Encoded :=
  ⟨.formatD n, by simp [Json.strings]⟩

theorem Json.Encoded.string {raw : Text} (text : StringText raw) (utf8 : Utf8Text raw) :
    (Json.string raw).Encoded := ⟨.string text, by simpa [Json.strings] using utf8⟩

theorem Json.Encoded.escaped {t : Text} (utf8 : Utf8Text t) :
    (Json.string (Payz.jsonEscape t)).Encoded := .string (stringText_jsonEscape t) utf8.jsonEscape

/-- A key that may be sent. -/
def KeyText (key : Text) : Prop := StringText key ∧ Utf8Text key

theorem Json.Encoded.object {text : Text} {members : List (Text × Json)}
    (wellFormed : (Json.object text members).WellFormed) (keys : ∀ m ∈ members, KeyText m.1)
    (values : ∀ m ∈ members, m.2.Encoded) : (Json.object text members).Encoded := by
  refine ⟨wellFormed, fun raw member => ?_⟩
  rw [Json.strings, mem_memberStrings] at member
  obtain ⟨m, there, rfl | inside⟩ := member
  · exact (keys m there).2
  · exact (values m there).utf8 raw inside

theorem Json.Encoded.tight {members : List (Text × Json)} (keys : ∀ m ∈ members, KeyText m.1)
    (values : ∀ m ∈ members, m.2.Encoded) : (Json.tight members).Encoded :=
  .object (.tight (fun m there => (keys m there).1) fun m there => (values m there).wellFormed)
    keys values

theorem Json.Encoded.message {text w : Text} {members : List (Text × Json)}
    (encoded : (Json.object text members).Encoded) (blanks : Blanks w) :
    ValidMessage (w, .object text members) :=
  ⟨⟨blanks, encoded.wellFormed, _, _, rfl⟩, encoded.utf8⟩

theorem KeyText.of_plain {t : Text}
    (plain : (t.all fun c => c ≠ '"' ∧ c ≠ '\\' ∧ c ≠ '\x00' ∧ c.toNat < 128) = true) :
    KeyText t := by
  have each := forall_mem_of_all plain
  exact ⟨.of_forall fun c member => ⟨(each c member).1, (each c member).2.1, (each c member).2.2.1⟩,
    .of_ascii (fun c member => (each c member).2.2.2) fun member => (each _ member).2.2.1 rfl⟩

end Payz
