import Payz.Json.Out

/-! # Escaping and unescaping

`json_escape` writes a control character that has no short escape as `\u` with four
digits; `json_escape_unescape` reads the short escapes only.  So a text survives the
round trip exactly if it holds none of those characters.
-/

namespace Payz

/-- The character that a short escape stands for. -/
def shortEscape (e : Char) : Option Char :=
  if e = 'n' then some '\n'
  else if e = 'b' then some '\x08'
  else if e = 'f' then some '\x0c'
  else if e = 't' then some '\t'
  else if e = 'r' then some '\r'
  else if e = '/' ∨ e = '\\' ∨ e = '"' then some e
  else none

/-- The first text is read as the second. -/
inductive Unescapes : Text → Text → Prop where
  | nil : Unescapes [] []
  | plain {c rest read} : c ≠ '\\' → Unescapes rest read → Unescapes (c :: rest) (c :: read)
  | escape {e c rest read} : shortEscape e = some c → Unescapes rest read →
      Unescapes ('\\' :: e :: rest) (c :: read)

theorem jsonEscapeUnescape_plain {c : Char} (plain : c ≠ '\\') (rest : Text) :
    jsonEscapeUnescape (c :: rest) = (jsonEscapeUnescape rest).map (c :: ·) := by
  cases rest <;> simp [jsonEscapeUnescape, plain]

theorem jsonEscapeUnescape_escape (e : Char) (rest : Text) :
    jsonEscapeUnescape ('\\' :: e :: rest) =
      (shortEscape e).bind fun c => (jsonEscapeUnescape rest).map (c :: ·) := by
  unfold shortEscape
  rw [jsonEscapeUnescape]
  split_ifs <;> rfl

theorem Unescapes.reads {t u : Text} (unescapes : Unescapes t u) :
    jsonEscapeUnescape t = some u := by
  induction unescapes with
  | nil => rfl
  | plain plain _ ih => rw [jsonEscapeUnescape_plain plain, ih, Option.map_some]
  | escape short _ ih =>
      rw [jsonEscapeUnescape_escape, short, ih, Option.bind_some, Option.map_some]

theorem unescapes_of_reads {t u : Text} (read : jsonEscapeUnescape t = some u) :
    Unescapes t u := by
  induction size : t.length using Nat.strong_induction_on generalizing t u with
  | _ size ih =>
      subst size
      cases t with
      | nil =>
          cases read
          exact .nil
      | cons c rest =>
          by_cases plain : c = '\\'
          · subst plain
            cases rest with
            | nil => cases read
            | cons e rest =>
                rw [jsonEscapeUnescape_escape, Option.bind_eq_some_iff] at read
                obtain ⟨d, short, later⟩ := read
                obtain ⟨tail, tailRead, rfl⟩ := Option.map_eq_some_iff.mp later
                exact .escape short (ih _ (by simp only [List.length_cons]; omega) tailRead rfl)
          · rw [jsonEscapeUnescape_plain plain] at read
            obtain ⟨tail, tailRead, rfl⟩ := Option.map_eq_some_iff.mp read
            exact .plain plain (ih _ (by simp) tailRead rfl)

theorem unescapes_iff {t u : Text} : jsonEscapeUnescape t = some u ↔ Unescapes t u :=
  ⟨unescapes_of_reads, Unescapes.reads⟩

namespace Unescapes

variable {t u : Text}

theorem length_le (unescapes : Unescapes t u) : u.length ≤ t.length := by
  induction unescapes with
  | nil => exact le_rfl
  | plain _ _ ih | escape _ _ ih =>
      simp only [List.length_cons]
      omega

theorem eq_of_length (unescapes : Unescapes t u) (same : t.length ≤ u.length) :
    u = t ∧ '\\' ∉ t := by
  induction unescapes with
  | nil => simp
  | plain plain _ ih =>
      simp only [List.length_cons, Nat.add_le_add_iff_right] at same
      obtain ⟨rfl, none⟩ := ih same
      exact ⟨rfl, by simp [plain.symm, none]⟩
  | escape _ rest _ =>
      have shorter := rest.length_le
      simp only [List.length_cons] at same
      omega

theorem of_no_backslash (none : '\\' ∉ t) : Unescapes t t := by
  induction t with
  | nil => exact .nil
  | cons c t ih =>
      rw [List.mem_cons, not_or] at none
      exact .plain (Ne.symm none.1) (ih none.2)

end Unescapes

theorem unescapes_self_iff {t : Text} : jsonEscapeUnescape t = some t ↔ '\\' ∉ t := by
  rw [unescapes_iff]
  exact ⟨fun same => (same.eq_of_length le_rfl).2, .of_no_backslash⟩

theorem shortEscape_ne_nul {e c : Char} (short : shortEscape e = some c) : c ≠ '\x00' := by
  rintro rfl
  unfold shortEscape at short
  split_ifs at short with lf bs ff tab cr other
  · exact absurd short (by decide)
  · exact absurd short (by decide)
  · exact absurd short (by decide)
  · exact absurd short (by decide)
  · exact absurd short (by decide)
  · cases short
    exact absurd other (by decide)

/-- What is read from a string literal can be held in a C string. -/
theorem Unescapes.nul_not_mem {t u : Text} (unescapes : Unescapes t u) (text : StringText t) :
    '\x00' ∉ u := by
  induction unescapes with
  | nil => simp
  | plain plain _ ih =>
      cases text with
      | plain _ _ nul rest => simp [nul.symm, ih rest]
      | escape => exact absurd rfl plain
      | unicode => exact absurd rfl plain
  | escape short _ ih =>
      cases text with
      | plain _ backslash => exact absurd rfl backslash
      | escape _ rest => simp [(shortEscape_ne_nul short).symm, ih rest]
      | unicode => cases short

/-! ## The round trip -/

/-- A character that is written as `\u`. -/
def escapesLong (c : Char) : Bool :=
  (c.toNat < 32 || c.toNat == 127) && c ∉ ['\n', '\x08', '\x0c', '\t', '\r']

theorem jsonEscapeUnescape_escapeChar (c : Char) (rest : Text) :
    jsonEscapeUnescape (escapeChar c ++ rest) =
      if escapesLong c then none else (jsonEscapeUnescape rest).map (c :: ·) := by
  by_cases long : escapesLong c = true
  · have control : c.toNat < 32 ∨ c.toNat = 127 := by
      simp only [escapesLong, Bool.and_eq_true, Bool.or_eq_true, decide_eq_true_eq, beq_iff_eq]
        at long
      exact long.1
    have others : c ∉ ['\n', '\x08', '\x0c', '\t', '\r'] := by
      simp only [escapesLong, Bool.and_eq_true, decide_eq_true_eq] at long
      exact long.2
    have special : ¬ (c = '\\' ∨ c = '"') := by
      rintro (rfl | rfl) <;> exact absurd control (by decide)
    simp only [List.mem_cons, List.not_mem_nil, or_false, not_or] at others
    rw [if_pos long, escapeChar, if_neg others.1, if_neg others.2.1, if_neg others.2.2.1,
      if_neg others.2.2.2.1, if_neg others.2.2.2.2, if_neg special, if_pos control]
    exact jsonEscapeUnescape_escape 'u' _
  · rw [if_neg long]
    unfold escapeChar
    split_ifs with lf bs ff tab cr special control
    · exact lf ▸ jsonEscapeUnescape_escape 'n' rest
    · exact bs ▸ jsonEscapeUnescape_escape 'b' rest
    · exact ff ▸ jsonEscapeUnescape_escape 'f' rest
    · exact tab ▸ jsonEscapeUnescape_escape 't' rest
    · exact cr ▸ jsonEscapeUnescape_escape 'r' rest
    · rcases special with rfl | rfl
      · exact jsonEscapeUnescape_escape '\\' rest
      · exact jsonEscapeUnescape_escape '"' rest
    · refine absurd ?_ long
      simp [escapesLong, control, lf, bs, ff, tab, cr]
    · rw [not_or] at special
      exact jsonEscapeUnescape_plain special.1 rest

/-- What is written is read back unless it holds such a character. -/
theorem jsonEscapeUnescape_jsonEscape (t : Text) :
    jsonEscapeUnescape (jsonEscape t) = if t.any escapesLong then none else some t := by
  induction t with
  | nil => rfl
  | cons c t ih =>
      have written : jsonEscape (c :: t) = escapeChar c ++ jsonEscape t := rfl
      rw [written, jsonEscapeUnescape_escapeChar, ih, List.any_cons]
      cases escapesLong c <;> cases t.any escapesLong <;> rfl

/-! ## All escapes of JSON -/

/-- A string literal denotes a text: what any JSON reader makes of it. -/
inductive Decodes : Text → Text → Prop where
  | nil : Decodes [] []
  | plain {c rest read} : c ≠ '\\' → Decodes rest read → Decodes (c :: rest) (c :: read)
  | escape {e c rest read} : shortEscape e = some c → Decodes rest read →
      Decodes ('\\' :: e :: rest) (c :: read)
  | unicode {a b c d rest read} {w x y z : Nat} : digitValue 16 a = some w →
      digitValue 16 b = some x → digitValue 16 c = some y → digitValue 16 d = some z →
      Decodes rest read →
      Decodes ('\\' :: 'u' :: a :: b :: c :: d :: rest)
        (Char.ofNat (((w * 16 + x) * 16 + y) * 16 + z) :: read)

theorem digitValue_hexDigitUpper (n : Nat) : digitValue 16 (hexDigitUpper n) = some (n % 16) := by
  have bound : n % 16 < 16 := Nat.mod_lt n (by decide)
  have all : ∀ m : Fin 16, digitValue 16
      (if m.1 < 10 then Char.ofNat (48 + m.1) else Char.ofNat (55 + m.1)) = some m.1 := by decide
  exact all ⟨n % 16, bound⟩

theorem Decodes.escapeChar_append (c : Char) {rest read : Text} (decodes : Decodes rest read) :
    Decodes (escapeChar c ++ rest) (c :: read) := by
  unfold escapeChar
  split_ifs with lf bs ff tab cr special control
  · exact lf ▸ .escape rfl decodes
  · exact bs ▸ .escape rfl decodes
  · exact ff ▸ .escape rfl decodes
  · exact tab ▸ .escape rfl decodes
  · exact cr ▸ .escape rfl decodes
  · rcases special with rfl | rfl
    · exact .escape rfl decodes
    · exact .escape rfl decodes
  · have value : ((c.toNat / 4096 % 16 * 16 + c.toNat / 256 % 16) * 16 + c.toNat / 16 % 16) * 16 +
        c.toNat % 16 = c.toNat := by omega
    have written := Decodes.unicode (digitValue_hexDigitUpper (c.toNat / 4096))
      (digitValue_hexDigitUpper (c.toNat / 256)) (digitValue_hexDigitUpper (c.toNat / 16))
      (digitValue_hexDigitUpper c.toNat) decodes
    rw [value, Char.ofNat_toNat] at written
    exact written
  · rw [not_or] at special
    exact .plain special.1 decodes

end Payz
