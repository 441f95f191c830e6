import Payz.Json.Out

/-! # JSON by the standard

The tokenizer lets more pass than JSON: a string may hold a control character as it is, and
a primitive that starts like a number may be no number, such as `01` or `1-`.
-/

namespace Payz

open Layout

def Digits (t : Text) : Prop := t ≠ [] ∧ ∀ c ∈ t, c.isDigit = true

def StandardNumber (t : Text) : Prop :=
  ∃ minus whole fraction exponent, t = minus ++ (whole ++ (fraction ++ exponent)) ∧
    (minus = [] ∨ minus = ['-']) ∧
    (whole = ['0'] ∨ Digits whole ∧ whole.head? ≠ some '0') ∧
    (fraction = [] ∨ ∃ digits, Digits digits ∧ fraction = '.' :: digits) ∧
    (exponent = [] ∨ ∃ e sign digits, (e = 'e' ∨ e = 'E') ∧ (sign = [] ∨ sign = ['+'] ∨ sign = ['-']) ∧
      Digits digits ∧ exponent = e :: (sign ++ digits))

/-- `null`, `true`, `false` or a number. -/
def StandardPrimitive (t : Text) : Prop :=
  t = "null".toList ∨ t = "true".toList ∨ t = "false".toList ∨ StandardNumber t

/-- Contents of a string literal, without control characters. -/
structure StandardString (t : Text) : Prop where
  text : StringText t
  controls : ∀ c ∈ t, 32 ≤ c.toNat

/-- Each node's text is JSON for that node. -/
inductive Json.Standard : Json → Prop where
  | primitive {t} : StandardPrimitive t → Standard (.primitive t)
  | string {raw} : StandardString raw → Standard (.string raw)
  | array {es body} : (∀ e ∈ es, Standard e) →
      CommaSep (fun e s => s = e.jsonTokFull) es body →
      Standard (.array ('[' :: (body ++ [']'])) es)
  | object {ms body} : (∀ m ∈ ms, StandardString m.1) → (∀ m ∈ ms, Standard m.2) →
      CommaSep MemberText ms body → Standard (.object ('{' :: (body ++ ['}'])) ms)

/-- The text of some JSON datum. -/
def StandardText (t : Text) : Prop := ∃ j : Json, j.Standard ∧ j.jsonTokFull = t

def NumberChar (c : Char) : Prop := c.isDigit = true ∨ c ∈ ['+', '-', '.', 'e', 'E']

theorem Digits.numberChar {t : Text} (digits : Digits t) : ∀ c ∈ t, NumberChar c :=
  fun c member => .inl (digits.2 c member)

theorem StandardNumber.numberText {t : Text} (number : StandardNumber t) : NumberText t := by
  obtain ⟨minus, whole, fraction, exponent, rfl, sign, wholes, fractions, exponents⟩ := number
  have wholeDigits : Digits whole := by
    rcases wholes with rfl | ⟨digits, -⟩
    · exact ⟨List.cons_ne_nil _ _, List.forall_mem_singleton.mpr rfl⟩
    · exact digits
  have fractionOk : ∀ c ∈ fraction, NumberChar c := by
    rcases fractions with rfl | ⟨digits, some, rfl⟩
    · simp
    · exact List.forall_mem_cons.mpr ⟨.inr (by decide), some.numberChar⟩
  have exponentOk : ∀ c ∈ exponent, NumberChar c := by
    rcases exponents with rfl | ⟨e, plus, digits, mark, signs, some, rfl⟩
    · simp
    · refine List.forall_mem_cons.mpr ⟨.inr (by rcases mark with rfl | rfl <;> decide), ?_⟩
      refine List.forall_mem_append.mpr ⟨?_, some.numberChar⟩
      rcases signs with rfl | rfl | rfl
      · simp
      · exact List.forall_mem_singleton.mpr (.inr (by decide))
      · exact List.forall_mem_singleton.mpr (.inr (by decide))
  have rest : ∀ c ∈ whole ++ (fraction ++ exponent), NumberChar c :=
    List.forall_mem_append.mpr ⟨wholeDigits.numberChar,
      List.forall_mem_append.mpr ⟨fractionOk, exponentOk⟩⟩
  rcases sign with rfl | rfl
  · cases whole with
    | nil => exact absurd rfl wholeDigits.1
    | cons c tail =>
        exact ⟨c, _, rfl, .inr (wholeDigits.2 c List.mem_cons_self), (List.forall_mem_cons.mp rest).2⟩
  · exact ⟨'-', _, rfl, .inl rfl, rest⟩

theorem StandardPrimitive.primitiveText {t : Text} (standard : StandardPrimitive t) :
    PrimitiveText t := by
  rcases standard with null | yes | no | number
  · exact .inl null
  · exact .inr (.inl yes)
  · exact .inr (.inr (.inl no))
  · exact .inr (.inr (.inr number.numberText))

theorem Json.Standard.wellFormed {j : Json} (standard : j.Standard) : j.WellFormed := by
  induction standard with
  | primitive text => exact .primitive text.primitiveText
  | string raw => exact .string raw.text
  | array _ sep elems => exact .array elems sep
  | object keys _ sep values => exact .object (fun m member => (keys m member).text) values sep

theorem Json.Standard.members {text : Text} {members : List (Text × Json)}
    (standard : (Json.object text members).Standard) :
    ∀ m ∈ members, StandardString m.1 ∧ m.2.Standard := by
  cases standard with
  | object keys values _ => exact fun m member => ⟨keys m member, values m member⟩

theorem Json.Standard.tight {members : List (Text × Json)}
    (keys : ∀ m ∈ members, StandardString m.1) (values : ∀ m ∈ members, m.2.Standard) :
    (Json.tight members).Standard := by
  refine .object keys values (CommaSep.tight tightMember fun m _ => ?_)
  exact ⟨[], [], Blanks.nil, Blanks.nil, rfl⟩

theorem Json.Standard.formatU (n : Nat) : (Json.primitive (formatU n)).Standard := by
  refine .primitive (.inr (.inr (.inr ⟨[], Payz.formatU n, [], [], by simp, .inl rfl, ?_, .inl rfl,
    .inl rfl⟩)))
  rcases Nat.eq_zero_or_pos n with rfl | pos
  · exact .inl rfl
  · refine .inr ⟨⟨formatU_ne_nil n, fun c member => isDigit_of_mem_formatU member⟩, ?_⟩
    intro zero
    obtain ⟨rest, digits⟩ := List.head?_eq_some_iff.mp zero
    exact head_formatU_of_pos pos digits

end Payz
