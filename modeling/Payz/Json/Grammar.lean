import Payz.Json.Access
import Payz.Json.Jsmn
import Payz.Lib.Layout

/-! # JSON texts and what the tokenizer makes of them

`WellFormed j` says that the text of `j` is JSON text for `j`, whatever blanks it
contains.  The main result is that `json_parse_simple` reads such a text back as
`j`; so two well-formed data with the same text are the same datum.
-/

namespace Payz

open Layout

/-- A number literal, leniently: what follows the first character is only
    required to be made of digits, signs, points and exponent marks. -/
def NumberText (t : Text) : Prop :=
  ∃ c rest, t = c :: rest ∧ (c = '-' ∨ c.isDigit = true) ∧
    ∀ d ∈ rest, d.isDigit = true ∨ d ∈ ['+', '-', '.', 'e', 'E']

/-- `null`, `true`, `false` or a number. -/
def PrimitiveText (t : Text) : Prop :=
  t = "null".toList ∨ t = "true".toList ∨ t = "false".toList ∨ NumberText t

/-- Contents of a string literal between its quotes. -/
inductive StringText : Text → Prop where
  | nil : StringText []
  | plain {c rest} : c ≠ '"' → c ≠ '\\' → c ≠ '\x00' → StringText rest → StringText (c :: rest)
  | escape {e rest} : isSimpleEscape e = true → StringText rest → StringText ('\\' :: e :: rest)
  | unicode {a b c d rest} : (∀ h ∈ [a, b, c, d], isHexDigit h = true) → StringText rest →
      StringText ('\\' :: 'u' :: a :: b :: c :: d :: rest)

/-- The text of an object member, with blanks around the colon. -/
def MemberText (m : Text × Json) (s : Text) : Prop :=
  ∃ w w', Blanks w ∧ Blanks w' ∧
    s = '"' :: (m.1 ++ '"' :: (w ++ ':' :: (w' ++ m.2.jsonTokFull)))

/-- Each node's text is JSON text for that node. -/
inductive Json.WellFormed : Json → Prop where
  | primitive {t} : PrimitiveText t → WellFormed (.primitive t)
  | string {raw} : StringText raw → WellFormed (.string raw)
  | array {es body} : (∀ e ∈ es, WellFormed e) →
      CommaSep (fun e s => s = e.jsonTokFull) es body →
      WellFormed (.array ('[' :: (body ++ [']'])) es)
  | object {ms body} : (∀ m ∈ ms, StringText m.1) → (∀ m ∈ ms, WellFormed m.2) →
      CommaSep MemberText ms body → WellFormed (.object ('{' :: (body ++ ['}'])) ms)

theorem stringText_append {t u : Text} (first : StringText t) (second : StringText u) :
    StringText (t ++ u) := by
  induction first with
  | nil => exact second
  | plain quote backslash nul _ ih => exact .plain quote backslash nul ih
  | escape simple _ ih => exact .escape simple ih
  | unicode hex _ ih => exact .unicode hex ih

/-- What a text can be checked for one character after the other. -/
theorem forall_mem_of_all {t : Text} {P : Char → Prop} [DecidablePred P]
    (check : (t.all fun c => P c) = true) : ∀ c ∈ t, P c := by
  simpa using check

theorem StringText.of_plain {t : Text}
    (plain : (t.all fun c => c ≠ '"' ∧ c ≠ '\\' ∧ c ≠ '\x00') = true) : StringText t := by
  induction t with
  | nil => exact .nil
  | cons c rest ih =>
      rw [List.all_cons, Bool.and_eq_true, decide_eq_true_iff] at plain
      exact .plain plain.1.1 plain.1.2.1 plain.1.2.2 (ih plain.2)

theorem StringText.of_forall {t : Text} (plain : ∀ c ∈ t, c ≠ '"' ∧ c ≠ '\\' ∧ c ≠ '\x00') :
    StringText t :=
  .of_plain (List.all_eq_true.mpr fun c member => decide_eq_true (plain c member))

theorem StringText.of_notMem {t : Text} (quote : '"' ∉ t) (backslash : '\\' ∉ t)
    (nul : '\x00' ∉ t) : StringText t :=
  .of_forall fun _ member => ⟨fun same => quote (same ▸ member),
    fun same => backslash (same ▸ member), fun same => nul (same ▸ member)⟩

/-! ## Scanning leaves -/

theorem jsmnParseString_plain {c : Char} (rest : Text) (quote : c ≠ '"') (backslash : c ≠ '\\')
    (nul : c ≠ '\x00') : jsmnParseString 0 (c :: rest) = (jsmnParseString 0 rest).map (· + 1) := by
  cases rest <;> simp [jsmnParseString, quote, backslash, nul]

theorem jsmnParseString_stringText {raw : Text} (text : StringText raw) (rest : Text) :
    jsmnParseString 0 (raw ++ '"' :: rest) = .ok raw.length := by
  induction text with
  | nil => cases rest <;> simp [jsmnParseString]
  | plain quote backslash nul _ ih =>
      rw [List.cons_append, jsmnParseString_plain _ quote backslash nul, ih]
      rfl
  | escape simple _ ih => simp [jsmnParseString, simple, ih, Except.map]
  | @unicode a b c d tail hex _ ih =>
      have nul : ∀ h ∈ [a, b, c, d], h ≠ '\x00' := by
        rintro h member rfl
        exact absurd (hex _ member) (by decide)
      simp only [List.forall_mem_cons, List.not_mem_nil, false_imp_iff, implies_true,
        and_true] at hex nul
      have notSimple : isSimpleEscape 'u' = false := by decide
      simp [jsmnParseString, notSimple, hex, nul, ih, Except.map]

def PrimitiveChar (c : Char) : Prop :=
  c ≠ '\x00' ∧ endsPrimitive c = false ∧ 32 ≤ c.toNat ∧ c.toNat < 127

instance : DecidablePred PrimitiveChar := fun c =>
  inferInstanceAs (Decidable (c ≠ '\x00' ∧ endsPrimitive c = false ∧ 32 ≤ c.toNat ∧ c.toNat < 127))

theorem primitiveChar_of_isDigit {c : Char} (digit : c.isDigit = true) : PrimitiveChar c := by
  have range := toNat_of_isDigit digit
  have differ : ∀ d : Char, d.toNat < 48 ∨ 57 < d.toNat → c ≠ d := by
    rintro d outside rfl
    omega
  refine ⟨differ _ (by decide), ?_, by omega, by omega⟩
  simp [endsPrimitive, differ ':' (by decide), differ '\t' (by decide), differ '\r' (by decide),
    differ '\n' (by decide), differ ' ' (by decide), differ ',' (by decide),
    differ ']' (by decide), differ '}' (by decide)]

end Payz
