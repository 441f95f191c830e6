import Mathlib.Algebra.Group.Nat.Defs
import Payz.Json.Tree

/-! # Reading JSON data

The accessors of `common/json.c` that the plugin uses.  A `NULL` token is
`none`; an output parameter with a `bool` result is an `Option`.
-/

namespace Payz

namespace Json

/-- `json_tok_full` with `json_tok_full_len`: the text of the datum, with its
    quotes if it is a string. -/
def jsonTokFull : Json → Text
  | .primitive text => text
  | .string raw => '"' :: (raw ++ ['"'])
  | .array text _ => text
  | .object text _ => text

/-- `json_strdup`: the text between `start` and `end`, so a string loses its
    quotes but keeps its escapes. -/
def jsonStrdup : Json → Text
  | .primitive text => text
  | .string raw => raw
  | .array text _ => text
  | .object text _ => text

/-- `json_tok_is_null`: only the first character of a primitive is looked at. -/
def jsonTokIsNull : Json → Bool
  | .primitive text => text.head? == some 'n'
  | _ => false

/-- `json_get_membern` and `json_get_member`: the value of the first member
    whose key has this very text. -/
def jsonGetMember : Json → Text → Option Json
  | .object _ members, label => (members.find? (fun m => m.1 == label)).map Prod.snd
  | _, _ => none

def jsonToBool : Json → Option Bool
  | .primitive text =>
      if text = "true".toList then some true
      else if text = "false".toList then some false
      else none
  | _ => none

end Json

/-- `isspace` in the C locale. -/
def isSpace (c : Char) : Bool :=
  c == ' ' || (9 ≤ c.toNat && c.toNat ≤ 13)

/-- Value of a digit below `base`, letters counting from ten. -/
def digitValue (base : Nat) (c : Char) : Option Nat :=
  let value :=
    if c.isDigit then c.toNat - 48
    else if c.isLower then c.toNat - 87
    else if c.isUpper then c.toNat - 55
    else base
  if value < base then some value else none

/-- Longest run of digits, with the number read so far. -/
def scanDigits (base : Nat) : Nat → Text → Nat × Text
  | acc, [] => (acc, [])
  | acc, c :: rest =>
      match digitValue base c with
      | some d => scanDigits base (base * acc + d) rest
      | none => (acc, c :: rest)

/-- The optional sign of `strtoull`, which also applies to unsigned numbers. -/
def scanSign : Text → Bool × Text
  | '-' :: rest => (true, rest)
  | '+' :: rest => (false, rest)
  | text => (false, text)

/-- Base 0: `0x` before a hexadecimal digit, else a leading `0`, else decimal. -/
def scanBase : Text → Nat × Text
  | '0' :: x :: d :: rest =>
      if (x == 'x' || x == 'X') && (digitValue 16 d).isSome then (16, d :: rest)
      else (8, '0' :: x :: d :: rest)
  | '0' :: rest => (8, '0' :: rest)
  | text => (10, text)

/-- `strtoull(text, &end, 0)`: the number, `none` when it is out of range, and
    the text at `end`.  Without any digit nothing is consumed. -/
def strtoull (text : Text) : Option Nat × Text :=
  let (negative, unsigned) := scanSign (text.dropWhile isSpace)
  let (base, digits) := scanBase unsigned
  let (value, rest) := scanDigits base 0 digits
  if rest.length = digits.length then (some 0, text)
  else if 2 ^ 64 ≤ value then (none, rest)
  else (some (if negative then (2 ^ 64 - value) % 2 ^ 64 else value), rest)

namespace Json

/-- `json_to_u64`.  The token may be a number or a string.  `errno` is not reset
    before the call, which could only matter for the value `2^64 - 1`, and that
    one is refused by the narrower readers below in any case. -/
def jsonToU64 (j : Json) : Option Nat :=
  match strtoull j.jsonStrdup with
  | (some value, []) => some value
  | _ => none

/-- `json_to_u32`: the value must survive the narrowing conversion. -/
def jsonToU32 (j : Json) : Option UInt32 :=
  match j.jsonToU64 with
  | some value => if (UInt32.ofNat value).toNat = value then some (UInt32.ofNat value) else none
  | none => none

/-- `json_to_number`: `unsigned int` has 32 bits too. -/
def jsonToNumber (j : Json) : Option UInt32 := j.jsonToU32

end Json

/-- The `"%u"` conversion. -/
def formatU (n : Nat) : Text := Nat.toDigits 10 n

theorem formatU_ne_nil (n : Nat) : formatU n ≠ [] := Nat.toDigits_ne_nil

theorem isDigit_of_mem_formatU {n : Nat} {c : Char} (member : c ∈ formatU n) :
    c.isDigit = true :=
  Nat.isDigit_of_mem_toDigits (by decide) (by decide) member

theorem toNat_of_isDigit {c : Char} (digit : c.isDigit = true) :
    48 ≤ c.toNat ∧ c.toNat ≤ 57 := by
  simp only [Char.isDigit, Bool.and_eq_true, decide_eq_true_eq, ge_iff_le,
    UInt32.le_iff_toNat_le] at digit
  exact digit

theorem digitValue_ten {c : Char} (digit : c.isDigit = true) :
    digitValue 10 c = some (c.toNat - 48) := by
  have range := toNat_of_isDigit digit
  simp only [digitValue, digit, if_true]
  exact if_pos (by omega)

theorem scanDigits_ten {digits : Text} (all : ∀ c ∈ digits, c.isDigit = true) (acc : Nat) :
    scanDigits 10 acc digits = (Nat.ofDigitChars 10 digits acc, []) := by
  induction digits generalizing acc with
  | nil => rfl
  | cons c rest ih =>
      rw [List.forall_mem_cons] at all
      rw [scanDigits, digitValue_ten all.1]
      simpa [Nat.ofDigitChars_cons] using ih all.2 _

/-- A decimal number starts neither with a space nor with a sign. -/
theorem scanSign_formatU (n : Nat) :
    scanSign ((formatU n).dropWhile isSpace) = (false, formatU n) := by
  cases digits : formatU n with
  | nil => exact absurd digits (formatU_ne_nil n)
  | cons c rest =>
      have range := toNat_of_isDigit (isDigit_of_mem_formatU (n := n) (c := c) (by simp [digits]))
      have notSpace : isSpace c = false := by
        have : c ≠ ' ' := by rintro rfl; revert range; decide
        simp only [isSpace, Bool.or_eq_false_iff, beq_eq_false_iff_ne, ne_eq, this,
          not_false_eq_true, Bool.and_eq_false_iff, decide_eq_false_iff_not, true_and]
        omega
      rw [List.dropWhile_cons_of_neg (by simp [notSpace])]
      unfold scanSign
      split
      · rename_i same
        obtain ⟨rfl, -⟩ := List.cons.inj same
        exact absurd range (by decide)
      · rename_i same
        obtain ⟨rfl, -⟩ := List.cons.inj same
        exact absurd range (by decide)
      · rfl

theorem head_formatU_of_pos {n : Nat} (pos : 0 < n) {rest : Text} :
    formatU n ≠ '0' :: rest := by
  intro zero
  induction n using Nat.strongRecOn generalizing rest with
  | _ n ih =>
      by_cases small : n < 10
      · have digit : formatU n = [n.digitChar] := Nat.toDigits_of_lt_base small
        rw [digit] at zero
        have value := Nat.toNat_digitChar_sub_48_of_lt_ten small
        rw [(List.cons.inj zero).1] at value
        exact absurd value (Nat.ne_of_lt pos)
      · have split : formatU n = formatU (n / 10) ++ [(n % 10).digitChar] :=
          Nat.toDigits_of_base_le (by decide) (by omega)
        rw [split] at zero
        cases front : formatU (n / 10) with
        | nil => exact formatU_ne_nil _ front
        | cons c tail =>
            rw [front, List.cons_append] at zero
            obtain ⟨rfl, -⟩ := List.cons.inj zero
            exact ih (n / 10) (by omega) (by omega) front

theorem scanBase_formatU (n : Nat) (pos : 0 < n) : scanBase (formatU n) = (10, formatU n) := by
  unfold scanBase
  split
  · rename_i digits
    exact absurd digits (head_formatU_of_pos pos)
  · rename_i digits
    exact absurd digits (head_formatU_of_pos pos)
  · rfl

theorem strtoull_formatU {n : Nat} (bound : n < 2 ^ 64) : strtoull (formatU n) = (some n, []) := by
  rcases Nat.eq_zero_or_pos n with rfl | pos
  · decide
  · have digits : scanDigits 10 0 (formatU n) = (n, []) := by
      rw [scanDigits_ten (fun c member => isDigit_of_mem_formatU member)]
      simp [formatU, Nat.ofDigitChars_ten_toDigits]
    have nonempty : ([] : Text).length ≠ (formatU n).length := by
      have := List.length_pos_iff.mpr (formatU_ne_nil n)
      simp only [List.length_nil]
      omega
    simp only [strtoull, scanSign_formatU, scanBase_formatU n pos, digits, if_neg nonempty,
      if_neg (Nat.not_le.mpr bound), Bool.false_eq_true, if_false]

namespace Json

theorem jsonToU32_formatU (n : UInt32) : jsonToU32 (.primitive (formatU n.toNat)) = some n := by
  have bound : n.toNat < 2 ^ 64 := lt_trans n.toNat_lt (by decide)
  simp only [jsonToU32, jsonToU64, jsonStrdup, strtoull_formatU bound, UInt32.ofNat_toNat, if_true]

theorem jsonGetMember_object_cons (text : Text) (key label : Text) (value : Json)
    (members : List (Text × Json)) :
    jsonGetMember (.object text ((key, value) :: members)) label =
      if key = label then some value else jsonGetMember (.object text members) label := by
  by_cases same : key = label <;> simp [jsonGetMember, same]

end Json

end Payz
