import Mathlib.Data.List.Basic
import Mathlib.Data.Char

/-! # JSON data as the plugin sees them

The plugin handles a JSON datum as a buffer together with a pointer into an
array of `jsmntok_t`.  A `Json` is what such a pair denotes: each token with the
slice of text it delimits, and the tokens it contains.  Strings and object keys
keep their raw text, escapes included, exactly as the tokens do.

Text is a sequence of Unicode scalars.  Ill-formed UTF-8 never gets past
`validate_jsmn_datum`, so no buffer that reaches the rest of the plugin is lost.
-/

namespace Payz

/-- Contents of a C string or of a character buffer. -/
abbrev Text := List Char

/-- A JSON datum with the text of every token.  Containers keep the whole slice
    from bracket to bracket, inner whitespace included. -/
inductive Json where
  | primitive (text : Text)
  | string (raw : Text)
  | array (text : Text) (elems : List Json)
  | object (text : Text) (members : List (Text × Json))
  deriving Repr, Inhabited

namespace Json

@[elab_as_elim, induction_eliminator]
theorem rec_strong {motive : Json → Prop}
    (primitive : ∀ text, motive (.primitive text))
    (string : ∀ raw, motive (.string raw))
    (array : ∀ text elems, (∀ e ∈ elems, motive e) → motive (.array text elems))
    (object : ∀ text members, (∀ m ∈ members, motive m.2) → motive (.object text members)) :
    ∀ j, motive j
  | .primitive text => primitive text
  | .string raw => string raw
  | .array text elems =>
      array text elems fun e _ => rec_strong primitive string array object e
  | .object text members =>
      object text members fun m _ => rec_strong primitive string array object m.2
termination_by j => sizeOf j
decreasing_by
  · have := List.sizeOf_lt_of_mem ‹e ∈ elems›
    simp only [Json.array.sizeOf_spec]
    omega
  · have := List.sizeOf_lt_of_mem ‹m ∈ members›
    have : sizeOf m = 1 + sizeOf m.1 + sizeOf m.2 := by cases m; rfl
    simp only [Json.object.sizeOf_spec]
    omega

mutual
def decEq : (a b : Json) → Decidable (a = b)
  | .primitive s, .primitive t => decidable_of_iff (s = t) (by simp)
  | .string s, .string t => decidable_of_iff (s = t) (by simp)
  | .array s as, .array t bs =>
      match decEqElems as bs with
      | isTrue same => decidable_of_iff (s = t) (by simp [same])
      | isFalse differ => isFalse (by simp [differ])
  | .object s as, .object t bs =>
      match decEqMembers as bs with
      | isTrue same => decidable_of_iff (s = t) (by simp [same])
      | isFalse differ => isFalse (by simp [differ])
  | .primitive _, .string _ | .primitive _, .array _ _ | .primitive _, .object _ _
  | .string _, .primitive _ | .string _, .array _ _ | .string _, .object _ _
  | .array _ _, .primitive _ | .array _ _, .string _ | .array _ _, .object _ _
  | .object _ _, .primitive _ | .object _ _, .string _ | .object _ _, .array _ _ =>
      isFalse (by simp)

def decEqElems : (as bs : List Json) → Decidable (as = bs)
  | [], [] => isTrue rfl
  | a :: as, b :: bs =>
      match decEq a b, decEqElems as bs with
      | isTrue head, isTrue tail => isTrue (by rw [head, tail])
      | isFalse differ, _ => isFalse (by simp [differ])
      | _, isFalse differ => isFalse (by simp [differ])
  | [], _ :: _ | _ :: _, [] => isFalse (by simp)

def decEqMembers : (as bs : List (Text × Json)) → Decidable (as = bs)
  | [], [] => isTrue rfl
  | (k, a) :: as, (l, b) :: bs =>
      match decEq a b, decEqMembers as bs with
      | isTrue head, isTrue tail => decidable_of_iff (k = l) (by simp [head, tail])
      | isFalse differ, _ => isFalse (by simp [differ])
      | _, isFalse differ => isFalse (by simp [differ])
  | [], _ :: _ | _ :: _, [] => isFalse (by simp)
end

instance : DecidableEq Json := decEq

end Json

end Payz
