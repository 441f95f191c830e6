import Payz.Json.Nests

/-! # The values in an array of tokens

Which tokens stand for data of their own: the root, the elements of arrays and the values of
members, each of them found with `json_next` as the plugin does.  Each can be read like the
root, and what is read from it are the tokens of one tree.
-/

namespace Payz

open Arity

/-! ## The tokens of one datum -/

theorem datumRead_cons {fuel : Nat} {buffer : Text} {t : JsmnTok} {more rest : List JsmnTok}
    {j : Json} (read : validateJsmnDatum fuel buffer (t :: more) = some (j, rest)) :
    ∃ fuel, DatumRead fuel buffer t more j rest := by
  cases fuel with
  | zero => cases read
  | succ fuel =>
      obtain ⟨t', more', same, datum⟩ := validateJsmnDatum_read read
      cases same
      exact ⟨fuel, datum⟩

/-- Reading an item takes the tokens of one tree. -/
def Spans {α : Type} (read : List JsmnTok → Option (α × List JsmnTok)) : Prop :=
  ∀ ⦃toks a rest⦄, read toks = some (a, rest) →
    ∃ sub, toks = sub ++ rest ∧ due 1 (sizes sub) = some 0

theorem Spans.many {α : Type} {read : List JsmnTok → Option (α × List JsmnTok)}
    (spans : Spans read) {k : Nat} {toks : List JsmnTok} {items : List α} {rest : List JsmnTok}
    (all : readMany read k toks = some (items, rest)) :
    ∃ sub, toks = sub ++ rest ∧ due k (sizes sub) = some 0 := by
  induction k generalizing toks items with
  | zero =>
      cases all
      exact ⟨[], rfl, rfl⟩
  | succ k ih =>
      obtain ⟨item, toks', items', first, -, tail⟩ := readMany_succ all
      obtain ⟨front, rfl, one⟩ := spans first
      obtain ⟨back, rfl, many⟩ := ih tail
      refine ⟨front ++ back, (List.append_assoc _ _ _).symm, ?_⟩
      rw [sizes_append, due_append, Nat.add_comm, due_add k one, Option.bind_some, Nat.zero_add,
        many]

theorem Spans.keyvalue {read : List JsmnTok → Option (Json × List JsmnTok)} (spans : Spans read)
    (buffer : Text) : Spans (validateJsmnKeyvalue read buffer) := by
  rintro toks ⟨key, value⟩ rest valid
  obtain ⟨t, toks', rfl, -, single, -, first⟩ := validateJsmnKeyvalue_read valid
  obtain ⟨sub, rfl, one⟩ := spans first
  refine ⟨t :: sub, rfl, ?_⟩
  rw [sizes, List.map_cons, single]
  exact one

theorem spans_validateJsmnDatum (fuel : Nat) (buffer : Text) :
    Spans (validateJsmnDatum fuel buffer) := by
  induction fuel with
  | zero =>
      intro toks a rest valid
      cases valid
  | succ fuel ih =>
      intro toks a rest valid
      obtain ⟨t, toks', rfl, datum⟩ := validateJsmnDatum_read valid
      cases datum with
      | string _ leaf | primitive _ leaf =>
          refine ⟨[t], rfl, ?_⟩
          rw [sizes, List.map_singleton, leaf]
          rfl
      | array _ all =>
          obtain ⟨sub, rfl, many⟩ := Spans.many ih all
          exact ⟨t :: sub, rfl, many⟩
      | object _ all =>
          obtain ⟨sub, rfl, many⟩ := Spans.many (ih.keyvalue buffer) all
          exact ⟨t :: sub, rfl, many⟩

theorem skipData_due {m d : Nat} {sub : List JsmnTok} (read : due m (sizes sub) = some d)
    (rest : List JsmnTok) : skipData m (sub ++ rest) = skipData d rest := by
  induction sub generalizing m with
  | nil =>
      cases read
      rfl
  | cons t sub ih =>
      cases m with
      | zero => cases read
      | succ m =>
          rw [List.cons_append, skipData]
          exact ih read

theorem Spans.skip {α : Type} {read : List JsmnTok → Option (α × List JsmnTok)}
    (spans : Spans read) {toks : List JsmnTok} {a : α} {rest : List JsmnTok}
    (first : read toks = some (a, rest)) (k : Nat) :
    skipData (k + 1) toks = skipData k rest := by
  obtain ⟨sub, rfl, one⟩ := spans first
  have more := due_add k one
  rw [Nat.add_comm 1, Nat.zero_add] at more
  exact skipData_due more rest

theorem skipData_zero (toks : List JsmnTok) : skipData 0 toks = toks := by
  rw [skipData]

theorem skipData_suffix (n : Nat) (toks : List JsmnTok) : skipData n toks <:+ toks := by
  fun_induction skipData n toks with
  | case1 | case2 => exact List.suffix_rfl
  | case3 n t toks ih => exact ih.trans (List.suffix_cons t toks)

theorem not_cons_suffix {α : Type} {a : α} {front back : List α} (before : front <:+ back) :
    ¬ a :: back <:+ front := by
  intro inside
  have longer := le_trans inside.length_le before.length_le
  rw [List.length_cons] at longer
  omega

theorem Spans.item {α : Type} {read : List JsmnTok → Option (α × List JsmnTok)}
    (spans : Spans read) {n k : Nat} {toks : List JsmnTok} {items : List α} {rest : List JsmnTok}
    (all : readMany read n toks = some (items, rest)) (less : k < n) :
    ∃ a rest', read (skipData k toks) = some (a, rest') := by
  induction n generalizing toks items k with
  | zero => cases less
  | succ n ih =>
      obtain ⟨item, toks', items', first, -, tail⟩ := readMany_succ all
      cases k with
      | zero => exact ⟨item, toks', by rwa [skipData_zero]⟩
      | succ k =>
          rw [spans.skip first]
          exact ih tail (Nat.lt_of_succ_lt_succ less)

/-- A token that was read with some items was read with one of them. -/
theorem Spans.within {α : Type} {read : List JsmnTok → Option (α × List JsmnTok)}
    (spans : Spans read) {n : Nat} {toks : List JsmnTok} {items : List α} {rest : List JsmnTok}
    (all : readMany read n toks = some (items, rest)) {c : JsmnTok} {back : List JsmnTok}
    (inside : c :: back <:+ toks) (before : rest <:+ back) :
    ∃ k a rest', k < n ∧ read (skipData k toks) = some (a, rest') ∧
      c :: back <:+ skipData k toks ∧ rest' <:+ back := by
  induction n generalizing toks items with
  | zero =>
      cases all
      exact absurd inside (not_cons_suffix before)
  | succ n ih =>
      obtain ⟨item, toks', items', first, -, tail⟩ := readMany_succ all
      obtain ⟨sub, split, -⟩ := spans first
      have later : toks' <:+ toks := ⟨sub, split.symm⟩
      have beyond : c :: back <:+ toks' → ∃ k a rest', k < n + 1 ∧
          read (skipData k toks) = some (a, rest') ∧
          c :: back <:+ skipData k toks ∧ rest' <:+ back := by
        intro here
        obtain ⟨k, a, rest', less, found⟩ := ih tail here
        rw [← spans.skip first] at found
        exact ⟨k + 1, a, rest', Nat.succ_lt_succ less, found⟩
      rcases List.suffix_or_suffix_of_suffix inside later with further | ended
      · exact beyond further
      · rcases List.suffix_cons_iff.mp ended with same | ended
        · exact beyond (same ▸ List.suffix_rfl)
        · refine ⟨0, item, toks', Nat.succ_pos n, ?_, ?_, ended⟩
          · rwa [skipData_zero]
          · rwa [skipData_zero]

/-! ## Pointers to values -/

/-- A pointer to a value in the tokens of a datum: to its root, to an element of an array or
    to the value of a member. -/
inductive ValueAt (toks : List JsmnTok) : List JsmnTok → Prop where
  | root : ValueAt toks toks
  | elem {t more k} : ValueAt toks (t :: more) → t.type = .array → k < t.size →
      ValueAt toks (skipData k more)
  | member {t more k key value} : ValueAt toks (t :: more) → t.type = .object → k < t.size →
      skipData k more = key :: value → ValueAt toks value

theorem ValueAt.suffix {toks here : List JsmnTok} (value : ValueAt toks here) : here <:+ toks := by
  induction value with
  | root => exact List.suffix_rfl
  | elem _ _ _ ih => exact ((skipData_suffix _ _).trans (List.suffix_cons _ _)).trans ih
  | @member t more k key value _ _ _ found ih =>
      have later : key :: value <:+ more := found ▸ skipData_suffix k more
      exact ((List.suffix_cons key value).trans (later.trans (List.suffix_cons t more))).trans ih

theorem ValueAt.read {input : Text} {toks rest : List JsmnTok} {fuel : Nat} {root : Json}
    (valid : validateJsmnDatum fuel input toks = some (root, rest)) {here : List JsmnTok}
    (value : ValueAt toks here) :
    ∃ fuel j rest, validateJsmnDatum fuel input here = some (j, rest) := by
  induction value with
  | root => exact ⟨fuel, root, rest, valid⟩
  | elem _ type less ih =>
      obtain ⟨_, j, rest, read⟩ := ih
      obtain ⟨fuel, datum⟩ := datumRead_cons read
      cases datum with
      | string other | primitive other | object other => cases type.symm.trans other
      | array _ all =>
          obtain ⟨e, rest', item⟩ := (spans_validateJsmnDatum fuel input).item all less
          exact ⟨fuel, e, rest', item⟩
  | member _ type less found ih =>
      obtain ⟨_, j, rest, read⟩ := ih
      obtain ⟨fuel, datum⟩ := datumRead_cons read
      cases datum with
      | string other | primitive other | array other => cases type.symm.trans other
      | object _ all =>
          obtain ⟨⟨key, m⟩, rest', item⟩ :=
            ((spans_validateJsmnDatum fuel input).keyvalue input).item all less
          rw [found] at item
          obtain ⟨t', value, same, -, -, -, first⟩ := validateJsmnKeyvalue_read item
          cases same
          exact ⟨fuel, m, rest', first⟩

theorem ValueAt.container {toks : List JsmnTok} {input : Text} {fuel : Nat} {here rest : List JsmnTok}
    {j : Json} (value : ValueAt toks here)
    (valid : validateJsmnDatum fuel input here = some (j, rest)) {c : JsmnTok}
    {back : List JsmnTok} (inside : c :: back <:+ here) (before : rest <:+ back)
    (container : c.isContainer = true) : ValueAt toks (c :: back) := by
  induction fuel generalizing here rest j with
  | zero => cases valid
  | succ fuel ih =>
      obtain ⟨t, more, rfl, datum⟩ := validateJsmnDatum_read valid
      rcases List.suffix_cons_iff.mp inside with same | inside
      · rwa [same]
      · have spans := spans_validateJsmnDatum fuel input
        cases datum with
        | string | primitive => exact absurd inside (not_cons_suffix before)
        | array type all =>
            obtain ⟨k, e, rest', less, item, there, before'⟩ := spans.within all inside before
            exact ih (value.elem type less) item there before'
        | object type all =>
            obtain ⟨k, ⟨key, m⟩, rest', less, item, there, before'⟩ :=
              (spans.keyvalue input).within all inside before
            obtain ⟨t', toks', found, string, -, -, first⟩ := validateJsmnKeyvalue_read item
            rw [found] at there
            rcases List.suffix_cons_iff.mp there with same | there
            · cases same
              rw [JsmnTok.isContainer, string] at container
              cases container
            · exact ih (value.member type less found) first there before'

end Payz
