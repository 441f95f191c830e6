import Payz.Ecs.Ec
import Payz.Json.Equal
import Payz.Json.Turns

/-! # Comparing JSON data token by token

`json_equal` of `plugins/payz/json_equal.c` as it runs: over two arrays of tokens, which it
walks with `json_next` and pointer steps.  A pointer to a token is the list of the tokens
from there to the end of the datum; following a pointer to where there is none is a fault.
-/

namespace Payz

/-- Steps over this many data with `json_next`. -/
def skipTokens : Nat → List JsmnTok → Except Fault (List JsmnTok)
  | 0, toks => .ok toks
  | _ + 1, [] => .error .outOfBounds
  | n + 1, t :: toks => skipTokens (t.size + n) toks

/-- The loop of `json_get_membern`. -/
def findMember (buffer label : Text) : Nat → List JsmnTok → Except Fault (Option (List JsmnTok))
  | 0, _ => .ok none
  | _ + 1, [] => .error .outOfBounds
  | n + 1, t :: toks =>
      if t.type = .string ∧ tokText buffer t = label then .ok (some toks)
      else (skipTokens 1 toks).bind (findMember buffer label n)

def jsonGetMembern (buffer : Text) (tok : List JsmnTok) (label : Text) :
    Except Fault (Option (List JsmnTok)) :=
  match tok with
  | [] => .error .outOfBounds
  | t :: toks => if t.type = .object then findMember buffer label t.size toks else .ok none

/-- `strncmp` finds no difference between two texts of one length.  It looks no further
    than a NUL. -/
def strncmpEqual : Text → Text → Bool
  | c :: cs, d :: ds => c == d && (c == '\x00' || strncmpEqual cs ds)
  | _, _ => true

/-- The loop over two arrays, given the comparison of two elements. -/
def equalElems (equal : List JsmnTok → List JsmnTok → Except Fault Bool) :
    Nat → List JsmnTok → List JsmnTok → Except Fault Bool
  | 0, _, _ => .ok true
  | n + 1, tok1, tok2 =>
      (equal tok1 tok2).bind fun same =>
        if same then
          (skipTokens 1 tok1).bind fun tok1 => (skipTokens 1 tok2).bind fun tok2 =>
            equalElems equal n tok1 tok2
        else .ok false

/-- The loop over the members of the first object, given the comparison of two values. -/
def equalMembers (equal : List JsmnTok → List JsmnTok → Except Fault Bool)
    (buffer1 buffer2 : Text) (tok2 : List JsmnTok) : Nat → List JsmnTok → Except Fault Bool
  | 0, _ => .ok true
  | _ + 1, [] => .error .outOfBounds
  | n + 1, key1 :: value1 =>
      (jsonGetMembern buffer2 tok2 (tokText buffer1 key1)).bind fun value2 =>
        match value2 with
        | none => .ok false
        | some value2 =>
            (equal value1 value2).bind fun same =>
              if same then
                (skipTokens 1 value1).bind (equalMembers equal buffer1 buffer2 tok2 n)
              else .ok false

/-- `json_equal`, nested this deep at most.  Every nested call stands at least one token
    further, so without fuel there is no token left either. -/
def jsonEqualTok : Nat → Text → List JsmnTok → Text → List JsmnTok → Except Fault Bool
  | 0, _, _, _, _ => .error .outOfBounds
  | fuel + 1, buffer1, t1 :: toks1, buffer2, t2 :: toks2 =>
      if t1.type = t2.type then
        match t1.type with
        | .primitive | .string =>
            if (tokText buffer1 t1).length = (tokText buffer2 t2).length then
              .ok (strncmpEqual (tokText buffer1 t1) (tokText buffer2 t2))
            else .ok false
        | .array =>
            if t1.size = t2.size then
              equalElems (fun tok1 tok2 => jsonEqualTok fuel buffer1 tok1 buffer2 tok2) t1.size
                toks1 toks2
            else .ok false
        | .object =>
            if t1.size = t2.size then
              equalMembers (fun tok1 tok2 => jsonEqualTok fuel buffer1 tok1 buffer2 tok2) buffer1
                buffer2 (t2 :: toks2) t1.size toks1
            else .ok false
        -- The two calls of `abort`.
        | .undefined => .error .assertion
      else .ok false
  | _ + 1, _, _, _, _ => .error .outOfBounds

/-- `json_equal`. -/
def jsonEqualToks (buffer1 : Text) (tok1 : List JsmnTok) (buffer2 : Text)
    (tok2 : List JsmnTok) : Except Fault Bool :=
  jsonEqualTok tok1.length buffer1 tok1 buffer2 tok2

theorem strncmpEqual_eq {s t : Text} (sameLength : s.length = t.length) (nul : '\x00' ∉ s) :
    strncmpEqual s t = (s == t) := by
  induction s generalizing t with
  | nil =>
      cases t with
      | nil => rfl
      | cons d ds => cases sameLength
  | cons c cs ih =>
      cases t with
      | nil => cases sameLength
      | cons d ds =>
          rw [List.mem_cons, not_or] at nul
          have here : (c == '\x00') = false := by simpa using Ne.symm nul.1
          rw [strncmpEqual, here, Bool.false_or, ih (by simpa using sameLength) nul.2]
          rfl

/-! ## What the readers of the validation leave behind -/

/-- What it takes to read this datum off these tokens. -/
inductive DatumRead (fuel : Nat) (buffer : Text) (t : JsmnTok) (toks : List JsmnTok) :
    Json → List JsmnTok → Prop where
  | string : t.type = .string → t.size = 0 →
      DatumRead fuel buffer t toks (.string (tokText buffer t)) toks
  | primitive : t.type = .primitive → t.size = 0 →
      DatumRead fuel buffer t toks (.primitive (tokText buffer t)) toks
  | array {elems rest} : t.type = .array →
      readMany (validateJsmnDatum fuel buffer) t.size toks = some (elems, rest) →
      DatumRead fuel buffer t toks (.array (tokText buffer t) elems) rest
  | object {members rest} : t.type = .object →
      readMany (validateJsmnKeyvalue (validateJsmnDatum fuel buffer) buffer) t.size toks =
        some (members, rest) →
      DatumRead fuel buffer t toks (.object (tokText buffer t) members) rest

theorem validateJsmnDatum_read {fuel : Nat} {buffer : Text} {toks : List JsmnTok} {j : Json}
    {rest : List JsmnTok} (valid : validateJsmnDatum (fuel + 1) buffer toks = some (j, rest)) :
    ∃ t toks', toks = t :: toks' ∧ DatumRead fuel buffer t toks' j rest := by
  cases toks with
  | nil => cases valid
  | cons t toks =>
      refine ⟨t, toks, rfl, ?_⟩
      rw [validateJsmnDatum] at valid
      split at valid
      · cases valid
      · next type =>
          split_ifs at valid with leaf
          cases valid
          exact .string type leaf
      · next type =>
          split_ifs at valid with leaf
          cases valid
          exact .primitive type leaf
      · next type =>
          obtain ⟨⟨elems, rest'⟩, all, same⟩ := Option.map_eq_some_iff.mp valid
          cases same
          exact .array type all
      · next type =>
          obtain ⟨⟨members, rest'⟩, all, same⟩ := Option.map_eq_some_iff.mp valid
          cases same
          exact .object type all

theorem validateJsmnKeyvalue_read {read : List JsmnTok → Option (Json × List JsmnTok)}
    {buffer : Text} {toks : List JsmnTok} {key : Text} {value : Json} {rest : List JsmnTok}
    (valid : validateJsmnKeyvalue read buffer toks = some ((key, value), rest)) :
    ∃ t toks', toks = t :: toks' ∧ t.type = .string ∧ t.size = 1 ∧ tokText buffer t = key ∧
      read toks' = some (value, rest) := by
  cases toks with
  | nil => cases valid
  | cons t toks =>
      rw [validateJsmnKeyvalue] at valid
      split_ifs at valid with named
      obtain ⟨⟨value', rest'⟩, first, same⟩ := Option.map_eq_some_iff.mp valid
      cases same
      exact ⟨t, toks, rfl, named.1, named.2, rfl, first⟩

theorem readMany_succ {α : Type} {read : List JsmnTok → Option (α × List JsmnTok)} {k : Nat}
    {toks : List JsmnTok} {items : List α} {rest : List JsmnTok}
    (all : readMany read (k + 1) toks = some (items, rest)) :
    ∃ item toks' items', read toks = some (item, toks') ∧ items = item :: items' ∧
      readMany read k toks' = some (items', rest) := by
  rw [readMany] at all
  split at all
  · cases all
  · next item toks' first =>
      obtain ⟨⟨items', rest'⟩, tail, same⟩ := Option.map_eq_some_iff.mp all
      cases same
      exact ⟨item, toks', items', first, rfl, tail⟩

theorem readMany_length {α : Type} {read : List JsmnTok → Option (α × List JsmnTok)} {k : Nat}
    {toks : List JsmnTok} {items : List α} {rest : List JsmnTok}
    (all : readMany read k toks = some (items, rest)) : items.length = k := by
  induction k generalizing toks items with
  | zero =>
      cases all
      rfl
  | succ k ih =>
      obtain ⟨item, toks', items', -, rfl, tail⟩ := readMany_succ all
      rw [List.length_cons, ih tail]

/-- Reading an item steps over one datum. -/
def Skips {α : Type} (read : List JsmnTok → Option (α × List JsmnTok)) : Prop :=
  ∀ ⦃toks a rest⦄, read toks = some (a, rest) →
    rest <:+ toks ∧ ∀ n, skipTokens (n + 1) toks = skipTokens n rest

theorem Skips.many {α : Type} {read : List JsmnTok → Option (α × List JsmnTok)}
    (skips : Skips read) {k : Nat} {toks : List JsmnTok} {items : List α} {rest : List JsmnTok}
    (all : readMany read k toks = some (items, rest)) :
    rest <:+ toks ∧ ∀ n, skipTokens (k + n) toks = skipTokens n rest := by
  induction k generalizing toks items with
  | zero =>
      cases all
      exact ⟨List.suffix_rfl, fun n => by rw [Nat.zero_add]⟩
  | succ k ih =>
      obtain ⟨item, toks', items', first, -, tail⟩ := readMany_succ all
      obtain ⟨suffix, stepped⟩ := skips first
      obtain ⟨suffixTail, steppedTail⟩ := ih tail
      refine ⟨suffixTail.trans suffix, fun n => ?_⟩
      rw [show k + 1 + n = k + n + 1 by omega, stepped, steppedTail]

theorem Skips.keyvalue {read : List JsmnTok → Option (Json × List JsmnTok)} (skips : Skips read)
    (buffer : Text) : Skips (validateJsmnKeyvalue read buffer) := by
  rintro toks ⟨key, value⟩ rest valid
  obtain ⟨t, toks', rfl, -, single, -, first⟩ := validateJsmnKeyvalue_read valid
  obtain ⟨suffix, stepped⟩ := skips first
  refine ⟨suffix.trans (List.suffix_cons _ _), fun n => ?_⟩
  rw [skipTokens, single, Nat.add_comm, stepped]

theorem skips_validateJsmnDatum (fuel : Nat) (buffer : Text) :
    Skips (validateJsmnDatum fuel buffer) := by
  induction fuel with
  | zero =>
      intro toks a rest valid
      cases valid
  | succ fuel ih =>
      intro toks a rest valid
      obtain ⟨t, toks', rfl, datum⟩ := validateJsmnDatum_read valid
      cases datum with
      | string _ leaf | primitive _ leaf =>
          exact ⟨List.suffix_cons _ _, fun n => by rw [skipTokens, leaf, Nat.zero_add]⟩
      | array _ all =>
          obtain ⟨suffix, stepped⟩ := Skips.many ih all
          exact ⟨suffix.trans (List.suffix_cons _ _), stepped⟩
      | object _ all =>
          obtain ⟨suffix, stepped⟩ := Skips.many (ih.keyvalue buffer) all
          exact ⟨suffix.trans (List.suffix_cons _ _), stepped⟩

theorem Skips.next {α : Type} {read : List JsmnTok → Option (α × List JsmnTok)}
    (skips : Skips read) {toks : List JsmnTok} {a : α} {rest : List JsmnTok}
    (first : read toks = some (a, rest)) : skipTokens 1 toks = .ok rest := by
  rw [(skips first).2 0, skipTokens]

/-! ## The walk over two data -/

/-- The member found in the tokens is the one found in the datum. -/
theorem findMember_read {read : List JsmnTok → Option (Json × List JsmnTok)} (skips : Skips read)
    {buffer : Text} {k : Nat} {toks : List JsmnTok} {members : List (Text × Json)}
    {rest : List JsmnTok}
    (all : readMany (validateJsmnKeyvalue read buffer) k toks = some (members, rest))
    (label text : Text) :
    match (Json.object text members).jsonGetMember label with
    | none => findMember buffer label k toks = .ok none
    | some value => ∃ toks' rest', findMember buffer label k toks = .ok (some toks') ∧
        read toks' = some (value, rest') := by
  induction k generalizing toks members with
  | zero =>
      cases all
      rfl
  | succ k ih =>
      obtain ⟨⟨key, value⟩, toks', members', first, rfl, tail⟩ := readMany_succ all
      obtain ⟨t, toks'', rfl, string, single, rfl, datum⟩ := validateJsmnKeyvalue_read first
      rw [Json.jsonGetMember_object_cons]
      by_cases here : tokText buffer t = label
      · rw [if_pos here]
        refine ⟨toks'', toks', ?_, datum⟩
        rw [findMember, if_pos ⟨string, here⟩]
      · rw [if_neg here]
        have step : findMember buffer label (k + 1) (t :: toks'') =
            findMember buffer label k toks' := by
          rw [findMember, if_neg (fun both => here both.2), skips.next datum]
          rfl
        rw [step]
        exact ih tail

/-- Two readers, the first on tokens without a NUL, whose data are compared in this way. -/
def Compares (read1 read2 : List JsmnTok → Option (Json × List JsmnTok)) (buffer1 : Text)
    (equal : List JsmnTok → List JsmnTok → Except Fault Bool) : Prop :=
  ∀ ⦃toks1 j1 rest1 toks2 j2 rest2⦄, read1 toks1 = some (j1, rest1) →
    read2 toks2 = some (j2, rest2) → (∀ t ∈ toks1, '\x00' ∉ tokText buffer1 t) →
    equal toks1 toks2 = .ok (Json.jsonEqual j1 j2)

section

variable {read1 read2 : List JsmnTok → Option (Json × List JsmnTok)} {buffer1 buffer2 : Text}
  {equal : List JsmnTok → List JsmnTok → Except Fault Bool}

theorem Compares.elems (compares : Compares read1 read2 buffer1 equal) (skips1 : Skips read1)
    (skips2 : Skips read2) {k : Nat} {toks1 toks2 rest1 rest2 : List JsmnTok}
    {elems1 elems2 : List Json} (all1 : readMany read1 k toks1 = some (elems1, rest1))
    (all2 : readMany read2 k toks2 = some (elems2, rest2))
    (nul : ∀ t ∈ toks1, '\x00' ∉ tokText buffer1 t) :
    equalElems equal k toks1 toks2 = .ok (Json.jsonEqualElems elems1 elems2) := by
  induction k generalizing toks1 toks2 elems1 elems2 with
  | zero =>
      cases all1
      cases all2
      rfl
  | succ k ih =>
      obtain ⟨e1, toks1', elems1', first1, rfl, tail1⟩ := readMany_succ all1
      obtain ⟨e2, toks2', elems2', first2, rfl, tail2⟩ := readMany_succ all2
      have later := ih tail1 tail2 fun t member => nul t ((skips1 first1).1.mem member)
      rw [equalElems, compares first1 first2 nul, skips1.next first1, skips2.next first2,
        Json.jsonEqualElems]
      cases Json.jsonEqual e1 e2 with
      | false => rfl
      | true => exact later

theorem Compares.members (compares : Compares read1 read2 buffer1 equal) (skips1 : Skips read1)
    (skips2 : Skips read2) {t2 : JsmnTok} (object2 : t2.type = .object)
    {toks2 rest2 : List JsmnTok} {members2 : List (Text × Json)} (text2 : Text)
    (all2 : readMany (validateJsmnKeyvalue read2 buffer2) t2.size toks2 = some (members2, rest2))
    {k : Nat} {toks1 rest1 : List JsmnTok} {members1 : List (Text × Json)}
    (all1 : readMany (validateJsmnKeyvalue read1 buffer1) k toks1 = some (members1, rest1))
    (nul : ∀ t ∈ toks1, '\x00' ∉ tokText buffer1 t) :
    equalMembers equal buffer1 buffer2 (t2 :: toks2) k toks1 =
      .ok (Json.jsonEqualMembers members1 (.object text2 members2)) := by
  induction k generalizing toks1 members1 with
  | zero =>
      cases all1
      rfl
  | succ k ih =>
      obtain ⟨⟨key, value1⟩, toks1', members1', first1, rfl, tail1⟩ := readMany_succ all1
      obtain ⟨t1, value, rfl, -, -, rfl, datum1⟩ := validateJsmnKeyvalue_read first1
      have inner : ∀ t ∈ value, '\x00' ∉ tokText buffer1 t := fun t member =>
        nul t (List.mem_cons_of_mem _ member)
      have later := ih tail1 fun t member => inner t ((skips1 datum1).1.mem member)
      have found := findMember_read skips2 all2 (tokText buffer1 t1) text2
      rw [equalMembers, jsonGetMembern, if_pos object2, Json.jsonEqualMembers]
      cases hit : (Json.object text2 members2).jsonGetMember (tokText buffer1 t1) with
      | none =>
          simp only [hit] at found
          simp only [found]
          rfl
      | some value2 =>
          simp only [hit] at found
          obtain ⟨toks', rest', there, datum2⟩ := found
          simp only [there, Except.bind]
          rw [compares datum1 datum2 inner, skips1.next datum1]
          cases Json.jsonEqual value1 value2 with
          | false => rfl
          | true => exact later

end

def Json.tokType : Json → JsmnType
  | .primitive _ => .primitive
  | .string _ => .string
  | .array _ _ => .array
  | .object _ _ => .object

theorem DatumRead.type {fuel : Nat} {buffer : Text} {t : JsmnTok} {toks rest : List JsmnTok}
    {j : Json} (datum : DatumRead fuel buffer t toks j rest) : t.type = j.tokType := by
  cases datum with
  | string type | primitive type | array type | object type => exact type

theorem Json.jsonEqual_of_tokType_ne {i j : Json} (differ : i.tokType ≠ j.tokType) :
    Json.jsonEqual i j = false := by
  cases i <;> cases j <;> first | rfl | exact absurd rfl differ

theorem leaf_equal {s : Text} (t : Text) (nul : '\x00' ∉ s) :
    (if s.length = t.length then .ok (strncmpEqual s t) else .ok false) =
      (.ok (s == t) : Except Fault Bool) := by
  split_ifs with sameLength
  · rw [strncmpEqual_eq sameLength nul]
  · have differ : s ≠ t := fun same => sameLength (congrArg List.length same)
    simp [differ]

theorem compares_jsonEqualTok {buffer1 : Text} (buffer2 : Text) (fuel1 fuel2 fuel : Nat)
    (enough : fuel1 ≤ fuel) :
    Compares (validateJsmnDatum fuel1 buffer1) (validateJsmnDatum fuel2 buffer2) buffer1
      (fun tok1 tok2 => jsonEqualTok fuel buffer1 tok1 buffer2 tok2) := by
  induction fuel1 generalizing fuel2 fuel with
  | zero =>
      intro toks1 j1 rest1 toks2 j2 rest2 valid1
      cases valid1
  | succ fuel1 ih =>
      intro toks1 j1 rest1 toks2 j2 rest2 valid1 valid2 nul
      obtain ⟨fuel, rfl⟩ := Nat.exists_eq_add_of_lt enough
      cases fuel2 with
      | zero => cases valid2
      | succ fuel2 =>
          have deeper := ih fuel2 (fuel1 + fuel) (Nat.le_add_right _ _)
          have skips1 := skips_validateJsmnDatum fuel1 buffer1
          have skips2 := skips_validateJsmnDatum fuel2 buffer2
          obtain ⟨t1, toks1', rfl, datum1⟩ := validateJsmnDatum_read valid1
          obtain ⟨t2, toks2', rfl, datum2⟩ := validateJsmnDatum_read valid2
          rw [List.forall_mem_cons] at nul
          dsimp only
          rw [jsonEqualTok, datum1.type, datum2.type]
          by_cases sameType : j1.tokType = j2.tokType
          · rw [if_pos sameType]
            cases datum1 with
            | string =>
                cases datum2 with
                | string => exact leaf_equal _ nul.1
                | _ => cases sameType
            | primitive =>
                cases datum2 with
                | primitive => exact leaf_equal _ nul.1
                | _ => cases sameType
            | array _ all1 =>
                cases datum2 with
                | array _ all2 =>
                    simp only [Json.tokType, Json.jsonEqual, readMany_length all1,
                      readMany_length all2]
                    by_cases sameSize : t1.size = t2.size
                    · rw [← sameSize] at all2
                      simp [sameSize, ← deeper.elems skips1 skips2 all1 all2 nul.2]
                    · simp [sameSize]
                | _ => cases sameType
            | object _ all1 =>
                cases datum2 with
                | object type2 all2 =>
                    simp only [Json.tokType, Json.jsonEqual, readMany_length all1,
                      readMany_length all2]
                    by_cases sameSize : t1.size = t2.size
                    · simp [sameSize, ← deeper.members skips1 skips2 type2 (tokText buffer2 t2) all2
                        all1 nul.2]
                    · simp [sameSize]
                | _ => cases sameType
          · rw [if_neg sameType, Json.jsonEqual_of_tokType_ne sameType]

/-! ## Tokens that `json_parse_input` accepts -/

/-- A parser in front of an input: fresh, or resumed after the part of the input before the
    last bytes had arrived. -/
inductive Resumes : JsmnParser → Text → Prop where
  | init (input : Text) : Resumes jsmnInit input
  | more {p p' : JsmnParser} {input : Text} (arrived : Text) : Resumes p input →
      jsonParseInput p input = .incomplete p' → Resumes p' (input ++ arrived)

/-- `json_parse_input` accepts these tokens for this datum. -/
def Accepted (input : Text) (j : Json) (toks : List JsmnTok) : Prop :=
  ∃ p, Resumes p input ∧ jsonParseInput p input = .complete j toks

theorem JsmnParser.Reading.append {js : Text} {p : JsmnParser} (reading : p.Reading js)
    (more : Text) : p.Reading (js ++ more) := by
  refine ⟨?_, ?_, reading.tokens⟩
  · rw [List.length_append]
    exact le_trans reading.bound (Nat.le_add_right _ _)
  · rw [List.take_append_of_le_length reading.bound]
    exact reading.nul

theorem jsonParseInput_incomplete {p p' : JsmnParser} {input : Text}
    (parsed : jsonParseInput p input = .incomplete p') : p' = (jsmnParse p input).1 := by
  unfold jsonParseInput at parsed
  split at parsed
  · cases parsed
  · next q e notInval run =>
      rw [run]
      split at parsed
      · cases parsed
        rfl
      · split_ifs at parsed
        · cases parsed
          rfl
        · dsimp only at parsed
          split at parsed <;> cases parsed

theorem jsonParseInput_complete {p : JsmnParser} {input : Text} {j : Json} {toks : List JsmnTok}
    (parsed : jsonParseInput p input = .complete j toks) :
    (∃ n, toks = (jsmnParse p input).1.tokens.take n) ∧
      validateJsmnDatum toks.length input toks = some (j, []) := by
  unfold jsonParseInput at parsed
  split at parsed
  · cases parsed
  · next q e notInval run =>
      rw [run]
      split at parsed
      · cases parsed
      · next root rest tokens =>
          split_ifs at parsed with opened
          dsimp only at parsed
          split at parsed
          · next valid =>
              cases parsed
              exact ⟨⟨_, by rw [tokens]⟩, valid⟩
          · cases parsed

theorem Resumes.reading {p : JsmnParser} {input : Text} (resumes : Resumes p input) :
    p.Reading input := by
  induction resumes with
  | init input => exact reading_jsmnInit input
  | more arrived _ parsed ih =>
      rw [jsonParseInput_incomplete parsed]
      exact ih.jsmnParse.append arrived

theorem JsmnParser.Reading.tokText {js : Text} {p : JsmnParser} (reading : p.Reading js)
    {t : JsmnTok} (ranged : t.Ranged p.pos) : '\x00' ∉ tokText js t := by
  intro member
  unfold Payz.tokText at member
  cases ends : t.stop with
  | none => simp [ends] at member
  | some stop =>
      have bound := (ranged.stop stop ends).2
      rw [ends, Option.getD_some, ← List.drop_take] at member
      exact reading.nul (List.take_subset_take_left _ bound (List.mem_of_mem_drop member))

/-- What is accepted has been validated, and its tokens hold no NUL. -/
theorem Accepted.valid {input : Text} {j : Json} {toks : List JsmnTok}
    (accepted : Accepted input j toks) :
    validateJsmnDatum toks.length input toks = some (j, []) ∧
      ∀ t ∈ toks, '\x00' ∉ tokText input t := by
  obtain ⟨p, resumes, parsed⟩ := accepted
  have reading := resumes.reading.jsmnParse
  obtain ⟨⟨n, cut⟩, valid⟩ := jsonParseInput_complete parsed
  refine ⟨valid, fun t member => ?_⟩
  rw [cut] at member
  exact reading.tokText (reading.tokens t (List.mem_of_mem_take member))

theorem jsonEqualToks_eq {input1 input2 : Text} {i j : Json} {toks1 toks2 : List JsmnTok}
    (accepted1 : Accepted input1 i toks1) (accepted2 : Accepted input2 j toks2) :
    jsonEqualToks input1 toks1 input2 toks2 = .ok (i.jsonEqual j) := by
  obtain ⟨valid1, nul⟩ := accepted1.valid
  obtain ⟨valid2, -⟩ := accepted2.valid
  exact compares_jsonEqualTok input2 toks1.length toks2.length _ (le_refl _) valid1 valid2 nul

/-- `json_equal` decides structural equality of any two data that `json_parse_input`
    accepts and that repeat no key; it does not abort, nor read a token of neither. -/
theorem json_equal_decides_same {input1 input2 : Text} {j1 j2 : Json} {toks1 toks2 : List JsmnTok}
    (accepted1 : Accepted input1 j1 toks1) (accepted2 : Accepted input2 j2 toks2)
    (distinct1 : j1.KeysDistinct) (distinct2 : j2.KeysDistinct) :
    ∃ equal, jsonEqualToks input1 toks1 input2 toks2 = .ok equal ∧
      (equal = true ↔ Json.Same j1 j2) :=
  ⟨Json.jsonEqual j1 j2, jsonEqualToks_eq accepted1 accepted2,
    Json.jsonEqual_iff_same distinct1 distinct2⟩

/-- The members in another order, the second text in two pieces. -/
theorem json_equal_decides_same_reordered :
    Json.Same
      (.object "\x7b\"a\": 1, \"b\":[2]\x7d".toList
        [("a".toList, .primitive "1".toList),
          ("b".toList, .array "[2]".toList [.primitive "2".toList])])
      (.object "\x7b\"b\": [2],\"a\":1\x7d".toList
        [("b".toList, .array "[2]".toList [.primitive "2".toList]),
          ("a".toList, .primitive "1".toList)]) := by
  have accepted1 : Accepted "\x7b\"a\": 1, \"b\":[2]\x7d".toList
      (.object "\x7b\"a\": 1, \"b\":[2]\x7d".toList
        [("a".toList, .primitive "1".toList),
          ("b".toList, .array "[2]".toList [.primitive "2".toList])])
      [⟨.object, 0, some 17, 2⟩, ⟨.string, 2, some 3, 1⟩, ⟨.primitive, 6, some 7, 0⟩,
        ⟨.string, 10, some 11, 1⟩, ⟨.array, 13, some 16, 1⟩, ⟨.primitive, 14, some 15, 0⟩] :=
    ⟨jsmnInit, .init _, by decide +kernel⟩
  have accepted2 : Accepted ("\x7b\"b".toList ++ "\": [2],\"a\":1\x7d".toList)
      (.object "\x7b\"b\": [2],\"a\":1\x7d".toList
        [("b".toList, .array "[2]".toList [.primitive "2".toList]),
          ("a".toList, .primitive "1".toList)])
      [⟨.object, 0, some 16, 2⟩, ⟨.string, 2, some 3, 1⟩, ⟨.array, 6, some 9, 1⟩,
        ⟨.primitive, 7, some 8, 0⟩, ⟨.string, 11, some 12, 1⟩, ⟨.primitive, 14, some 15, 0⟩] :=
    ⟨⟨1, some 0, [⟨.object, 0, none, 0⟩]⟩, .more _ (.init _) (by decide +kernel),
      by decide +kernel⟩
  have one : ∀ e ∈ [Json.primitive "2".toList], e.KeysDistinct :=
    List.forall_mem_singleton.mpr .primitive
  obtain ⟨equal, run, same⟩ := json_equal_decides_same accepted1 accepted2
    (.object (by decide) (List.forall_mem_cons.mpr ⟨.primitive,
      List.forall_mem_singleton.mpr (.array one)⟩))
    (.object (by decide) (List.forall_mem_cons.mpr ⟨.array one,
      List.forall_mem_singleton.mpr .primitive⟩))
  have found : jsonEqualToks "\x7b\"a\": 1, \"b\":[2]\x7d".toList
      [⟨.object, 0, some 17, 2⟩, ⟨.string, 2, some 3, 1⟩, ⟨.primitive, 6, some 7, 0⟩,
        ⟨.string, 10, some 11, 1⟩, ⟨.array, 13, some 16, 1⟩, ⟨.primitive, 14, some 15, 0⟩]
      ("\x7b\"b".toList ++ "\": [2],\"a\":1\x7d".toList)
      [⟨.object, 0, some 16, 2⟩, ⟨.string, 2, some 3, 1⟩, ⟨.array, 6, some 9, 1⟩,
        ⟨.primitive, 7, some 8, 0⟩, ⟨.string, 11, some 12, 1⟩, ⟨.primitive, 14, some 15, 0⟩] =
      .ok true := by rfl
  rw [found] at run
  exact same.mp (Except.ok.inj run).symm

end Payz
