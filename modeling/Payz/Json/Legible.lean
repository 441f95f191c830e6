import Payz.Json.Out
import Payz.Json.Streams

/-! # The data that `json_parse_input` accepts

The tokenizer is lenient, but not about leaves: a string is made of the contents of a string
literal, between quotes, a primitive of characters allowed in one.  Up to the texts of its
arrays and objects, which `json_equal` does not look at, every datum with such leaves is
accepted.
-/

namespace Payz

open Layout

/-- Some input is accepted for this datum. -/
def Json.Parsed (j : Json) : Prop := ∃ input toks, Accepted input j toks

/-- The leaves and keys look as the tokenizer wants them. -/
inductive Json.Legible : Json → Prop where
  | primitive {t} : PrimitiveShape t → Legible (.primitive t)
  | string {raw} : StringText raw → Legible (.string raw)
  | array {t elems} : (∀ e ∈ elems, Legible e) → Legible (.array t elems)
  | object {t members} : (∀ m ∈ members, StringText m.1) → (∀ m ∈ members, Legible m.2) →
      Legible (.object t members)

/-! ## What is accepted is legible -/

/-- `json_tok_full`: the quote in front of a string belongs to it. -/
def jsonTokFullStart (t : JsmnTok) : Nat := if t.type = .string then t.start - 1 else t.start

def jsonTokFullLen (t : JsmnTok) : Nat :=
  if t.type = .string then t.stop.getD t.start - t.start + 2 else t.stop.getD t.start - t.start

/-- The text of a token, with its quotes. -/
def tokTextFull (buffer : Text) (t : JsmnTok) : Text :=
  (buffer.drop (jsonTokFullStart t)).take (jsonTokFullLen t)

/-- The text of a token looks as its type wants it. -/
structure JsmnTok.Worded (js : Text) (t : JsmnTok) : Prop where
  primitive : t.type = .primitive → PrimitiveShape (tokText js t)
  string : t.type = .string → StringText (tokText js t)
  quoted : t.type = .string → 0 < t.start ∧ tokTextFull js t = '"' :: (tokText js t ++ ['"'])

theorem JsmnTok.Worded.container {js : Text} {t : JsmnTok}
    (container : t.type = .object ∨ t.type = .array) : t.Worded js := by
  rcases container with object | array
  · have string : t.type ≠ .string := by rw [object]; decide
    exact ⟨fun type => absurd (object.symm.trans type) (by decide), fun type => absurd type string,
      fun type => absurd type string⟩
  · have string : t.type ≠ .string := by rw [array]; decide
    exact ⟨fun type => absurd (array.symm.trans type) (by decide), fun type => absurd type string,
      fun type => absurd type string⟩

/-- The digits that are due, and the contents of a string behind them. -/
theorem StringScan.contents {due n : Nat} {rest : Text} (scan : StringScan due rest n) :
    ∃ digits tail, rest.take n = digits ++ tail ∧ digits.length = due ∧
      (∀ h ∈ digits, isHexDigit h = true) ∧ StringText tail := by
  induction scan with
  | quote => exact ⟨[], [], rfl, rfl, by simp, .nil⟩
  | @digit due c rest n hex _ ih =>
      obtain ⟨digits, tail, split, number, all, text⟩ := ih
      refine ⟨c :: digits, tail, ?_, by rw [List.length_cons, number], ?_, text⟩
      · rw [List.take_succ_cons, split, List.cons_append]
      · exact List.forall_mem_cons.mpr ⟨hex, all⟩
  | @escape e rest n simple _ ih =>
      obtain ⟨digits, tail, split, number, -, text⟩ := ih
      rw [List.length_eq_zero_iff.mp number, List.nil_append] at split
      refine ⟨[], '\\' :: e :: tail, ?_, rfl, by simp, .escape simple text⟩
      rw [List.take_succ_cons, List.take_succ_cons, split, List.nil_append]
  | @unicode rest n _ ih =>
      obtain ⟨digits, tail, split, number, all, text⟩ := ih
      obtain ⟨a, b, c, d, rfl⟩ : ∃ a b c d, digits = [a, b, c, d] := by
        match digits, number with
        | [a, b, c, d], _ => exact ⟨a, b, c, d, rfl⟩
      refine ⟨[], '\\' :: 'u' :: a :: b :: c :: d :: tail, ?_, rfl, by simp, .unicode all text⟩
      rw [List.take_succ_cons, List.take_succ_cons, split]
      rfl
  | @plain c rest n nul quote backslash _ ih =>
      obtain ⟨digits, tail, split, number, -, text⟩ := ih
      rw [List.length_eq_zero_iff.mp number, List.nil_append] at split
      refine ⟨[], c :: tail, ?_, rfl, by simp, .plain quote backslash nul text⟩
      rw [List.take_succ_cons, split, List.nil_append]

theorem jsmnParseString_contents {rest : Text} {n : Nat}
    (scanned : jsmnParseString 0 rest = .ok n) : StringText (rest.take n) := by
  obtain ⟨digits, tail, split, number, -, text⟩ := (stringScan_of_ok scanned).contents
  rw [List.length_eq_zero_iff.mp number, List.nil_append] at split
  rwa [split]

theorem StringScan.closing {due n : Nat} {rest : Text} (scan : StringScan due rest n) :
    rest[n]? = some '"' := by
  induction scan with
  | quote => rfl
  | digit _ _ ih | plain _ _ _ _ ih => exact ih
  | escape _ _ ih | unicode _ ih => exact ih

theorem jsmnParsePrimitive_chars {text : Text} {n : Nat}
    (scanned : jsmnParsePrimitive text = some n) : ∀ c ∈ text.take n, PrimitiveChar c := by
  induction text generalizing n with
  | nil => simp
  | cons c rest ih =>
      rw [jsmnParsePrimitive] at scanned
      split_ifs at scanned with nul ends bad
      · cases scanned
        simp
      · cases scanned
        simp
      · obtain ⟨m, tail, rfl⟩ := Option.map_eq_some_iff.mp scanned
        rw [List.take_succ_cons, List.forall_mem_cons]
        simp only [Bool.or_eq_true, decide_eq_true_eq, not_or, not_le, not_lt] at bad
        exact ⟨⟨nul, Bool.eq_false_iff.mpr ends, bad.1, bad.2⟩, ih tail⟩

theorem worded_incSize {js : Text} {tokens : List JsmnTok} (worded : ∀ t ∈ tokens, t.Worded js)
    (toksuper : Option Nat) : ∀ t ∈ incSize toksuper tokens, t.Worded js := by
  cases toksuper with
  | none => exact worded
  | some i =>
      intro t member
      rcases mem_of_mem_modify member with old | ⟨t', there, rfl⟩
      · exact worded t old
      · exact ⟨(worded t' there).primitive, (worded t' there).string, (worded t' there).quoted⟩

theorem worded_jsmnLeaf {js : Text} {p : JsmnParser} (worded : ∀ t ∈ p.tokens, t.Worded js)
    {type : JsmnType} {start stop next : Nat} (leaf : JsmnTok.Worded js ⟨type, start, some stop, 0⟩) :
    ∀ t ∈ (jsmnLeaf p type start stop next).tokens, t.Worded js := by
  intro t member
  rcases List.mem_append.mp member with old | new
  · exact worded_incSize worded _ t old
  · cases List.mem_singleton.mp new
    exact leaf

theorem JsmnTurn.worded {js : Text} {p p' : JsmnParser} {n : Nat}
    (turn : JsmnTurn p (js.drop p.pos) p' n) (worded : ∀ t ∈ p.tokens, t.Worded js) :
    ∀ t ∈ p'.tokens, t.Worded js := by
  generalize front : js.drop p.pos = text at turn
  cases turn with
  | @opens c type rest bracket =>
      intro t member
      rcases List.mem_append.mp member with old | new
      · exact worded_incSize worded _ t old
      · cases List.mem_singleton.mp new
        exact .container (bracket.imp And.right And.right)
  | @closes c type rest p' bracket close =>
      obtain ⟨i, t', -, there, typed, rfl⟩ := jsmnClose_ok close
      intro t member
      obtain ⟨j, found⟩ := List.mem_iff_getElem?.mp member
      rw [List.getElem?_modify] at found
      split_ifs at found with same
      · subst same
        rw [there] at found
        cases found
        rw [← typed] at bracket
        exact .container (bracket.imp And.right And.right)
      · exact worded t (List.mem_of_getElem? (by simpa using found))
  | @string rest n scanned =>
      have inner : js.drop (p.pos + 1) = rest := by
        rw [← List.drop_drop, front]
        rfl
      have text : tokText js ⟨.string, p.pos + 1, some (p.pos + 1 + n), 0⟩ = rest.take n := by
        simp [tokText, inner]
      have full : tokTextFull js ⟨.string, p.pos + 1, some (p.pos + 1 + n), 0⟩ =
          '"' :: (rest.take n ++ ['"']) := by
        have width : p.pos + 1 + n - (p.pos + 1) + 2 = n + 1 + 1 := by omega
        simp only [tokTextFull, jsonTokFullStart, jsonTokFullLen, if_true, Nat.add_sub_cancel,
          Option.getD_some, front, width]
        rw [List.take_succ_cons, List.take_add_one, (stringScan_of_ok scanned).closing]
        rfl
      have primitive : JsmnType.string ≠ .primitive := by decide
      refine worded_jsmnLeaf worded
        ⟨fun type => absurd type primitive, fun _ => ?_, fun _ => ⟨Nat.succ_pos _, ?_⟩⟩
      · rw [text]
        exact jsmnParseString_contents scanned
      · rw [full, text]
  | blank | colon | comma => exact worded
  | @primitive c rest n starts scanned positive =>
      have string : JsmnType.primitive ≠ .string := by decide
      refine worded_jsmnLeaf worded
        ⟨fun _ => ?_, fun type => absurd type string, fun type => absurd type string⟩
      have text : tokText js ⟨.primitive, p.pos, some (p.pos + n), 0⟩ = (c :: rest).take n := by
        simp [tokText, front]
      have chars := jsmnParsePrimitive_chars scanned
      obtain ⟨n, rfl⟩ := Nat.exists_eq_succ_of_ne_zero (Nat.pos_iff_ne_zero.mp positive)
      rw [text, List.take_succ_cons] at *
      exact ⟨c, rest.take n, rfl, chars, starts.1, starts.2.1, starts.2.2.1⟩

theorem worded_jsmnParse {js : Text} {p : JsmnParser} (worded : ∀ t ∈ p.tokens, t.Worded js) :
    ∀ t ∈ (jsmnParse p js).1.tokens, t.Worded js :=
  jsmnParse_keeps (P := fun p => ∀ t ∈ p.tokens, t.Worded js)
    (fun worded turn => turn.worded worded) worded

theorem length_tokText {buffer : Text} {t : JsmnTok} (ranged : t.Ranged buffer.length) :
    (tokText buffer t).length = t.stop.getD t.start - t.start := by
  rw [tokText, List.length_take, List.length_drop]
  cases ends : t.stop with
  | none => simp
  | some stop =>
      have bound := ranged.stop stop ends
      rw [Option.getD_some]
      omega

theorem tokTextFull_append {buffer : Text} {t : JsmnTok}
    (whole : (tokTextFull buffer t).length = jsonTokFullLen t) (more : Text) :
    tokTextFull (buffer ++ more) t = tokTextFull buffer t := by
  have inside : jsonTokFullLen t ≤ (buffer.drop (jsonTokFullStart t)).length := by
    rw [tokTextFull, List.length_take] at whole
    omega
  rw [tokTextFull, List.drop_append, List.take_append_of_le_length inside, tokTextFull]

theorem Resumes.worded {p : JsmnParser} {input : Text} (resumes : Resumes p input) :
    ∀ t ∈ p.tokens, t.Worded input := by
  induction resumes with
  | init => simp [jsmnInit]
  | @more p p' input arrived before parsed ih =>
      have reading := before.reading
      rw [jsonParseInput_incomplete parsed]
      intro t member
      have worded := worded_jsmnParse ih t member
      have ranged := (reading.jsmnParse.tokens t member).mono reading.jsmnParse.bound
      have same := tokText_append ranged arrived
      refine ⟨fun type => same.symm ▸ worded.primitive type,
        fun type => same.symm ▸ worded.string type, fun type => ?_⟩
      obtain ⟨behind, full⟩ := worded.quoted type
      refine ⟨behind, ?_⟩
      rw [same, ← full]
      refine tokTextFull_append ?_ arrived
      rw [full, jsonTokFullLen, if_pos type, ← length_tokText ranged, List.length_cons,
        List.length_append]
      rfl

theorem readMany_forall {α : Type} {P : α → Prop}
    {read : List JsmnTok → Option (α × List JsmnTok)} (skips : Skips read) {k : Nat}
    {toks rest : List JsmnTok} {items : List α}
    (one : ∀ toks' a rest', toks' <:+ toks → read toks' = some (a, rest') → P a)
    (all : readMany read k toks = some (items, rest)) : ∀ a ∈ items, P a := by
  induction k generalizing toks items with
  | zero =>
      cases all
      simp
  | succ k ih =>
      obtain ⟨item, toks', items', first, rfl, tail⟩ := readMany_succ all
      have later := (skips first).1
      refine List.forall_mem_cons.mpr ⟨one toks item toks' List.suffix_rfl first, ?_⟩
      exact ih (fun toks'' a rest' suffix => one toks'' a rest' (suffix.trans later)) tail

theorem legible_validateJsmnDatum {fuel : Nat} {buffer : Text} {toks rest : List JsmnTok} {j : Json}
    (worded : ∀ t ∈ toks, t.Worded buffer)
    (valid : validateJsmnDatum fuel buffer toks = some (j, rest)) : j.Legible := by
  induction fuel generalizing toks j rest with
  | zero => cases valid
  | succ fuel ih =>
      have skips := skips_validateJsmnDatum fuel buffer
      obtain ⟨t, toks, rfl, datum⟩ := validateJsmnDatum_read valid
      rw [List.forall_mem_cons] at worded
      cases datum with
      | string type => exact .string (worded.1.string type)
      | primitive type => exact .primitive (worded.1.primitive type)
      | array _ all =>
          refine .array (readMany_forall skips (fun toks' e rest' suffix first => ?_) all)
          exact ih (fun t member => worded.2 t (suffix.subset member)) first
      | object _ all =>
          have each := readMany_forall (P := fun m => StringText m.1 ∧ m.2.Legible)
            (skips.keyvalue buffer) (fun toks' m rest' suffix first => by
              obtain ⟨t, toks'', rfl, type, -, text, value⟩ := validateJsmnKeyvalue_read first
              have here := fun t member => worded.2 t (suffix.subset member)
              rw [List.forall_mem_cons] at here
              exact ⟨text ▸ here.1.string type, ih here.2 value⟩) all
          exact .object (fun m member => (each m member).1) fun m member => (each m member).2

theorem Accepted.worded {input : Text} {j : Json} {toks : List JsmnTok}
    (accepted : Accepted input j toks) : ∀ t ∈ toks, t.Worded input := by
  obtain ⟨p, resumes, complete⟩ := accepted
  obtain ⟨⟨n, cut⟩, -⟩ := jsonParseInput_complete complete
  intro t member
  rw [cut] at member
  exact worded_jsmnParse resumes.worded t (List.mem_of_mem_take member)

theorem Json.Parsed.legible {j : Json} (parsed : j.Parsed) : j.Legible := by
  obtain ⟨input, toks, accepted⟩ := parsed
  exact legible_validateJsmnDatum accepted.worded accepted.valid.1

/-! ## What is legible can be written -/

namespace Json

/-- `json_equal` cannot tell these data apart. -/
def Alike (i j : Json) : Prop :=
  ∀ k, jsonEqual i k = jsonEqual j k ∧ jsonEqual k i = jsonEqual k j

theorem alike_array {elems elems' : List Json} (s t : Text)
    (alike : List.Forall₂ Alike elems elems') : Alike (.array s elems) (.array t elems') := by
  have loop : ∀ others, jsonEqualElems elems others = jsonEqualElems elems' others ∧
      jsonEqualElems others elems = jsonEqualElems others elems' := by
    induction alike with
    | nil => exact fun others => ⟨rfl, rfl⟩
    | @cons e e' elems elems' first _ ih =>
        intro others
        cases others with
        | nil => exact ⟨rfl, rfl⟩
        | cons k others =>
            simp only [jsonEqualElems, (first k).1, (first k).2, (ih others).1, (ih others).2,
              and_self]
  intro k
  cases k with
  | primitive | string | object => exact ⟨rfl, rfl⟩
  | array u others =>
      simp only [jsonEqual, (loop others).1, (loop others).2, alike.length_eq, and_self]

/-- Members with the same keys, in the same order, whose values are alike. -/
def MembersAlike : List (Text × Json) → List (Text × Json) → Prop :=
  List.Forall₂ fun m m' => m.1 = m'.1 ∧ Alike m.2 m'.2

theorem alike_found {members members' : List (Text × Json)} (s t : Text)
    (alike : MembersAlike members members') (key : Text) (k : Json) :
    (match jsonGetMember (.object s members) key with
      | none => false
      | some v => jsonEqual k v) =
    (match jsonGetMember (.object t members') key with
      | none => false
      | some v => jsonEqual k v) := by
  induction alike with
  | nil => rfl
  | @cons m m' members members' first _ ih =>
      obtain ⟨key', v⟩ := m
      obtain ⟨_, v'⟩ := m'
      obtain ⟨rfl, same⟩ := first
      rw [jsonGetMember_object_cons, jsonGetMember_object_cons]
      by_cases here : key' = key
      · simp only [if_pos here, (same k).2]
      · simpa only [if_neg here] using ih

theorem alike_object {members members' : List (Text × Json)} (s t : Text)
    (alike : MembersAlike members members') : Alike (.object s members) (.object t members') := by
  have left : ∀ k, jsonEqualMembers members k = jsonEqualMembers members' k := by
    intro k
    induction alike with
    | nil => rfl
    | @cons m m' members members' first _ ih =>
        obtain ⟨key, v⟩ := m
        obtain ⟨_, v'⟩ := m'
        obtain ⟨rfl, same⟩ := first
        rw [jsonEqualMembers, jsonEqualMembers, ih]
        congr 1
        cases jsonGetMember k key with
        | none => rfl
        | some w => exact (same w).1
  have right : ∀ others, jsonEqualMembers others (.object s members) =
      jsonEqualMembers others (.object t members') := by
    intro others
    induction others with
    | nil => rfl
    | cons m others ih =>
        rw [jsonEqualMembers, jsonEqualMembers, ih]
        congr 1
        exact alike_found s t alike m.1 m.2
  intro k
  cases k with
  | primitive | string | array => exact ⟨rfl, rfl⟩
  | object u others =>
      simp only [jsonEqual, left, right others, alike.length_eq, and_self]

theorem exists_forall₂ {α β : Type} {R : β → α → Prop} {xs : List α}
    (each : ∀ x ∈ xs, ∃ y, R y x) : ∃ ys, List.Forall₂ R ys xs := by
  induction xs with
  | nil => exact ⟨[], .nil⟩
  | cons x xs ih =>
      rw [List.forall_mem_cons] at each
      obtain ⟨y, first⟩ := each.1
      obtain ⟨ys, rest⟩ := ih each.2
      exact ⟨y :: ys, .cons first rest⟩

/-- Written without blanks, a legible datum is tokenized as one that is alike. -/
theorem Legible.written {j : Json} (legible : j.Legible) : ∃ i, Tokenized i ∧ Alike i j := by
  induction legible with
  | primitive shape => exact ⟨_, tokenized_primitive shape, fun _ => ⟨rfl, rfl⟩⟩
  | string text => exact ⟨_, tokenized_string text, fun _ => ⟨rfl, rfl⟩⟩
  | @array t elems _ ih =>
      obtain ⟨elems', written⟩ := exists_forall₂ ih
      obtain ⟨tokenized, alike⟩ := (List.forall₂_and_left _ _).mp written
      refine ⟨.tightArray elems', ?_, alike_array _ _ alike⟩
      refine container_tokenized arrayKind (CommaSep.tight jsonTokFull fun e _ => rfl) ?_
      rintro e member s rfl buffer
      exact elem_tokenized (tokenized e member) buffer
  | @object t members keys _ ih =>
      have each : ∀ m ∈ members, ∃ m' : Text × Json,
          (StringText m'.1 ∧ Tokenized m'.2) ∧ m'.1 = m.1 ∧ Alike m'.2 m.2 := by
        intro m member
        obtain ⟨i, tokenized, alike⟩ := ih m member
        exact ⟨(m.1, i), ⟨keys m member, tokenized⟩, rfl, alike⟩
      obtain ⟨members', written⟩ := exists_forall₂ each
      obtain ⟨tokenized, alike⟩ := (List.forall₂_and_left _ _).mp written
      refine ⟨.tight members', ?_, alike_object _ _ alike⟩
      have body : CommaSep MemberText members' (commas (members'.map tightMember)) :=
        CommaSep.tight tightMember fun m _ => ⟨[], [], Blanks.nil, Blanks.nil, rfl⟩
      refine container_tokenized objectKind body ?_
      intro m member s text buffer
      exact member_tokenized (tokenized m member).1 (tokenized m member).2 text buffer

theorem Legible.parsed {j : Json} (legible : j.Legible) : ∃ i, i.Parsed ∧ Alike i j := by
  obtain ⟨i, tokenized, alike⟩ := legible.written
  obtain ⟨toks, complete⟩ := tokenized.complete
  exact ⟨i, ⟨i.jsonTokFull, toks, jsmnInit, .init _, complete⟩, alike⟩

end Json

end Payz
