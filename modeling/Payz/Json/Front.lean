import Payz.Json.TokenEqual
import Payz.Json.Cuts

/-! # The first member of what is parsed

The tokenizer keeps the tokens it has.  So an object whose text starts with a key and a
string has this member in front, whatever follows.
-/

namespace Payz

/-- The parser behind `{"key":"value"`. -/
def frontParser (key value : Text) : JsmnParser where
  pos := key.length + value.length + 6
  toksuper := some 1
  tokens := [⟨.object, 0, none, 1⟩, ⟨.string, 2, some (2 + key.length), 1⟩,
    ⟨.string, key.length + 5, some (key.length + 5 + value.length), 0⟩]

theorem jsmnRun_front {key value : Text} (keyText : StringText key) (valueText : StringText value)
    (rest : Text) :
    jsmnRun jsmnInit ('{' :: '"' :: (key ++ '"' :: ':' :: '"' :: (value ++ '"' :: rest))) =
      jsmnRun (frontParser key value) rest := by
  have opens : ∀ text, jsmnRun jsmnInit ('{' :: text) =
      jsmnRun ⟨1, some 0, [⟨.object, 0, none, 0⟩]⟩ text := fun text =>
    jsmnRun_step (by decide) rfl
  have colon : ∀ p text, jsmnRun p (':' :: text) = jsmnRun (jsmnColon p) text := fun p text =>
    jsmnRun_step (by decide) rfl
  rw [opens, jsmnRun_string keyText, colon, jsmnRun_string valueText]
  congr 1
  simp only [jsmnLeaf, jsmnColon, incSize, frontParser, List.modify_zero_cons, List.cons_append,
    List.nil_append, List.length_cons, List.length_nil, JsmnParser.mk.injEq]
  grind

theorem eq_of_first_three {α : Type} {as : List α} {a b c : α} (first : as[0]? = some a)
    (second : as[1]? = some b) (third : as[2]? = some c) : ∃ rest, as = a :: b :: c :: rest := by
  rcases as with _ | ⟨a', _ | ⟨b', _ | ⟨c', rest⟩⟩⟩
  · cases first
  · cases second
  · cases third
  · cases first
    cases second
    cases third
    exact ⟨rest, rfl⟩

theorem validateJsmnKeyvalue_front {fuel : Nat} {buffer : Text} {key value : JsmnTok}
    {toks left : List JsmnTok} {n : Nat} {m : Text × Json} (string : value.type = .string)
    (valid : validateJsmnKeyvalue (validateJsmnDatum fuel buffer) buffer
      ((key :: value :: toks).take n) = some (m, left)) :
    m = (tokText buffer key, .string (tokText buffer value)) := by
  cases n with
  | zero => cases valid
  | succ n =>
      rw [List.take_succ_cons, validateJsmnKeyvalue] at valid
      split_ifs at valid with keyed
      obtain ⟨⟨j, toks'⟩, read, same⟩ := Option.map_eq_some_iff.mp valid
      cases same
      cases fuel with
      | zero => cases read
      | succ fuel =>
          cases n with
          | zero => cases read
          | succ n =>
              rw [List.take_succ_cons, validateJsmnDatum] at read
              simp only [string] at read
              split_ifs at read with leaf
              cases read
              rfl

/-- What is read off tokens that start like this starts with the member. -/
theorem validateJsmnDatum_front {fuel : Nat} {buffer : Text} {root key value : JsmnTok}
    {toks : List JsmnTok} {n : Nat} {j : Json} (object : root.type = .object) (some : 0 < root.size)
    (string : value.type = .string)
    (valid : validateJsmnDatum fuel buffer ((root :: key :: value :: toks).take n) =
      Option.some (j, [])) :
    ∃ text members, j = .object text
      ((tokText buffer key, .string (tokText buffer value)) :: members) := by
  cases n with
  | zero => cases fuel <;> cases valid
  | succ n =>
      cases fuel with
      | zero => cases valid
      | succ fuel =>
          rw [List.take_succ_cons, validateJsmnDatum] at valid
          simp only [object] at valid
          obtain ⟨size, same⟩ := Nat.exists_eq_add_one.mpr some
          obtain ⟨⟨members, left⟩, read, datum⟩ := Option.map_eq_some_iff.mp valid
          cases datum
          rw [same, readMany] at read
          split at read
          · cases read
          · next m toks' first =>
              obtain ⟨⟨members', left'⟩, -, rest⟩ := Option.map_eq_some_iff.mp read
              cases rest
              rw [validateJsmnKeyvalue_front string first]
              exact ⟨_, _, rfl⟩

theorem jsonParseSimple_front {key value rest : Text} (keyText : StringText key)
    (valueText : StringText value) {j : Json}
    (parsed : jsonParseSimple ('{' :: '"' :: (key ++ '"' :: ':' :: '"' :: (value ++ '"' :: rest))) =
      some j) : ∃ text members, j = .object text ((key, .string value) :: members) := by
  generalize whole : '{' :: '"' :: (key ++ '"' :: ':' :: '"' :: (value ++ '"' :: rest)) = input
    at parsed
  unfold jsonParseSimple at parsed
  split at parsed
  · next root toks complete =>
      cases parsed
      obtain ⟨⟨n, taken⟩, valid⟩ := jsonParseInput_complete complete
      have run : (jsmnParse jsmnInit input).1 = (jsmnRun (frontParser key value) rest).1 := by
        rw [jsmnParse_fst, ← jsmnRun_front keyText valueText rest, whole]
        rfl
      obtain ⟨rest', turns, -⟩ := jsmnRun_turns (frontParser key value) rest
      have kept := turns.extends
      rw [← run] at kept
      obtain ⟨t₀, found₀, root₀⟩ := kept 0 _ rfl
      obtain ⟨t₁, found₁, key₁⟩ := kept 1 _ rfl
      obtain ⟨t₂, found₂, value₂⟩ := kept 2 _ rfl
      obtain ⟨toks', tokens⟩ := eq_of_first_three found₀ found₁ found₂
      rw [taken, tokens] at valid
      obtain ⟨text, members, same⟩ := validateJsmnDatum_front root₀.type
        (Nat.lt_of_lt_of_le Nat.zero_lt_one root₀.size) value₂.type valid
      have keyRead : tokText input t₁ = key := by
        rw [tokText, key₁.start, key₁.stop _ rfl, ← whole]
        simp
      have valueRead : tokText input t₂ = value := by
        have behind : input.drop (key.length + 5) = value ++ '"' :: rest := by
          have split : input = ('{' :: '"' :: (key ++ ['"', ':', '"'])) ++ (value ++ '"' :: rest) := by
            simp [← whole]
          rw [split]
          exact List.drop_left' (by simp)
        rw [tokText, value₂.start, value₂.stop _ rfl, behind]
        simp
      rw [keyRead, valueRead] at same
      exact ⟨text, members, same⟩
  · cases parsed

end Payz
