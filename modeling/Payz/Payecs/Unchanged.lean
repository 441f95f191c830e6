import Payz.Json.Repeats
import Payz.Json.TokenEqual
import Payz.Payecs.Expected

/-! # A component that is sent back as it was read

A client that expects a component to have the value it has passes the validation of
`payecs_setcomponents`, as long as `json_equal` is an equivalence there.
-/

namespace Payz

/-- The specification that a component of an entity has this value. -/
def expectValue (entity : UInt32) (component : Text) (value : Json) : Json :=
  .tight [("entity".toList, .primitive (formatU entity.toNat)), (component, value)]

/-- Wherever this datum is read, it may be expected. -/
def PassesUnchanged (value : Json) : Prop :=
  ∀ ⦃ec : Ec⦄ ⦃entity component⦄, jsonEscapeNeeded component = false →
    component ≠ "entity".toList → component ≠ "exact".toList →
    (ecGetComponent ec entity component).2 = value →
    ∃ spec, jsonToPayecsWritespec (expectValue entity component value) = some spec ∧
      payecsSetcomponentsExpect1 ec spec = .ok true

theorem jsonToPayecsWritespec_expectValue (entity : UInt32) {component : Text} (value : Json)
    (plain : jsonEscapeNeeded component = false) (notEntity : component ≠ "entity".toList)
    (notExact : component ≠ "exact".toList) :
    jsonToPayecsWritespec (expectValue entity component value) =
      some ⟨entity, false, (∅ : Std.ExtTreeMap Text Json).insertIfNew component value, 1⟩ := by
  have entityMember : writespecMember ⟨none, false, ∅, 0⟩
      ("entity".toList, .primitive (formatU entity.toNat)) = some ⟨some entity, false, ∅, 0⟩ := by
    rw [writespecMember, if_pos rfl, Json.jsonToU32_formatU]
    rfl
  have valueMember : writespecMember ⟨some entity, false, ∅, 0⟩ (component, value) =
      some ⟨some entity, false, (∅ : Std.ExtTreeMap Text Json).insertIfNew component value, 1⟩ := by
    rw [writespecMember, if_neg notEntity, if_neg notExact, plain, if_neg Bool.false_ne_true]
  rw [expectValue, Json.tight, jsonToPayecsWritespec, List.foldlM_cons, entityMember,
    Option.bind_eq_bind, Option.bind_some, List.foldlM_cons, valueMember]
  rfl

theorem passesUnchanged_of_refl {value : Json} (equal : value.jsonEqual value = true) :
    PassesUnchanged value := by
  intro ec entity component plain notEntity notExact attached
  refine ⟨_, jsonToPayecsWritespec_expectValue entity value plain notEntity notExact, ?_⟩
  have validated : payecsSetcomponentsValidate ec ⟨entity, false,
      (∅ : Std.ExtTreeMap Text Json).insertIfNew component value, 1⟩ = true := by
    rw [payecsSetcomponentsValidate_iff]
    intro name other found
    rw [Std.ExtTreeMap.getElem?_insertIfNew] at found
    have same : component = name ∧ value = other := by simpa using found
    obtain ⟨rfl, rfl⟩ := same
    have current : ec.current entity component = value := by
      rw [← attached, ecGetComponent_eq]
    rw [current]
    exact equal
  rw [payecsSetcomponentsExpect1, if_pos validated]
  rfl

/-- What an equivalence asks of the tokens of one datum, whatever is accepted to compare
    them with. -/
structure TokenLaws (input : Text) (toks : List JsmnTok) : Prop where
  refl : jsonEqualToks input toks input toks = .ok true
  symm : ∀ {input2 j toks2}, Accepted input2 j toks2 →
    jsonEqualToks input toks input2 toks2 = .ok true →
    jsonEqualToks input2 toks2 input toks = .ok true
  trans : ∀ {input2 j toks2 input3 k toks3}, Accepted input2 j toks2 → Accepted input3 k toks3 →
    jsonEqualToks input toks input2 toks2 = .ok true →
    jsonEqualToks input2 toks2 input3 toks3 = .ok true →
    jsonEqualToks input toks input3 toks3 = .ok true

theorem tokenLaws_iff {input : Text} {value : Json} {toks : List JsmnTok}
    (accepted : Accepted input value toks) : TokenLaws input toks ↔ value.EqualLaws := by
  have compare : ∀ {input1 i toks1 input2 j toks2}, Accepted input1 i toks1 →
      Accepted input2 j toks2 →
      (jsonEqualToks input1 toks1 input2 toks2 = .ok true ↔ i.jsonEqual j = true) := by
    intro input1 i toks1 input2 j toks2 first second
    rw [jsonEqualToks_eq first second, Except.ok.injEq]
  constructor
  · intro laws
    refine ⟨(compare accepted accepted).mp laws.refl, ?_, ?_⟩
    · rintro j ⟨input2, toks2, second⟩ equal
      exact (compare second accepted).mp (laws.symm second ((compare accepted second).mpr equal))
    · rintro j k ⟨input2, toks2, second⟩ ⟨input3, toks3, third⟩ equal equal'
      exact (compare accepted third).mp (laws.trans second third
        ((compare accepted second).mpr equal) ((compare second third).mpr equal'))
  · intro laws
    refine ⟨(compare accepted accepted).mpr laws.refl, ?_, ?_⟩
    · intro input2 j toks2 second equal
      exact (compare second accepted).mpr
        (laws.symm ⟨_, _, second⟩ ((compare accepted second).mp equal))
    · intro input2 j toks2 input3 k toks3 second third equal equal'
      exact (compare accepted third).mpr (laws.trans ⟨_, _, second⟩ ⟨_, _, third⟩
        ((compare accepted second).mp equal) ((compare second third).mp equal'))

/-- On an accepted datum the laws of an equivalence hold, and it can be sent back as it was
    read, exactly if no object inside repeats a key. -/
theorem json_equal_laws_iff {input : Text} {value : Json} {toks : List JsmnTok}
    (accepted : Accepted input value toks) :
    TokenLaws input toks ∧ PassesUnchanged value ↔ value.KeysDistinct := by
  rw [tokenLaws_iff accepted]
  constructor
  · rintro ⟨laws, -⟩
    exact laws.distinct (Json.Parsed.legible ⟨_, _, accepted⟩)
  · intro distinct
    exact ⟨.of_distinct distinct, passesUnchanged_of_refl (Json.jsonEqual_refl distinct)⟩

theorem json_equal_laws_iff_one_member :
    TokenLaws "\x7b\"k\":1\x7d".toList
        [⟨.object, 0, some 7, 1⟩, ⟨.string, 2, some 3, 1⟩, ⟨.primitive, 5, some 6, 0⟩] ∧
      PassesUnchanged (.object "\x7b\"k\":1\x7d".toList [("k".toList, .primitive "1".toList)]) := by
  have accepted : Accepted "\x7b\"k\":1\x7d".toList
      (.object "\x7b\"k\":1\x7d".toList [("k".toList, .primitive "1".toList)])
      [⟨.object, 0, some 7, 1⟩, ⟨.string, 2, some 3, 1⟩, ⟨.primitive, 5, some 6, 0⟩] :=
    ⟨jsmnInit, .init _, by decide +kernel⟩
  exact (json_equal_laws_iff accepted).mpr
    (.object (by decide) (List.forall_mem_singleton.mpr .primitive))

/-- `{"k":1,"k":2}` differs from itself, so a component with this value cannot be expected;
    `{"k":1,"k":1}` is equal to `{"k":1,"j":2}`, but not the other way round. -/
theorem repeated_key_differs_from_itself :
    (Accepted "\x7b\"k\":1,\"k\":2\x7d".toList
        (.object "\x7b\"k\":1,\"k\":2\x7d".toList
          [("k".toList, .primitive "1".toList), ("k".toList, .primitive "2".toList)])
        [⟨.object, 0, some 13, 2⟩, ⟨.string, 2, some 3, 1⟩, ⟨.primitive, 5, some 6, 0⟩,
          ⟨.string, 8, some 9, 1⟩, ⟨.primitive, 11, some 12, 0⟩] ∧
      jsonEqualToks "\x7b\"k\":1,\"k\":2\x7d".toList
        [⟨.object, 0, some 13, 2⟩, ⟨.string, 2, some 3, 1⟩, ⟨.primitive, 5, some 6, 0⟩,
          ⟨.string, 8, some 9, 1⟩, ⟨.primitive, 11, some 12, 0⟩]
        "\x7b\"k\":1,\"k\":2\x7d".toList
        [⟨.object, 0, some 13, 2⟩, ⟨.string, 2, some 3, 1⟩, ⟨.primitive, 5, some 6, 0⟩,
          ⟨.string, 8, some 9, 1⟩, ⟨.primitive, 11, some 12, 0⟩] = .ok false) ∧
    ¬ PassesUnchanged (.object "\x7b\"k\":1,\"k\":2\x7d".toList
      [("k".toList, .primitive "1".toList), ("k".toList, .primitive "2".toList)]) ∧
    (Json.jsonEqual
        (.tight [("k".toList, .primitive "1".toList), ("k".toList, .primitive "1".toList)])
        (.tight [("k".toList, .primitive "1".toList), ("j".toList, .primitive "2".toList)]) = true ∧
      Json.jsonEqual
        (.tight [("k".toList, .primitive "1".toList), ("j".toList, .primitive "2".toList)])
        (.tight [("k".toList, .primitive "1".toList), ("k".toList, .primitive "1".toList)]) =
          false) := by
  refine ⟨⟨⟨jsmnInit, .init _, by decide +kernel⟩, rfl⟩, ?_, rfl, rfl⟩
  intro passes
  obtain ⟨spec, read, expected⟩ := @passes (ecAfter [⟨1, "a".toList,
    some (.object "\x7b\"k\":1,\"k\":2\x7d".toList
      [("k".toList, .primitive "1".toList), ("k".toList, .primitive "2".toList)])⟩])
    1 "a".toList rfl (by decide) (by decide) rfl
  rw [jsonToPayecsWritespec_expectValue 1 _ rfl (by decide) (by decide), Option.some.injEq] at read
  subst read
  cases expected

end Payz
