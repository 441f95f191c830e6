import Payz.Ecs.Ecsys
import Payz.Json.Said
import Payz.Payecs.Setcomponents

/-! # The result of `payecs_getcomponents`

The names come in unescaped and go out as keys, as they are.  The text that is written is
JSON, and says what was asked for, exactly if no name holds a quote, a backslash or a control
character and what is stored for the names is JSON.
-/

namespace Payz

open Layout

/-- `json_splice_entity_components`, as it writes. -/
def jsonSpliceEntityComponentsOut (out : JsonOut) (ec : Ec) (entity : UInt32)
    (components : List Text) : JsonOut :=
  components.foldl (fun out component =>
    jsonAddTok out (some component) (ecGetComponent ec entity component).2)
    (jsonAddU32 out (some "entity".toList) entity)

/-- The `result` of `payecs_getcomponents`. -/
def payecsGetcomponentsText (ec : Ec) (entity : UInt32) (components : List Text) : Text :=
  let out := jsonOutStart jsonOutNew none '{'
  let out := jsonSpliceEntityComponentsOut out ec entity components
  (jsonOutEnd out '}').outbuf

/-- `payecs_getcomponents`, as it writes. -/
def payecsGetcomponentsOut (ec : Ec) (params : Json) : Except CommandFail Text :=
  (payecsGetcomponentsArgs params).map fun (entity, components) =>
    payecsGetcomponentsText ec entity components

theorem writing_entityComponents {out : JsonOut} {before : Text} (writing : out.Writing before [])
    (ec : Ec) (entity : UInt32) (components : List Text) :
    (jsonSpliceEntityComponentsOut out ec entity components).Writing before
      (jsonSpliceEntityComponents ec entity components) := by
  have first : (jsonAddU32 out (some "entity".toList) entity).Writing before
      [("entity".toList, .primitive (formatU entity.toNat))] :=
    writing.addTok "entity".toList (.primitive (formatU entity.toNat))
  have rest := writing_components (components.map fun component =>
    (component, (ecGetComponent ec entity component).2)) first
  rw [List.foldl_map] at rest
  exact rest

theorem payecsGetcomponentsText_eq (ec : Ec) (entity : UInt32) (components : List Text) :
    payecsGetcomponentsText ec entity components =
      (Json.tight (jsonSpliceEntityComponents ec entity components)).jsonTokFull :=
  (writing_entityComponents .start_root ec entity components).finish

/-! ## The command -/

theorem nul_not_mem_of_jsonToString {j : Json} (wellFormed : j.WellFormed) {name : Text}
    (read : jsonToString j = some name) : '\x00' ∉ name := by
  cases wellFormed with
  | string text => exact (unescapes_of_reads read).nul_not_mem text
  | primitive | array | object => cases read

theorem nul_not_mem_of_jsonToArrayOfStrings {j : Json} (wellFormed : j.WellFormed)
    {names : List Text} (read : jsonToArrayOfStrings j = some names) :
    ∀ name ∈ names, '\x00' ∉ name := by
  intro name member
  cases wellFormed with
  | string text =>
      obtain ⟨only, here, rfl⟩ := Option.map_eq_some_iff.mp read
      rw [List.mem_singleton] at member
      subst member
      exact (unescapes_of_reads here).nul_not_mem text
  | array elems _ =>
      obtain ⟨elem, there, here⟩ := mem_of_mapM_eq_some read member
      exact nul_not_mem_of_jsonToString (elems elem there) here
  | primitive | object => cases read

theorem payecsGetcomponentsArgs_nul {params : Json} (wellFormed : params.WellFormed)
    {entity : UInt32} {components : List Text}
    (args : payecsGetcomponentsArgs params = .ok (entity, components)) :
    ∀ name ∈ components, '\x00' ∉ name := by
  obtain ⟨values, parsed, same⟩ := eq_of_map_eq_ok args
  cases same
  intro name member
  obtain ⟨tok, names, there, read, listed⟩ := mem_of_paramStrings member
  exact nul_not_mem_of_jsonToArrayOfStrings (param_wellFormed wellFormed parsed there) read name
    listed

/-- The answer is JSON that says what the table holds exactly if every requested name can
    be a key and what is stored for it is JSON. -/
theorem getcomponents_says_iff {ec : Ec} {params : Json} {entity : UInt32} {components : List Text}
    (args : payecsGetcomponentsArgs params = .ok (entity, components)) :
    ∃ text, payecsGetcomponentsOut ec params = .ok text ∧
      (SaysMembers Json.Standard text
          (("entity".toList, .primitive (formatU entity.toNat)) ::
            components.map fun component => (component, ec.current entity component)) ↔
        ∀ component ∈ components, StandardName component ∧
          StandardText (ec.current entity component).jsonTokFull) := by
  have expected : jsonSpliceEntityComponents ec entity components =
      ("entity".toList, .primitive (formatU entity.toNat)) ::
        components.map fun component => (component, ec.current entity component) := by
    simp only [jsonSpliceEntityComponents, ecGetComponent_eq]
  have word : StandardName "entity".toList := forall_mem_of_all rfl
  have number : StandardText (Json.primitive (formatU entity.toNat)).jsonTokFull :=
    ⟨_, .formatU _, rfl⟩
  refine ⟨payecsGetcomponentsText ec entity components, by rw [payecsGetcomponentsOut, args]; rfl, ?_⟩
  rw [payecsGetcomponentsText_eq, expected, saysMembers_standard_iff (List.cons_ne_nil _ _),
    List.forall_mem_cons, List.forall_mem_map]
  exact and_iff_right ⟨word, number⟩

/-- Ask for one component of entity 1, given as a string literal. -/
def oneComponentParams (raw : Text) : Json :=
  .tight [("entity".toList, .primitive (formatU 1)), ("components".toList, .string raw)]

theorem oneComponentParams_wellFormed {raw : Text} (text : StringText raw) :
    (oneComponentParams raw).WellFormed := by
  have entity : StringText "entity".toList := .of_plain rfl
  have components : StringText "components".toList := .of_plain rfl
  exact .tight (List.forall_mem_cons.mpr ⟨entity, List.forall_mem_singleton.mpr components⟩)
    (List.forall_mem_cons.mpr ⟨.formatU 1, List.forall_mem_singleton.mpr (.string text)⟩)

/-- A component `a` with the value 7 is printed as such. -/
theorem getcomponents_says_plain_name :
    ∃ text, payecsGetcomponentsOut (ecSetComponent ecNew 1 "a".toList
        (some (.primitive (formatU 7)))) (oneComponentParams "a".toList) = .ok text ∧
      SaysMembers Json.Standard text
        [("entity".toList, .primitive (formatU 1)), ("a".toList, .primitive (formatU 7))] := by
  have args : payecsGetcomponentsArgs (oneComponentParams "a".toList) = .ok (1, ["a".toList]) := rfl
  obtain ⟨text, written, told⟩ := @getcomponents_says_iff (ecSetComponent ecNew 1 "a".toList
    (some (.primitive (formatU 7)))) _ _ _ args
  refine ⟨text, written, told.mpr (List.forall_mem_singleton.mpr ⟨forall_mem_of_all rfl, ?_⟩)⟩
  exact ⟨.primitive (formatU 7), .formatU 7, rfl⟩

/-- The names `a"b`, and `a` and `b` with a tab between them, spoil the text. -/
theorem getcomponents_quoted_name :
    (∃ text, payecsGetcomponentsOut ecNew (oneComponentParams (jsonEscape "a\"b".toList)) =
        .ok text ∧
      ¬ SaysMembers Json.Standard text
        [("entity".toList, .primitive (formatU 1)), ("a\"b".toList, nullDatum)]) ∧
    ∃ text, payecsGetcomponentsOut ecNew (oneComponentParams (jsonEscape "a\tb".toList)) =
        .ok text ∧
      ¬ SaysMembers Json.Standard text
        [("entity".toList, .primitive (formatU 1)), ("a\tb".toList, nullDatum)] := by
  have spoiled : ∀ name : Text, payecsGetcomponentsArgs (oneComponentParams (jsonEscape name)) =
      .ok (1, [name]) → ¬ StandardName name → ∃ text,
      payecsGetcomponentsOut ecNew (oneComponentParams (jsonEscape name)) = .ok text ∧
      ¬ SaysMembers Json.Standard text
        [("entity".toList, .primitive (formatU 1)), (name, nullDatum)] := by
    intro name args strange
    refine ⟨payecsGetcomponentsText ecNew 1 [name], by rw [payecsGetcomponentsOut, args]; rfl, ?_⟩
    intro told
    rw [payecsGetcomponentsText_eq] at told
    have names := (saysMembers_standard_iff (List.cons_ne_nil _ _)).mp told
    exact strange (names (name, nullDatum) (List.mem_cons_of_mem _ (List.mem_singleton.mpr rfl))).1
  constructor
  · exact spoiled _ rfl fun plain => (plain '"' (by decide)).1 rfl
  · exact spoiled _ rfl fun plain => absurd (plain '\t' (by decide)).2.2 (by decide)

end Payz
