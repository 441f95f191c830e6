import Payz.Ecs.Cells
import Payz.Payecs.Clients
import Payz.Payecs.Getcomponents

/-! # Reading back what was written

The key of a component is taken raw when it is written, and a name is unescaped when it is
asked for; that both are the same comes of the check that refuses keys with escapes.  The
last specification that mentions a component decides, and in it the first member.
-/

namespace Payz

/-- The items of an array; anything else counts as an array of one. -/
def Json.asArray : Json → List Json
  | .array _ elems => elems
  | j => [j]

/-- What `param` hands out for the parameter at this place. -/
def paramAt (params : List Param) (tokens : Json) (i : Nat) : Option Json :=
  match param params tokens with
  | .error _ => none
  | .ok values => values.getD i none

theorem paramAt_eq {params : List Param} {tokens : Json} {i : Nat} {tok : Json}
    (there : paramAt params tokens i = some tok) :
    ∃ values, param params tokens = .ok values ∧ values[i]? = some (some tok) := by
  unfold paramAt at there
  split at there
  · cases there
  · next values parsed =>
      refine ⟨values, parsed, ?_⟩
      rw [List.getD_eq_getElem?_getD] at there
      cases found : values[i]? with
      | none => simp [found] at there
      | some value => simpa [found] using there

/-- What a specification writes: the value of the first member, if it is for the entity. -/
def mentioned (entity : UInt32) (component : Text) (j : Json) : Option Json :=
  (jsonToPayecsWritespec j).bind fun spec =>
    if spec.entity = entity then j.jsonGetMember component else none

/-- The value in the last of these specifications that mentions the component. -/
def lastMentioned (specs : List Json) (entity : UInt32) (component : Text) : Option Json :=
  (specs.filterMap (mentioned entity component)).getLast?

/-! ## Reading lists -/

theorem getElem?_of_mapM {α β : Type} {f : α → Option β} {items : List α} {results : List β}
    (read : items.mapM f = some results) {i : Nat} {item : α} (there : items[i]? = some item) :
    ∃ result, results[i]? = some result ∧ f item = some result := by
  induction items generalizing results i with
  | nil => simp at there
  | cons first items ih =>
      simp only [List.mapM_cons, Option.pure_def, Option.bind_eq_bind, Option.bind_eq_some_iff,
        Option.some.injEq] at read
      obtain ⟨value, now, rest, later, rfl⟩ := read
      cases i with
      | zero =>
          cases there
          exact ⟨value, rfl, now⟩
      | succ i => exact ih later there

theorem filterMap_of_mapM {α β γ : Type} {f : α → Option β} {g : β → Option γ} {h : α → Option γ}
    {items : List α} {results : List β} (read : items.mapM f = some results)
    (same : ∀ item ∈ items, ∀ result, f item = some result → g result = h item) :
    results.filterMap g = items.filterMap h := by
  induction items generalizing results with
  | nil =>
      cases read
      rfl
  | cons item items ih =>
      simp only [List.mapM_cons, Option.pure_def, Option.bind_eq_bind, Option.bind_eq_some_iff,
        Option.some.injEq] at read
      obtain ⟨value, now, rest, later, rfl⟩ := read
      rw [List.forall_mem_cons] at same
      rw [List.filterMap_cons, List.filterMap_cons, same.1 value now, ih later same.2]

theorem mapM_singleton {α β : Type} (f : α → Option β) (a : α) :
    [a].mapM f = (f a).map fun b => [b] := by
  rw [List.mapM_cons]
  cases f a with
  | none => rfl
  | some b => rfl

theorem jsonToPayecsWritespecs_eq (tok : Json) :
    jsonToPayecsWritespecs tok = tok.asArray.mapM jsonToPayecsWritespec := by
  cases tok with
  | array => rfl
  | primitive | string | object =>
      rw [Json.asArray, mapM_singleton]
      · rfl
      · nofun

theorem jsonToArrayOfStrings_eq (tok : Json) :
    jsonToArrayOfStrings tok = tok.asArray.mapM jsonToString := by
  cases tok with
  | array => rfl
  | primitive | string | object =>
      rw [Json.asArray, mapM_singleton]
      · rfl
      · nofun

/-! ## What is written -/

theorem cell_of_writes_not_exact {i : Nat} {ec ec' : Ec} {writes : List PayecsWritespec}
    (run : payecsSetcomponentsWrites i ec writes = .ok ec')
    (notExact : ∀ w ∈ writes, w.exact = false) (entity : UInt32) (component : Text) :
    ec'.cell entity component = overlay writes entity component (ec.cell entity component) := by
  induction writes generalizing i ec with
  | nil =>
      cases run
      rfl
  | cons w writes ih =>
      rw [List.forall_mem_cons] at notExact
      rw [payecsSetcomponentsWrites, payecsSetcomponentsWrite1, notExact.1,
        if_neg Bool.false_ne_true] at run
      rw [ih run notExact.2, cell_payecsSetcomponentsWrite]
      rfl

/-- What a parsed specification writes to a component. -/
def PayecsWritespec.value (w : PayecsWritespec) (entity : UInt32) (component : Text) : Option Json :=
  if w.entity = entity then w.components[component]? else none

/-- The last specification that lists a component decides what becomes of it. -/
theorem overlay_eq_last (writes : List PayecsWritespec) (entity : UInt32) (component : Text)
    (start : Option Json) :
    overlay writes entity component start =
      (writes.filterMap fun w => w.value entity component).getLast?.elim start
        fun value => attached (some value) := by
  induction writes using List.reverseRecOn with
  | nil => rfl
  | append_singleton writes w ih =>
      rw [overlay] at ih ⊢
      rw [List.foldl_append, List.foldl_cons, List.foldl_nil, ih, List.filterMap_append]
      by_cases same : w.entity = entity
      · cases listed : w.components[component]? with
        | none => simp [PayecsWritespec.value, same, listed]
        | some value => simp [PayecsWritespec.value, same, listed]
      · simp [PayecsWritespec.value, same]

/-- In a specification that is accepted, the first member of a component counts. -/
theorem value_of_accepted {j : Json} {spec : PayecsWritespec}
    (accepted : jsonToPayecsWritespec j = some spec) (entity : UInt32) {component : Text}
    (notEntity : component ≠ "entity".toList) (notExact : component ≠ "exact".toList) :
    spec.value entity component = mentioned entity component j := by
  have first : spec.components[component]? = j.jsonGetMember component := by
    rw [(jsonToPayecsWritespec_listed accepted).2]
    cases j with
    | primitive | string | array => rfl
    | object text members =>
        have named : ∀ m : Text × Json, m.1 = component → isComponent m = true := by
          rintro m rfl
          rw [isComponent, Bool.and_eq_true, bne_iff_ne, bne_iff_ne]
          exact ⟨notEntity, notExact⟩
        rw [listedMembers, List.find?_filter, Json.jsonGetMember]
        congr 2
        funext m
        by_cases same : m.1 = component
        · simp [same, named m same]
        · simp [same]
  rw [PayecsWritespec.value, mentioned, accepted, Option.bind_some, first]

/-- After a request without `exact` that succeeds, the value that was mentioned last is there. -/
theorem current_of_setcomponents {ec ec' : Ec} {params tok : Json}
    (succeeded : payecsSetcomponents ec params = .ok (ec', .success []))
    (writes : paramAt payecsSetcomponentsParams params 0 = some tok)
    (withoutExact : ∀ j ∈ tok.asArray, ∀ spec, jsonToPayecsWritespec j = some spec →
      spec.exact = false) {entity : UInt32} {component : Text} {v : Json}
    (notEntity : component ≠ "entity".toList) (notExact : component ≠ "exact".toList)
    (last : lastMentioned tok.asArray entity component = some v) :
    ec'.current entity component = if v.jsonTokIsNull then nullDatum else v := by
  obtain ⟨values, parsed, first⟩ := paramAt_eq writes
  obtain ⟨p, here, accepts⟩ := param_accepts parsed 0 tok first
  cases here
  obtain ⟨specs, read⟩ := Option.isSome_iff_exists.mp accepts
  cases args : payecsSetcomponentsArgs params with
  | error fail => simp [payecsSetcomponents, args] at succeeded
  | ok both =>
      obtain ⟨listed, expected⟩ := both
      have same : specs = listed := by
        rw [payecsSetcomponentsArgs, parsed] at args
        have heads := congrArg Prod.fst (Except.ok.inj args)
        simpa [first, read] using heads
      subst same
      rw [payecsSetcomponents, args] at succeeded
      obtain ⟨-, -, failed⟩ | ⟨-, run, -⟩ := payecsSetcomponentsRun_cases succeeded
      · cases failed
      · rw [jsonToPayecsWritespecs_eq] at read
        have notExact' : ∀ w ∈ specs, w.exact = false := by
          intro w member
          obtain ⟨j, there, single⟩ := mem_of_mapM_eq_some read member
          exact withoutExact j there w single
        have values' := filterMap_of_mapM read (g := fun w => w.value entity component)
          (h := mentioned entity component)
          fun j _ spec accepted => value_of_accepted accepted entity notEntity notExact
        rw [Ec.current, cell_of_writes_not_exact run notExact', overlay_eq_last, values',
          ← lastMentioned, last, Option.elim_some, attached_some]
        split_ifs with null
        · rfl
        · rfl

theorem member_of_last {specs : List Json} {entity : UInt32} {component : Text} {v : Json}
    (notEntity : component ≠ "entity".toList) (notExact : component ≠ "exact".toList)
    (last : lastMentioned specs entity component = some v) :
    ∃ j ∈ specs, (component, v) ∈ j.members ∧ ComponentName component := by
  obtain ⟨j, there, value⟩ := List.mem_filterMap.mp (List.mem_of_getLast? last)
  obtain ⟨spec, accepted, -⟩ := Option.bind_eq_some_iff.mp value
  rw [← value_of_accepted accepted entity notEntity notExact, PayecsWritespec.value] at value
  split_ifs at value
  exact ⟨j, there, jsonToPayecsWritespec_member accepted value⟩

theorem asArray_wellFormed {tok : Json} (wellFormed : tok.WellFormed) :
    ∀ j ∈ tok.asArray, j.WellFormed := by
  cases wellFormed with
  | array elems _ => exact elems
  | primitive text => exact List.forall_mem_singleton.mpr (.primitive text)
  | string text => exact List.forall_mem_singleton.mpr (.string text)
  | object keys values sep => exact List.forall_mem_singleton.mpr (.object keys values sep)

/-! ## What is read back -/

/-- What `payecs_getcomponents` answers for a component at this place of the request: its
    value has this text, in the result and, if the names and values are such that the result
    is JSON, for whoever reads it. -/
structure Returned (ec : Ec) (query : Json) (entity : UInt32) (names : List Text) (i : Nat)
    (component text : Text) : Prop where
  member : ∃ members value, payecsGetcomponents ec query = .success members ∧
    payecsGetcomponentsText ec entity names = (Json.tight members).jsonTokFull ∧
    members[i + 1]? = some (component, value) ∧ value.jsonTokFull = text
  whole : (∀ name ∈ names, '"' ∉ name ∧ '\\' ∉ name ∧ (ec.current entity name).WellFormed) →
    ∃ root value, jsonParseSimple (payecsGetcomponentsText ec entity names) = some root ∧
      root.jsonGetMember component = some value ∧ value.jsonTokFull = text

theorem jsonGetMember_listing (text : Text) (value : Text → Json) {names : List Text}
    {component : Text} (listed : component ∈ names) :
    Json.jsonGetMember (.object text (names.map fun name => (name, value name))) component =
      some (value component) := by
  induction names with
  | nil => cases listed
  | cons name names ih =>
      rw [List.map_cons, Json.jsonGetMember_object_cons]
      by_cases here : name = component
      · rw [if_pos here, here]
      · rw [if_neg here]
        exact ih ((List.mem_cons.mp listed).resolve_left (Ne.symm here))

theorem returned_of_listed {ec : Ec} {query : Json} (wellFormed : query.WellFormed)
    {entity : UInt32} {names : List Text}
    (args : payecsGetcomponentsArgs query = .ok (entity, names)) {i : Nat} {component : Text}
    (listed : names[i]? = some component) (notEntity : component ≠ "entity".toList) :
    Returned ec query entity names i component (ec.current entity component).jsonTokFull := by
  refine ⟨⟨_, ec.current entity component, by rw [payecsGetcomponents, args],
    payecsGetcomponentsText_eq ec entity names, ?_, rfl⟩, fun plain => ?_⟩
  · rw [jsonSpliceEntityComponents, List.getElem?_cons_succ, List.getElem?_map, listed,
      Option.map_some, ecGetComponent_eq]
  · have splice : jsonSpliceEntityComponents ec entity names =
        ("entity".toList, .primitive (formatU entity.toNat)) ::
          names.map fun name => (name, ec.current entity name) := by
      simp only [jsonSpliceEntityComponents, ecGetComponent_eq]
    have nul := payecsGetcomponentsArgs_nul wellFormed args
    have keys : ∀ m ∈ jsonSpliceEntityComponents ec entity names, StringText m.1 := by
      rw [splice, List.forall_mem_cons, List.forall_mem_map]
      exact ⟨.of_plain rfl, fun name member =>
        .of_notMem (plain name member).1 (plain name member).2.1 (nul name member)⟩
    have values : ∀ m ∈ jsonSpliceEntityComponents ec entity names, m.2.WellFormed := by
      rw [splice, List.forall_mem_cons, List.forall_mem_map]
      exact ⟨.formatU _, fun name member => (plain name member).2.2⟩
    refine ⟨Json.tight (jsonSpliceEntityComponents ec entity names), ec.current entity component,
      ?_, ?_, rfl⟩
    · rw [payecsGetcomponentsText_eq]
      exact jsonParseSimple_wellFormed (.tight keys values)
    · rw [splice, Json.tight, Json.jsonGetMember_object_cons, if_neg (Ne.symm notEntity)]
      exact jsonGetMember_listing _ _ (List.mem_of_getElem? listed)

theorem names_of_literals {query literals : Json} {entity : UInt32} {names : List Text} {i : Nat}
    {raw name : Text} (args : payecsGetcomponentsArgs query = .ok (entity, names))
    (asked : paramAt payecsGetcomponentsParams query 1 = some literals)
    (literal : literals.asArray[i]? = some (.string raw)) (read : jsonEscapeUnescape raw = some name) :
    names[i]? = some name := by
  obtain ⟨values, parsed, second⟩ := paramAt_eq asked
  obtain ⟨p, here, accepts⟩ := param_accepts parsed 1 literals second
  cases here
  obtain ⟨strings, all⟩ := Option.isSome_iff_exists.mp accepts
  have same : strings = names := by
    rw [payecsGetcomponentsArgs, parsed] at args
    have tails := congrArg Prod.snd (Except.ok.inj args)
    simpa [second, all] using tails
  subst same
  rw [jsonToArrayOfStrings_eq] at all
  obtain ⟨string, there, single⟩ := getElem?_of_mapM all literal
  cases read.symm.trans single
  exact there

theorem unescapes_of_plain {t : Text} (plain : jsonEscapeNeeded t = false) :
    jsonEscapeUnescape t = some t := by
  rw [unescapes_self_iff]
  intro member
  have here := List.any_eq_false.mp plain '\\' member
  simp at here

/-- What `payecs_setcomponents` has written comes back as it stood in the request: for the
    same literal in `components` the text of the value is returned, and that text is what the
    table has cut out of the request, wherever the value stood in it. -/
theorem write_then_read {ec ec' : Ec} {params tok : Json} (wellFormed : params.WellFormed)
    (succeeded : payecsSetcomponents ec params = .ok (ec', .success []))
    (writes : paramAt payecsSetcomponentsParams params 0 = some tok)
    (withoutExact : ∀ j ∈ tok.asArray, ∀ spec, jsonToPayecsWritespec j = some spec →
      spec.exact = false) {entity : UInt32} {component : Text} {v : Json}
    (notEntity : component ≠ "entity".toList) (notExact : component ≠ "exact".toList)
    (last : lastMentioned tok.asArray entity component = some v) :
    (∀ {query literals : Json} {names : List Text} {i : Nat}, query.WellFormed →
      payecsGetcomponentsArgs query = .ok (entity, names) →
      paramAt payecsGetcomponentsParams query 1 = some literals →
      literals.asArray[i]? = some (.string component) →
      Returned ec' query entity names i component v.jsonTokFull) ∧
    (∀ {input : Text} {root : Json} {request more rest : List JsmnTok} {t : JsmnTok} {fuel : Nat},
      Accepted input root request → t :: more <:+ request →
      validateJsmnDatum fuel input (t :: more) = some (v, rest) →
      tokIsNull input t = v.jsonTokIsNull ∧
        (ecCellNew component input t more).written = some v.jsonTokFull) := by
  refine ⟨?_, fun request inside read => ecCellNew_of_accepted component request inside read⟩
  intro query literals names i queryWellFormed args asked literal
  obtain ⟨j, there, member, name⟩ := member_of_last notEntity notExact last
  have valueWellFormed : v.WellFormed := by
    obtain ⟨values, parsed, first⟩ := paramAt_eq writes
    have specs := asArray_wellFormed (param_wellFormed wellFormed parsed (List.mem_of_getElem? first))
    exact (members_wellFormed (specs j there) _ member).2
  have current : (ec'.current entity component).jsonTokFull = v.jsonTokFull := by
    rw [current_of_setcomponents succeeded writes withoutExact notEntity notExact last]
    split_ifs with null
    · rw [(valueWellFormed.jsonTokIsNull_iff).mp null]
    · rfl
  have listed : names[i]? = some component :=
    names_of_literals args asked literal (unescapes_of_plain name.plain)
  rw [← current]
  exact returned_of_listed queryWellFormed args listed notEntity

def writesThrice : Json :=
  .tight [("writes".toList, .tightArray [
    .tight [("entity".toList, .primitive (formatU 1)), ("a".toList, .primitive (formatU 7))],
    .tight [("a".toList, .primitive (formatU 8)), ("entity".toList, .primitive (formatU 1)),
      ("a".toList, .primitive (formatU 9))]])]

theorem write_then_read_thrice :
    ∃ ec', payecsSetcomponents ecNew writesThrice = .ok (ec', .success []) ∧
      Returned ec' (oneComponentParams "a".toList) 1 ["a".toList] 0 "a".toList (formatU 8) := by
  have name : StringText "a".toList := .of_plain rfl
  have entity : StringText "entity".toList := .of_plain rfl
  have writes : StringText "writes".toList := .of_plain rfl
  have wellFormed : writesThrice.WellFormed := by
    refine .tight (List.forall_mem_singleton.mpr writes)
      (List.forall_mem_singleton.mpr (.tightArray (List.forall_mem_cons.mpr
        ⟨.tight ?_ ?_, List.forall_mem_singleton.mpr (.tight ?_ ?_)⟩)))
    · exact List.forall_mem_cons.mpr ⟨entity, List.forall_mem_singleton.mpr name⟩
    · exact List.forall_mem_cons.mpr ⟨.formatU 1, List.forall_mem_singleton.mpr (.formatU 7)⟩
    · exact List.forall_mem_cons.mpr ⟨name, List.forall_mem_cons.mpr ⟨entity,
        List.forall_mem_singleton.mpr name⟩⟩
    · exact List.forall_mem_cons.mpr ⟨.formatU 8, List.forall_mem_cons.mpr ⟨.formatU 1,
        List.forall_mem_singleton.mpr (.formatU 9)⟩⟩
  have withoutExact : ∀ j ∈ Json.asArray (.tightArray [
      .tight [("entity".toList, .primitive (formatU 1)), ("a".toList, .primitive (formatU 7))],
      .tight [("a".toList, .primitive (formatU 8)), ("entity".toList, .primitive (formatU 1)),
        ("a".toList, .primitive (formatU 9))]]),
      ∀ spec, jsonToPayecsWritespec j = some spec → spec.exact = false := by
    refine List.forall_mem_cons.mpr ⟨fun spec accepted => ?_,
      List.forall_mem_singleton.mpr fun spec accepted => ?_⟩
    · cases accepted
      rfl
    · cases accepted
      rfl
  obtain ⟨ec', succeeded⟩ :
      ∃ ec', payecsSetcomponents ecNew writesThrice = .ok (ec', .success []) := ⟨_, rfl⟩
  obtain ⟨returned, -⟩ := @write_then_read ecNew ec' writesThrice _ wellFormed succeeded rfl
    withoutExact 1 "a".toList (.primitive (formatU 8)) (by decide) (by decide) rfl
  exact ⟨ec', succeeded, @returned (oneComponentParams "a".toList) (.string "a".toList)
    ["a".toList] 0 (oneComponentParams_wellFormed name) rfl rfl rfl⟩

end Payz
