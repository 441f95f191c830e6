import Payz.Json.Out

/-! # Command parameters

`common/param.c`, the callbacks the plugin's commands use, and what a command
answers.  Parameters come by position or by name; a callback may refuse its token.
-/

namespace Payz

/-- What a command returns: a result object, given by its members, or a JSON-RPC
    error. -/
inductive Reply where
  | success (result : List (Text × Json))
  | fail (code : Int) (message : Text)
  deriving DecidableEq, Repr

/-- A failed command: code and message. -/
abbrev CommandFail : Type := Int × Text

def jsonrpc2InvalidParams : Int := -32602

def commandFailBadparam (paramname : Text) (tok : Json) (msg : Text) : CommandFail :=
  (jsonrpc2InvalidParams,
    paramname ++ ": ".toList ++ msg ++ ": invalid token '".toList ++ tok.jsonTokFull ++ "'".toList)

/-- `struct param`: the callback is given by what it accepts and by its complaint
    about anything else. -/
structure Param where
  name : Text
  required : Bool
  accepts : Json → Bool
  complaint : Text

def makeCallback (p : Param) (tok : Json) : Except CommandFail Unit :=
  if p.accepts tok then .ok () else .error (commandFailBadparam p.name tok p.complaint)

/-- `post_check`, which stops at the first optional parameter. -/
def postCheck : List Param → List (Option Json) → Except CommandFail Unit
  | p :: params, value :: values =>
      if p.required then
        if value.isNone then
          .error (jsonrpc2InvalidParams, "missing required parameter: ".toList ++ p.name)
        else postCheck params values
      else .ok ()
  | _, _ => .ok ()

/-- The loop of `parse_by_position`: a `null` stands for a parameter left out. -/
def parsePositions (got expected : Nat) :
    List Param → List Json → Except CommandFail (List (Option Json))
  | params, [] => .ok (params.map fun _ => none)
  | [], _ :: _ =>
      .error (jsonrpc2InvalidParams, "too many parameters: got ".toList ++ formatU got ++
        ", expected ".toList ++ formatU expected)
  | p :: params, tok :: toks =>
      if tok.jsonTokIsNull then (parsePositions got expected params toks).map (none :: ·)
      else
        match makeCallback p tok with
        | .error fail => .error fail
        | .ok () => (parsePositions got expected params toks).map (some tok :: ·)

/-- The loop of `parse_by_name`. -/
def parseNames (params : List Param) :
    List (Text × Json) → List (Option Json) → Except CommandFail (List (Option Json))
  | [], values => .ok values
  | (key, tok) :: members, values =>
      match params.findIdx? (fun p => p.name == key) with
      | none =>
          .error (jsonrpc2InvalidParams, "unknown parameter: ".toList ++ key ++
            (", this may be caused by a failure to autodetect key=value-style parameters. " ++
              "Please try using the -k flag and explicit key=value pairs of parameters.").toList)
      | some i =>
          if (values[i]?.getD none).isSome then
            .error (jsonrpc2InvalidParams, "duplicate json names: ".toList ++ key)
          else
            match params[i]? with
            | none => parseNames params members values
            | some p =>
                match makeCallback p tok with
                | .error fail => .error fail
                | .ok () => parseNames params members (values.set i (some tok))

/-- `param`: the token of each parameter, `none` where it was left out. -/
def param (params : List Param) (tokens : Json) : Except CommandFail (List (Option Json)) :=
  let parsed :=
    match tokens with
    | .array _ toks => parsePositions toks.length params.length params toks
    | .object _ members => parseNames params members (params.map fun _ => none)
    | _ => .error (jsonrpc2InvalidParams, "Expected array or object for params".toList)
  match parsed with
  | .error fail => .error fail
  | .ok values => (postCheck params values).map fun _ => values

/-- One string of an array of strings. -/
def jsonToString : Json → Option Text
  | .string raw => jsonEscapeUnescape raw
  | _ => none

/-- `json_to_array_of_strings`: a single string counts as an array of one. -/
def jsonToArrayOfStrings : Json → Option (List Text)
  | .string raw => (jsonEscapeUnescape raw).map fun s => [s]
  | .array _ elems => elems.mapM jsonToString
  | _ => none

/-- A parameter read by `param_array_of_strings`. -/
def paramArrayOfStrings (name : String) (required : Bool) : Param where
  name := name.toList
  required := required
  accepts tok := (jsonToArrayOfStrings tok).isSome
  complaint := "should be an array of strings.".toList

/-- A parameter read by `param_number`. -/
def paramNumber (name : String) (required : Bool) : Param where
  name := name.toList
  required := required
  accepts tok := tok.jsonToNumber.isSome
  complaint := "should be an integer".toList

/-- A parameter read by `param_string`, which takes the raw text of any token. -/
def paramString (name : String) (required : Bool) : Param where
  name := name.toList
  required := required
  accepts _ := true
  complaint := []

/-! ## Where the tokens come from -/

theorem accepts_of_makeCallback {p : Param} {tok : Json} (called : makeCallback p tok = .ok ()) :
    p.accepts tok = true := by
  unfold makeCallback at called
  split_ifs at called with accepted
  exact accepted

theorem parsePositions_cons {got expected : Nat} {params : List Param} {tok : Json}
    {toks : List Json} {values : List (Option Json)}
    (parsed : parsePositions got expected params (tok :: toks) = .ok values) :
    ∃ p params' value values', params = p :: params' ∧ values = value :: values' ∧
      parsePositions got expected params' toks = .ok values' ∧
      (value = none ∨ value = some tok ∧ p.accepts tok = true) := by
  cases params with
  | nil => simp [parsePositions] at parsed
  | cons p params =>
      rw [parsePositions] at parsed
      split_ifs at parsed
      · obtain ⟨rest, run, rfl⟩ := eq_of_map_eq_ok parsed
        exact ⟨p, params, none, rest, rfl, rfl, run, .inl rfl⟩
      · cases called : makeCallback p tok with
        | error fail => simp [called] at parsed
        | ok _ =>
            simp only [called] at parsed
            obtain ⟨rest, run, rfl⟩ := eq_of_map_eq_ok parsed
            exact ⟨p, params, some tok, rest, rfl, rfl, run,
              .inr ⟨rfl, accepts_of_makeCallback called⟩⟩

theorem parseNames_cons {params : List Param} {m : Text × Json} {members : List (Text × Json)}
    {before values : List (Option Json)}
    (parsed : parseNames params (m :: members) before = .ok values) :
    ∃ now, parseNames params members now = .ok values ∧
      (now = before ∨ ∃ i p, params[i]? = some p ∧ p.accepts m.2 = true ∧
        now = before.set i (some m.2)) := by
  rw [parseNames] at parsed
  cases known : params.findIdx? (fun p => p.name == m.1) with
  | none =>
      rw [known] at parsed
      cases parsed
  | some i =>
      rw [known] at parsed
      dsimp only at parsed
      split_ifs at parsed
      cases there : params[i]? with
      | none =>
          simp only [there] at parsed
          exact ⟨before, parsed, .inl rfl⟩
      | some p =>
          simp only [there] at parsed
          cases called : makeCallback p m.2 with
          | error fail => simp [called] at parsed
          | ok _ =>
              simp only [called] at parsed
              exact ⟨_, parsed, .inr ⟨i, p, there, accepts_of_makeCallback called, rfl⟩⟩

/-- `param` goes through an array by position and through an object by name. -/
theorem param_cases {params : List Param} {tokens : Json} {values : List (Option Json)}
    (parsed : param params tokens = .ok values) :
    (∃ text toks, tokens = .array text toks ∧
      parsePositions toks.length params.length params toks = .ok values) ∨
    ∃ text members, tokens = .object text members ∧
      parseNames params members (params.map fun _ => none) = .ok values := by
  unfold param at parsed
  cases tokens with
  | primitive | string => simp at parsed
  | array text toks =>
      simp only at parsed
      split at parsed
      · cases parsed
      · next values' run =>
          obtain ⟨-, -, rfl⟩ := eq_of_map_eq_ok parsed
          exact .inl ⟨text, toks, rfl, run⟩
  | object text members =>
      simp only at parsed
      split at parsed
      · cases parsed
      · next values' run =>
          obtain ⟨-, -, rfl⟩ := eq_of_map_eq_ok parsed
          exact .inr ⟨text, members, rfl, run⟩

theorem parsePositions_mem {got expected : Nat} {params : List Param} {toks : List Json}
    {values : List (Option Json)} (parsed : parsePositions got expected params toks = .ok values)
    {tok : Json} (member : some tok ∈ values) : tok ∈ toks := by
  induction toks generalizing params values with
  | nil =>
      cases params <;> cases parsed <;> simp at member
  | cons first toks ih =>
      obtain ⟨p, params, value, values, rfl, rfl, run, which⟩ := parsePositions_cons parsed
      rcases List.mem_cons.mp member with same | later
      · obtain none | ⟨taken, -⟩ := which
        · rw [none] at same
          cases same
        · cases same.trans taken
          exact List.mem_cons_self
      · exact List.mem_cons_of_mem _ (ih run later)

theorem parseNames_mem {params : List Param} {members : List (Text × Json)}
    {before values : List (Option Json)} (parsed : parseNames params members before = .ok values)
    {tok : Json} (member : some tok ∈ values) :
    some tok ∈ before ∨ ∃ m ∈ members, m.2 = tok := by
  induction members generalizing before with
  | nil =>
      cases parsed
      exact .inl member
  | cons m members ih =>
      obtain ⟨now, run, which⟩ := parseNames_cons parsed
      rcases ih run with old | ⟨m', later, same⟩
      · obtain rfl | ⟨i, p, -, -, rfl⟩ := which
        · exact .inl old
        · rcases List.mem_or_eq_of_mem_set old with old | new
          · exact .inl old
          · cases new
            exact .inr ⟨m, List.mem_cons_self, rfl⟩
      · exact .inr ⟨m', List.mem_cons_of_mem _ later, same⟩

theorem param_wellFormed {params : List Param} {tokens : Json} (wellFormed : tokens.WellFormed)
    {values : List (Option Json)} (parsed : param params tokens = .ok values) {tok : Json}
    (member : some tok ∈ values) : tok.WellFormed := by
  obtain ⟨text, toks, rfl, run⟩ | ⟨text, members, rfl, run⟩ := param_cases parsed
  · cases wellFormed with
    | array elems _ => exact elems tok (parsePositions_mem run member)
  · cases wellFormed with
    | object keys data _ =>
        rcases parseNames_mem run member with old | ⟨m, there, rfl⟩
        · simp at old
        · exact data m there

/-- Each value stands where a callback has accepted it. -/
def AllAccepted (params : List Param) (values : List (Option Json)) : Prop :=
  ∀ (i : Nat) tok, values[i]? = some (some tok) → ∃ p, params[i]? = some p ∧ p.accepts tok = true

theorem allAccepted_blank (params : List Param) :
    AllAccepted params (params.map fun _ => none) := by
  intro i tok there
  have blank := List.mem_of_getElem? there
  simp at blank

theorem allAccepted_of_parsePositions {got expected : Nat} {params : List Param} {toks : List Json}
    {values : List (Option Json)} (parsed : parsePositions got expected params toks = .ok values) :
    AllAccepted params values := by
  induction toks generalizing params values with
  | nil =>
      have blank : values = params.map fun _ => none := by
        cases params <;> cases parsed <;> rfl
      exact blank ▸ allAccepted_blank params
  | cons first toks ih =>
      obtain ⟨p, params, value, values, rfl, rfl, run, which⟩ := parsePositions_cons parsed
      intro i tok there
      cases i with
      | zero =>
          obtain rfl | ⟨rfl, accepted⟩ := which
          · cases there
          · cases there
            exact ⟨p, rfl, accepted⟩
      | succ i => exact ih run i tok (by simpa using there)

theorem allAccepted_of_parseNames {params : List Param} {members : List (Text × Json)}
    {before values : List (Option Json)} (parsed : parseNames params members before = .ok values)
    (all : AllAccepted params before) : AllAccepted params values := by
  induction members generalizing before with
  | nil =>
      cases parsed
      exact all
  | cons m members ih =>
      obtain ⟨now, run, rfl | ⟨i, p, there, accepted, rfl⟩⟩ := parseNames_cons parsed
      · exact ih run all
      · refine ih run fun j tok found => ?_
        rw [List.getElem?_set] at found
        split_ifs at found with same inside
        · cases found
          exact ⟨p, same ▸ there, accepted⟩
        · exact all j tok found

theorem param_accepts {params : List Param} {tokens : Json} {values : List (Option Json)}
    (parsed : param params tokens = .ok values) : AllAccepted params values := by
  obtain ⟨text, toks, -, run⟩ | ⟨text, members, -, run⟩ := param_cases parsed
  · exact allAccepted_of_parsePositions run
  · exact allAccepted_of_parseNames run (allAccepted_blank params)

/-- What a list of readings that all succeed holds was read from one of the items. -/
theorem mem_of_mapM_eq_some {α β : Type} {f : α → Option β} {items : List α} {results : List β}
    (read : items.mapM f = some results) {result : β} (member : result ∈ results) :
    ∃ item ∈ items, f item = some result := by
  induction items generalizing results with
  | nil =>
      cases read
      cases member
  | cons item items ih =>
      simp only [List.mapM_cons, Option.pure_def, Option.bind_eq_bind, Option.bind_eq_some_iff,
        Option.some.injEq] at read
      obtain ⟨first, here, rest, later, rfl⟩ := read
      rcases List.mem_cons.mp member with rfl | tail
      · exact ⟨item, List.mem_cons_self, here⟩
      · obtain ⟨other, there, same⟩ := ih later tail
        exact ⟨other, List.mem_cons_of_mem _ there, same⟩

theorem mem_of_paramStrings {values : List (Option Json)} {i : Nat} {name : Text}
    (member : name ∈ ((values.getD i none).bind jsonToArrayOfStrings).getD []) :
    ∃ tok names, some tok ∈ values ∧ jsonToArrayOfStrings tok = some names ∧ name ∈ names := by
  rw [List.getD_eq_getElem?_getD] at member
  cases found : values[i]? with
  | none => simp [found] at member
  | some value =>
      cases value with
      | none => simp [found] at member
      | some tok =>
          rw [found, Option.getD_some, Option.bind_some] at member
          cases read : jsonToArrayOfStrings tok with
          | none => simp [read] at member
          | some names =>
              rw [read, Option.getD_some] at member
              exact ⟨tok, names, List.mem_of_getElem? found, read, member⟩

end Payz
