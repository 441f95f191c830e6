import Payz.Ecs.Advance
import Payz.Json.Escape
import Payz.Top

/-! # Advancing an entity and giving it systems

`payecs_advance` and `payecs_setdefaultsystems` of `plugins/payz/payecs_code.c`.
-/

namespace Payz

open Layout

def payecsAdvanceParams : List Param := [paramNumber "entity" true]

def payecsAdvanceArgs (params : Json) : Except CommandFail UInt32 :=
  (param payecsAdvanceParams params).map fun values =>
    ((values.getD 0 none).bind Json.jsonToNumber).getD 0

/-- `payecs_advance` with `payecs_advance_ok` and `payecs_advance_ng`, which looks the
    message up in the component. -/
def payecsAdvance (systems : SystemMap) (ec : Ec) (params : Json) :
    Except Fault (Advanced × Reply) :=
  match payecsAdvanceArgs params with
  | .error fail => .ok (⟨ec, [], none⟩, .fail fail.1 fail.2)
  | .ok entity =>
      match ecsysAdvance systems ec entity with
      | .error fault => .error fault
      | .ok advanced =>
          match advanced.error with
          | none => .ok (advanced, .success [])
          | some errcode =>
              match errorMessage advanced.ec entity with
              | none => .error .assertion
              | some message => .ok (advanced, .fail errcode message)

def payecsSetdefaultsystemsParams : List Param :=
  [paramNumber "entity" true, paramArrayOfStrings "prepend" false,
    paramArrayOfStrings "append" false]

/-- The parameters of `payecs_setdefaultsystems`: `entity`, `prepend` and `append`. -/
def payecsSetdefaultsystemsArgs (params : Json) :
    Except CommandFail (UInt32 × List Text × List Text) :=
  (param payecsSetdefaultsystemsParams params).map fun values =>
    (((values.getD 0 none).bind Json.jsonToNumber).getD 0,
      ((values.getD 1 none).bind jsonToArrayOfStrings).getD [],
      ((values.getD 2 none).bind jsonToArrayOfStrings).getD [])

def addStrings (js : JsonOut) (strings : List Text) : JsonOut :=
  strings.foldl (fun js s => jsonAddString js none s) js

/-- The array that `payecs_setdefaultsystems` writes, with the names spliced in by
    `json_splice_default_systems`. -/
def setdefaultsystemsText (prepend append : List Text) : Text :=
  let js := jsonOutStart jsonOutNew none '['
  let js := addStrings js prepend
  let js := addStrings js defaultSystems
  let js := addStrings js append
  (jsonOutEnd js ']').outbuf

def payecsSetdefaultsystems (systems : SystemMap) (ec : Ec) (params : Json) :
    Except Fault (Ec × Reply) :=
  match payecsSetdefaultsystemsArgs params with
  | .error fail => .ok (ec, .fail fail.1 fail.2)
  | .ok (entity, prepend, append) =>
      match (prepend ++ append).find? fun system => system ∉ systems.map with
      | some system =>
          .ok (ec, .fail jsonrpc2InvalidParams ("Unregistered system: ".toList ++ system))
      | none =>
          match jsonParseSimple (setdefaultsystemsText prepend append) with
          | none => .error .outOfBounds
          | some newcomptok =>
              (payzGenericSetsystemsTok ec entity "systems".toList (some newcomptok)).map fun ec =>
                (ec, .success [])

/-! ## What `payecs_advance` does -/

/-- The answer to an advance that came to this. -/
def advanceReply (done : Advanced) (entity : UInt32) : Reply :=
  match done.error with
  | none => .success []
  | some errcode => .fail errcode ((errorMessage done.ec entity).getD [])

theorem payecsAdvance_reply (systems : SystemMap) {ec : Ec} (data : ec.All Json.WellFormed)
    {params : Json} {entity : UInt32} (args : payecsAdvanceArgs params = .ok entity) :
    payecsAdvance systems ec params =
      .ok (advanceSpec systems ec entity, advanceReply (advanceSpec systems ec entity) entity) := by
  simp only [payecsAdvance, args, ecsysAdvance_eq systems data, advanceReply]
  rcases advanceSpec_cases systems ec entity with ⟨code, msg, same⟩ | ⟨_, _, _, _, _, same⟩
  · simp only [same, errorMessage_afterError]
    rfl
  · simp only [same]

theorem payecsAdvance_eq (systems : SystemMap) {ec : Ec} (data : ec.All Json.WellFormed)
    {params : Json} {entity : UInt32} (args : payecsAdvanceArgs params = .ok entity) :
    ∃ reply, payecsAdvance systems ec params = .ok (advanceSpec systems ec entity, reply) :=
  ⟨_, payecsAdvance_reply systems data args⟩

def entityParams (entity : UInt32) : Json :=
  .tight [("entity".toList, .primitive (formatU entity.toNat))]

theorem entityParams_wellFormed (entity : UInt32) : (entityParams entity).WellFormed := by
  have key : StringText "entity".toList := .of_plain rfl
  exact .tight (List.forall_mem_singleton.mpr key) (List.forall_mem_singleton.mpr (.formatU _))

theorem payecsAdvanceArgs_entityParams (entity : UInt32) :
    payecsAdvanceArgs (entityParams entity) = .ok entity := by
  have number : (Json.primitive (formatU entity.toNat)).jsonToNumber = some entity :=
    Json.jsonToU32_formatU entity
  simp [payecsAdvanceArgs, payecsAdvanceParams, entityParams, Json.tight, param, parseNames,
    paramNumber, makeCallback, number, postCheck, Except.map]

/-! ## What `payecs_setdefaultsystems` does -/

/-- The array of these strings, as the writer produces it. -/
def stringArray (strings : List Text) : Json :=
  .array ('[' :: (commas (strings.map fun s => (Json.string (jsonEscape s)).jsonTokFull) ++ [']']))
    (strings.map fun s => .string (jsonEscape s))

theorem stringArray_wellFormed (strings : List Text) : (stringArray strings).WellFormed := by
  have texts : CommaSep (fun e s => s = Json.jsonTokFull e)
      (strings.map fun s => .string (jsonEscape s))
      (commas ((strings.map fun s => Json.string (jsonEscape s)).map Json.jsonTokFull)) :=
    .tight Json.jsonTokFull fun _ _ => rfl
  rw [List.map_map] at texts
  refine .array ?_ texts
  intro e member
  obtain ⟨s, -, rfl⟩ := List.mem_map.mp member
  exact .string (stringText_jsonEscape s)

/-- A name that is read as it was written. -/
def Writable (name : Text) : Prop := name.any escapesLong = false

theorem jsonToString_jsonEscape {name : Text} (writable : Writable name) :
    jsonToString (.string (jsonEscape name)) = some name := by
  show jsonEscapeUnescape (jsonEscape name) = some name
  rw [jsonEscapeUnescape_jsonEscape, writable]
  rfl

theorem mapM_jsonToString_jsonEscape {names : List Text} (writable : ∀ name ∈ names, Writable name) :
    (names.map fun s => Json.string (jsonEscape s)).mapM jsonToString = some names := by
  induction names with
  | nil => rfl
  | cons name names ih =>
      rw [List.forall_mem_cons] at writable
      simp [jsonToString_jsonEscape writable.1, ih writable.2]

theorem jsonToArrayOfStrings_stringArray {names : List Text}
    (writable : ∀ name ∈ names, Writable name) :
    jsonToArrayOfStrings (stringArray names) = some names :=
  mapM_jsonToString_jsonEscape writable

theorem writable_defaultSystems : ∀ name ∈ defaultSystems, Writable name := by
  have all : defaultSystems.all (fun name => !name.any escapesLong) = true := by decide +kernel
  intro name member
  have plain := List.all_eq_true.mp all name member
  rwa [Bool.not_eq_true'] at plain

structure WritingStrings (js : JsonOut) (strings : List Text) : Prop where
  outbuf : js.outbuf = '[' :: commas (strings.map fun s =>
    (Json.string (jsonEscape s)).jsonTokFull)
  empty : js.empty = strings.isEmpty

theorem WritingStrings.addStrings {js : JsonOut} {written : List Text}
    (writing : WritingStrings js written) (strings : List Text) :
    WritingStrings (addStrings js strings) (written ++ strings) := by
  induction strings generalizing js written with
  | nil => simpa [Payz.addStrings] using writing
  | cons s strings ih =>
      have next : WritingStrings (jsonAddString js none s) (written ++ [s]) := by
        constructor
        · simp [jsonAddString_eq, jsonAddTok, jsonOutMemberDirect, writing.outbuf, writing.empty,
            commas_snoc, List.isEmpty_iff]
        · simp [jsonAddString_eq, jsonAddTok, jsonOutMemberDirect]
      simpa [Payz.addStrings] using ih next

theorem jsonParseSimple_setdefaultsystemsText (prepend append : List Text) :
    jsonParseSimple (setdefaultsystemsText prepend append) =
      some (stringArray (prepend ++ defaultSystems ++ append)) := by
  have start : WritingStrings (jsonOutStart jsonOutNew none '[') [] := ⟨rfl, rfl⟩
  have whole := ((start.addStrings prepend).addStrings defaultSystems).addStrings append
  have text : setdefaultsystemsText prepend append =
      (stringArray (prepend ++ defaultSystems ++ append)).jsonTokFull := by
    simp only [setdefaultsystemsText, jsonOutEnd, whole.outbuf]
    rfl
  rw [text, jsonParseSimple_wellFormed (stringArray_wellFormed _)]

def withSystems (ec : Ec) (entity : UInt32) (names : List Text) : Ec :=
  ecSetComponent ec entity syscomp (some
    ((ec.current entity syscomp).withMember "systems".toList (some (stringArray names))))

/-- A call fails on a name that is not registered, and otherwise writes the names. -/
theorem payecsSetdefaultsystems_eq (systems : SystemMap) {ec : Ec} (data : ec.All Json.WellFormed)
    {params : Json} {entity : UInt32} {prepend append : List Text}
    (args : payecsSetdefaultsystemsArgs params = .ok (entity, prepend, append)) :
    payecsSetdefaultsystems systems ec params =
      .ok (match (prepend ++ append).find? fun system => system ∉ systems.map with
        | some system =>
            (ec, .fail jsonrpc2InvalidParams ("Unregistered system: ".toList ++ system))
        | none => (withSystems ec entity (prepend ++ defaultSystems ++ append), .success [])) := by
  simp only [payecsSetdefaultsystems, args]
  cases (prepend ++ append).find? fun system => system ∉ systems.map with
  | some system => rfl
  | none =>
      simp only [jsonParseSimple_setdefaultsystemsText]
      rw [payzGenericSetsystemsTok_eq data entity (.of_plain rfl)]
      · rfl
      · rintro v same
        cases same
        exact stringArray_wellFormed _

theorem payecsSetdefaultsystems_cases {systems : SystemMap} {ec ec' : Ec} {reply : Reply}
    (data : ec.All Json.WellFormed) {params : Json}
    (ran : payecsSetdefaultsystems systems ec params = .ok (ec', reply)) :
    ec' = ec ∨ ∃ entity prepend append,
      payecsSetdefaultsystemsArgs params = .ok (entity, prepend, append) ∧
        ec' = withSystems ec entity (prepend ++ defaultSystems ++ append) := by
  cases args : payecsSetdefaultsystemsArgs params with
  | error fail =>
      simp only [payecsSetdefaultsystems, args, Except.ok.injEq, Prod.mk.injEq] at ran
      exact .inl ran.1.symm
  | ok call =>
      obtain ⟨entity, prepend, append⟩ := call
      rw [payecsSetdefaultsystems_eq systems data args] at ran
      cases found : (prepend ++ append).find? fun system => system ∉ systems.map with
      | some system =>
          simp only [found, Except.ok.injEq, Prod.mk.injEq] at ran
          exact .inl ran.1.symm
      | none =>
          simp only [found, Except.ok.injEq, Prod.mk.injEq] at ran
          exact .inr ⟨entity, prepend, append, rfl, ran.1.symm⟩

end Payz
