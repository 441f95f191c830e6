import Payz.Ecs.Setsystems
import Payz.Payecs.Params

/-! # Systems and the advance of an entity

`plugins/payz/ecs/ecsys.c`.  An entity names in its `lightningd:systems` component the
systems that may work on it; advancing the entity invokes the first of them that
matches, by a notification that carries the components the system requires.
-/

namespace Payz

def payEcsInvalidSystemsComponent : Int := 2200

def payEcsNotAdvanceable : Int := 2201

structure EcsysRegistered where
  system : Text
  requiredComponents : List Text
  disallowedComponents : List Text
  deriving Repr, DecidableEq

/-- `system_map` of `struct ecsys`.  The key of an entry is its own `system`. -/
structure SystemMap where
  map : Std.ExtTreeMap Text EcsysRegistered
  keyed : ∀ {name : Text} {system : EcsysRegistered}, map[name]? = some system →
    system.system = name

/-- `ecsys_new`, as far as systems go. -/
def SystemMap.empty : SystemMap := ⟨∅, by simp⟩

/-- A `payecs_system_invoke` notification, by its parts.  Only its text is sent. -/
structure Notification where
  system : Text
  entity : UInt32
  components : List (Text × Json)
  deriving Repr, DecidableEq

/-- What `ecsys_advance` comes to: the notification it raises, or the error it hands to
    the error callback. -/
structure Advanced where
  ec : Ec
  emitted : List Notification
  error : Option Int

def systemMatches (ec : Ec) (entity : UInt32) (system : EcsysRegistered) : Bool :=
  !system.requiredComponents.isEmpty &&
  (system.requiredComponents.all fun component => (ecGetComponent ec entity component).1) &&
  (system.disallowedComponents.all fun component => !(ecGetComponent ec entity component).1)

/-- `run_system`, up to what it writes: the names and values are taken from the table. -/
def runSystem (ec : Ec) (entity : UInt32) (system : EcsysRegistered) : Notification where
  system := system.system
  entity := entity
  components := system.requiredComponents.map fun component =>
    (component, (ecGetComponent ec entity component).2)

/-- The `params` that `run_system` writes: the names are keys, as they are. -/
def runSystemText (n : Notification) : Text :=
  let js := jsonAddString (jsonOutStart jsonOutNew none '{') (some "system".toList) n.system
  let js := jsonAddU32 (jsonOutStart js (some "entity".toList) '{') (some "entity".toList) n.entity
  let js := n.components.foldl (fun js m => jsonAddTok js (some m.1) m.2) js
  (jsonOutEnd (jsonOutEnd js '}') '}').outbuf

def Advanced.sent (done : Advanced) : List Text := done.emitted.map runSystemText

/-- What lightningd hands back: it parses what was sent, and drops what is no JSON. -/
def Notification.delivered (n : Notification) : Option Json := jsonParseSimple (runSystemText n)

/-- The `error` member that `ecsys_advance_error` leaves. -/
def ecsysErrorText (code : Int) (msg : Text) : Text :=
  let jout := jsonOutStart jsonOutNew none '{'
  let jout := jsonOutAdd jout (some "code".toList) false (formatD code)
  let jout := jsonOutAdd jout (some "message".toList) true msg
  (jsonOutEnd jout '}').outbuf

/-- `ecsys_advance_error`.  Where the text of the error did not parse, `json_add_tok`
    would be given a null token. -/
def ecsysAdvanceError (ec : Ec) (entity : UInt32) (code : Int) (msg : Text) :
    Except Fault Advanced :=
  match jsonParseSimple (ecsysErrorText code msg) with
  | none => .error .outOfBounds
  | some error =>
      (payzGenericSetsystemsTok ec entity "error".toList (some error)).map fun ec =>
        ⟨ec, [], some code⟩

/-- The search of `ecsys_advance` for a system that matches. -/
inductive Search where
  | found (current : Nat) (system : EcsysRegistered)
  | unregistered (name : Text)
  | none

/-- The loop over the names, from index `i` on. -/
def searchSystem (systems : SystemMap) (ec : Ec) (entity : UInt32) : Nat → List Text → Search
  | _, [] => .none
  | i, name :: names =>
      match systems.map[name]? with
      | Option.none => .unregistered name
      | some system =>
          if systemMatches ec entity system then .found i system
          else searchSystem systems ec entity (i + 1) names

def ecsysAdvance (systems : SystemMap) (ec : Ec) (entity : UInt32) : Except Fault Advanced :=
  match payzGenericGetsystemsTal ec entity "systems".toList jsonToArrayOfStrings with
  | none =>
      ecsysAdvanceError ec entity payEcsInvalidSystemsComponent
        "Invalid `lightningd:systems`: invalid or absent `systems` field.".toList
  | some names =>
      match searchSystem systems ec entity 0 names with
      | .unregistered name =>
          ecsysAdvanceError ec entity payEcsInvalidSystemsComponent
            ("Invalid `lightningd:systems`: `systems` array contains unregistered system: ".toList ++
              name)
      | .none =>
          ecsysAdvanceError ec entity payEcsNotAdvanceable
            "No systems match, cannot advance.".toList
      | .found current system =>
          match jsonParseSimple (formatU current) with
          | none => .error .outOfBounds
          | some toks =>
              (payzGenericSetsystemsTok ec entity "current".toList (some toks)).map fun ec =>
                ⟨ec, [runSystem ec entity system], none⟩

/-- The message that `json_scan` finds at `error.message`. -/
def errorMessage (ec : Ec) (entity : UInt32) : Option Text :=
  (((ecGetComponent ec entity syscomp).2.jsonGetMember "error".toList).bind fun error =>
    error.jsonGetMember "message".toList).map Json.jsonStrdup

/-- `enum log_level`, as far as failures are logged with it. -/
inductive LogLevel where
  | unusual
  | broken
  deriving Repr, DecidableEq

/-- The line that `ecsys_err_wrap` logs.  It asserts that there is a message. -/
def ecsysErrWrap (ec : Ec) (entity : UInt32) (code : Int) : Except Fault (LogLevel × Text) :=
  match errorMessage ec entity with
  | none => .error .assertion
  | some msg =>
      .ok (if code = payEcsNotAdvanceable then .unusual else .broken,
        "entity ".toList ++ formatU entity.toNat ++ ": ".toList ++ msg)

/-- `ecsys_advance_done`: on an error the message is looked up, to be logged, and has to
    be there. -/
def ecsysAdvanceDone (systems : SystemMap) (ec : Ec) (entity : UInt32) : Except Fault Advanced :=
  match ecsysAdvance systems ec entity with
  | .error fault => .error fault
  | .ok advanced =>
      if advanced.error.isSome ∧ (errorMessage advanced.ec entity).isNone then .error .assertion
      else .ok advanced

/-! ## What is written -/

/-- The object a notification is sent as. -/
def Notification.payload (n : Notification) : Json :=
  .tight [("system".toList, .string (jsonEscape n.system)),
    ("entity".toList, .tight (("entity".toList, .primitive (formatU n.entity.toNat)) ::
      n.components))]

theorem writing_components (components : List (Text × Json)) {out : JsonOut} {before : Text}
    {written : List (Text × Json)} (writing : out.Writing before written) :
    (components.foldl (fun js m => jsonAddTok js (some m.1) m.2) out).Writing before
      (written ++ components) := by
  induction components generalizing out written with
  | nil => simpa using writing
  | cons m components ih => simpa using ih (writing.addTok m.1 m.2)

theorem runSystemText_eq (n : Notification) : runSystemText n = n.payload.jsonTokFull := by
  have system := JsonOut.Writing.start_root.addTok "system".toList (.string (jsonEscape n.system))
  rw [← jsonAddString_eq] at system
  have entity := (@JsonOut.Writing.start (jsonAddString (jsonOutStart jsonOutNew none '{')
    (some "system".toList) n.system) "entity".toList).addTok "entity".toList
      (.primitive (formatU n.entity.toNat))
  exact (system.nested (writing_components n.components entity)).finish

/-- Names that may stand between quotes are read back as they were written. -/
theorem Notification.payload_wellFormed {n : Notification}
    (names : ∀ m ∈ n.components, StringText m.1) (values : ∀ m ∈ n.components, m.2.WellFormed) :
    n.payload.WellFormed := by
  have word : StringText "entity".toList := .of_plain rfl
  refine .tight ?_ ?_
  · simp only [List.forall_mem_cons]
    exact ⟨.of_plain rfl, word, by simp⟩
  · simp only [List.forall_mem_cons]
    refine ⟨.string (stringText_jsonEscape _), .tight ?_ ?_, by simp⟩
    · exact List.forall_mem_cons.mpr ⟨word, names⟩
    · exact List.forall_mem_cons.mpr ⟨.formatU _, values⟩

theorem Notification.delivered_eq {n : Notification} (names : ∀ m ∈ n.components, StringText m.1)
    (values : ∀ m ∈ n.components, m.2.WellFormed) : n.delivered = some n.payload := by
  rw [delivered, runSystemText_eq, jsonParseSimple_wellFormed (n.payload_wellFormed names values)]

def ecsysError (code : Int) (msg : Text) : Json :=
  .tight [("code".toList, .primitive (formatD code)), ("message".toList, .string (jsonEscape msg))]

theorem ecsysError_wellFormed (code : Int) (msg : Text) : (ecsysError code msg).WellFormed := by
  refine .tight ?_ ?_
  · simp only [List.forall_mem_cons]
    exact ⟨.of_plain rfl, .of_plain rfl, by simp⟩
  · simp only [List.forall_mem_cons]
    exact ⟨.formatD _, .string (stringText_jsonEscape _), by simp⟩

theorem jsonParseSimple_ecsysErrorText (code : Int) (msg : Text) :
    jsonParseSimple (ecsysErrorText code msg) = some (ecsysError code msg) := by
  have writing := (JsonOut.Writing.start_root.addTok "code".toList
    (.primitive (formatD code))).addTok "message".toList (.string (jsonEscape msg))
  rw [← jsonAddString_eq] at writing
  have text : ecsysErrorText code msg = (ecsysError code msg).jsonTokFull := writing.finish
  rw [text, jsonParseSimple_wellFormed (ecsysError_wellFormed code msg)]

def afterError (ec : Ec) (entity : UInt32) (code : Int) (msg : Text) : Ec :=
  ecSetComponent ec entity syscomp (some
    ((ec.current entity syscomp).withMember "error".toList
      (some (ecsysError code msg))))

theorem ecsysAdvanceError_eq {ec : Ec} (data : ec.All Json.WellFormed) (entity : UInt32)
    (code : Int) (msg : Text) :
    ecsysAdvanceError ec entity code msg =
      .ok ⟨afterError ec entity code msg, [], some code⟩ := by
  have key : StringText "error".toList := .of_plain rfl
  simp only [ecsysAdvanceError, jsonParseSimple_ecsysErrorText]
  rw [payzGenericSetsystemsTok_eq data entity key]
  · rfl
  · rintro v same
    cases same
    exact ecsysError_wellFormed code msg

/-- The component after an advance to the system at index `current`. -/
def afterCurrent (ec : Ec) (entity : UInt32) (current : Nat) : Ec :=
  ecSetComponent ec entity syscomp (some
    ((ec.current entity syscomp).withMember "current".toList
      (some (.primitive (formatU current)))))

/-- What an advance comes to, as a function of the names in `systems`. -/
def advanceSpec (systems : SystemMap) (ec : Ec) (entity : UInt32) : Advanced :=
  match payzGenericGetsystemsTal ec entity "systems".toList jsonToArrayOfStrings with
  | none =>
      ⟨afterError ec entity payEcsInvalidSystemsComponent
        "Invalid `lightningd:systems`: invalid or absent `systems` field.".toList, [],
        some payEcsInvalidSystemsComponent⟩
  | some names =>
      match searchSystem systems ec entity 0 names with
      | .unregistered name =>
          ⟨afterError ec entity payEcsInvalidSystemsComponent
            ("Invalid `lightningd:systems`: `systems` array contains unregistered system: ".toList ++
              name), [], some payEcsInvalidSystemsComponent⟩
      | .none =>
          ⟨afterError ec entity payEcsNotAdvanceable "No systems match, cannot advance.".toList, [],
            some payEcsNotAdvanceable⟩
      | .found current system =>
          ⟨afterCurrent ec entity current,
            [runSystem (afterCurrent ec entity current) entity system], none⟩

theorem ecsysAdvance_eq (systems : SystemMap) {ec : Ec} (data : ec.All Json.WellFormed)
    (entity : UInt32) : ecsysAdvance systems ec entity = .ok (advanceSpec systems ec entity) := by
  unfold ecsysAdvance advanceSpec
  cases payzGenericGetsystemsTal ec entity "systems".toList jsonToArrayOfStrings with
  | none => exact ecsysAdvanceError_eq data entity _ _
  | some names =>
      simp only
      cases searchSystem systems ec entity 0 names with
      | unregistered name => exact ecsysAdvanceError_eq data entity _ _
      | none => exact ecsysAdvanceError_eq data entity _ _
      | found current system =>
          have number : (Json.primitive (formatU current)).WellFormed := .formatU current
          have parsed : jsonParseSimple (formatU current) = some (.primitive (formatU current)) :=
            jsonParseSimple_wellFormed number
          simp only [parsed]
          rw [payzGenericSetsystemsTok_eq data entity (.of_plain rfl)]
          · rfl
          · rintro v same
            cases same
            exact number

end Payz
