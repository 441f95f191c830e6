import Payz.Plugin.Defaults

/-! # What a failed advance reports, and what it leaves behind

`ecsys_advance_error` builds the `error` member, and `ecsys_err_wrap` and
`payecs_advance_ng` look its message up again.  An advance that succeeds leaves the
member alone, so that it speaks of an earlier failure then.
-/

namespace Payz

open Runs

/-! ## The failure path -/

/-- A failure with this code and message was stored in the component, and can be reported. -/
structure Stored (entity : UInt32) (code : Int) (message : Text) (done : Advanced) : Prop where
  failed : done.error = some code
  silent : done.emitted = []
  attached : ∃ text members, done.ec.cell entity syscomp = some (.object text members)
  found : errorMessage done.ec entity = some message
  logged : ecsysErrWrap done.ec entity code =
    .ok (if code = payEcsNotAdvanceable then .unusual else .broken,
      "entity ".toList ++ formatU entity.toNat ++ ": ".toList ++ message)

def errorMember (ec : Ec) (entity : UInt32) : Option Json :=
  (ec.current entity syscomp).jsonGetMember "error".toList

/-- A system that matches is named, and before it only registered ones that do not. -/
def Selects (systems : SystemMap) (ec : Ec) (entity : UInt32) : Prop :=
  ∃ first name rest, NamesSystems ec entity (first ++ name :: rest) ∧
    (∀ other ∈ first, systems.map[other]?.isSome ∧ ¬ NameMatches systems ec entity other) ∧
    NameMatches systems ec entity name

/-- What `lightningd:systems` says of an advance is what became of it. -/
structure TellsOutcome (entity : UInt32) (done : Advanced) (reply : Reply) : Prop where
  error : (errorMember done.ec entity).isSome ↔ ∃ code message, reply = .fail code message
  code : ∀ {code message}, reply = .fail code message →
    (errorMember done.ec entity).bind (fun error => error.jsonGetMember "code".toList) =
      some (.primitive (formatD code))
  current : reply = .success [] → ∃ names i n, NamesSystems done.ec entity names ∧
    currentMember done.ec entity = some (.primitive (formatU i)) ∧ done.emitted = [n] ∧
    n.entity = entity ∧ names[i]? = some n.system

theorem errorMember_afterError (ec : Ec) (entity : UInt32) (code : Int) (msg : Text) :
    errorMember (afterError ec entity code msg) entity = some (ecsysError code msg) := by
  rw [errorMember, afterError, current_withMember, jsonGetMember_withMember_self]

theorem errorMember_afterCurrent (ec : Ec) (entity : UInt32) (current : Nat) :
    errorMember (afterCurrent ec entity current) entity = errorMember ec entity := by
  rw [errorMember, afterCurrent, current_withMember,
    jsonGetMember_withMember_other _ (by decide +kernel)]
  rfl

theorem advanceSpec_outcome (systems : SystemMap) (ec : Ec) (entity : UInt32) :
    (¬ Selects systems ec entity ∧ ∃ code msg,
      advanceSpec systems ec entity = ⟨afterError ec entity code msg, [], some code⟩) ∨
    (Selects systems ec entity ∧ ∃ first system rest,
      NamesSystems ec entity (first ++ system.system :: rest) ∧
      advanceSpec systems ec entity = ⟨afterCurrent ec entity first.length,
        [runSystem (afterCurrent ec entity first.length) entity system], none⟩) := by
  obtain ⟨code, msg, same⟩ | ⟨names, current, system, named, found, same⟩ :=
    advanceSpec_cases systems ec entity
  · refine .inl ⟨?_, code, msg, same⟩
    rintro ⟨first, name, rest, named, passed, system, registered, hit⟩
    have found := searchSystem_found passed registered hit rest
    have listed := (namesSystems_iff ec entity _).mpr named
    simp only [advanceSpec, listed, found] at same
    exact absurd (congrArg Advanced.error same) (by simp)
  · obtain ⟨registered, -, hit⟩ := searchSystem_sound found
    obtain ⟨first, rest, rfl, length, passed⟩ := searchSystem_split found
    rw [Nat.zero_add] at length
    exact .inr ⟨⟨first, system.system, rest, named, passed, system, registered, hit⟩, first, system,
      rest, named, length ▸ same⟩

/-- The component tells what became of an advance exactly if it succeeded without an `error`
    from before, or failed. -/
theorem tellsOutcome_advance_iff (systems : SystemMap) (ec : Ec) (entity : UInt32) :
    TellsOutcome entity (advanceSpec systems ec entity)
        (advanceReply (advanceSpec systems ec entity) entity) ↔
      (errorMember ec entity = none ∨ ¬ Selects systems ec entity) := by
  obtain ⟨refused, code, msg, same⟩ | ⟨selects, first, system, rest, named, same⟩ :=
    advanceSpec_outcome systems ec entity
  · refine iff_of_true ?_ (.inr refused)
    rw [same]
    constructor
    · rw [errorMember_afterError]
      exact iff_of_true rfl ⟨_, _, rfl⟩
    · intro code' message failed
      cases failed
      rw [errorMember_afterError, Option.bind_some]
      rfl
    · exact nofun
  · rw [same]
    constructor
    · intro tells
      refine .inl (Option.not_isSome_iff_eq_none.mp fun stale => ?_)
      rw [← errorMember_afterCurrent ec entity first.length] at stale
      obtain ⟨code, message, failed⟩ := tells.error.mp stale
      cases failed
    · intro before
      have absent : errorMember ec entity = none := before.resolve_right fun none => none selects
      constructor
      · rw [errorMember_afterCurrent, absent]
        exact iff_of_false nofun nofun
      · exact nofun
      · intro
        have still : NamesSystems (afterCurrent ec entity first.length) entity
            (first ++ system.system :: rest) := by
          have after := @namesSystems_advanceSpec systems _ _ _ named
          rwa [same] at after
        refine ⟨_, first.length, _, still, ?_, rfl, rfl, ?_⟩
        · rw [currentMember, afterCurrent, current_withMember, jsonGetMember_withMember_self]
        · simp [runSystem]

/-! ## Over a sequence of calls -/

/-- A command that reads or writes `lightningd:systems`, with its parameters. -/
inductive SystemsCall where
  | advance (params : Json)
  | setdefaultsystems (params : Json)
  | setcomponents (params : Json)

def SystemsCall.run (systems : SystemMap) (ec : Ec) : SystemsCall → Except Fault Ec
  | .advance params => (payecsAdvance systems ec params).map fun done => done.1.ec
  | .setdefaultsystems params => (payecsSetdefaultsystems systems ec params).map Prod.fst
  | .setcomponents params => (payecsSetcomponents ec params).map Prod.fst

/-- A command, with JSON for its parameters, that does not end the process. -/
def SystemsCall.Step (systems : SystemMap) (ec : Ec) (call : SystemsCall) (ec' : Ec) : Prop :=
  (match call with
    | .advance params | .setdefaultsystems params | .setcomponents params => params.WellFormed) ∧
  call.run systems ec = .ok ec'

theorem SystemsCall.Step.keeps {systems : SystemMap} {ec ec' : Ec} {call : SystemsCall}
    (step : call.Step systems ec ec') (table : ec.Consistent ∧ ec.All Json.WellFormed) :
    ec'.Consistent ∧ ec'.All Json.WellFormed := by
  obtain ⟨consistent, data⟩ := table
  obtain ⟨wellFormed, ran⟩ := step
  cases call with
  | advance params =>
      obtain ⟨⟨done, reply⟩, returned, rfl⟩ := eq_of_map_eq_ok ran
      cases args : payecsAdvanceArgs params with
      | error fail =>
          simp only [payecsAdvance, args, Except.ok.injEq, Prod.mk.injEq] at returned
          obtain ⟨rfl, -⟩ := returned
          exact ⟨consistent, data⟩
      | ok entity =>
          rw [payecsAdvance_reply systems data args] at returned
          cases returned
          exact ⟨consistent_advanceSpec consistent systems entity,
            wellFormed_advanceSpec data systems entity⟩
  | setdefaultsystems params =>
      obtain ⟨⟨after, reply⟩, returned, rfl⟩ := eq_of_map_eq_ok ran
      obtain ⟨kept, valid, -⟩ := payecsSetdefaultsystems_keeps consistent data returned
      exact ⟨kept, valid⟩
  | setcomponents params =>
      obtain ⟨⟨after, reply⟩, returned, rfl⟩ := eq_of_map_eq_ok ran
      obtain ⟨kept, valid, -⟩ := payecsSetcomponents_keeps consistent data wellFormed returned
      exact ⟨kept, valid⟩

/-- After any commands on any table, with any systems registered: an advance goes through, and
    the component tells what became of it exactly if it had no `error` member before, or no
    system is selected. -/
theorem error_tells_iff {systems : SystemMap} {start ec : Ec} {calls : List SystemsCall}
    (consistent : start.Consistent) (data : start.All Json.WellFormed)
    (run : Run (SystemsCall.Step systems) start calls ec)
    {params : Json} {entity : UInt32} (args : payecsAdvanceArgs params = .ok entity) :
    ∃ done reply, payecsAdvance systems ec params = .ok (done, reply) ∧
      (TellsOutcome entity done reply ↔
        (errorMember ec entity = none ∨ ¬ Selects systems ec entity)) := by
  have one : ∀ (ec : Ec) (call : SystemsCall) (ec' : Ec), True →
      ec.Consistent ∧ ec.All Json.WellFormed → call.Step systems ec ec' →
      ec'.Consistent ∧ ec'.All Json.WellFormed := fun _ _ _ _ table step => step.keeps table
  have table := run.keeps one (fun _ _ => trivial) ⟨consistent, data⟩
  exact ⟨_, _, payecsAdvance_reply systems table.2 args,
    tellsOutcome_advance_iff systems ec entity⟩

/-- A system `x` that requires the component `c`. -/
def onlyX : SystemMap := SystemMap.empty.insert ⟨"x".toList, ["c".toList], []⟩

def onlyC : Ec := ecSetComponent ecNew 1 "c".toList (some (.primitive (formatU 7)))

def giveX : Json :=
  .tight [("entity".toList, .primitive (formatU 1)), ("prepend".toList, stringArray ["x".toList])]

theorem onlyC_wellFormed : onlyC.All Json.WellFormed := by
  have value : ∀ datum, some (Json.primitive (formatU 7)) = some datum → datum.WellFormed := by
    rintro datum same
    cases same
    exact .formatU 7
  intro entity component datum found
  exact Ec.All.set (Ec.all_ecNew _) 1 "c".toList value found

theorem advance_step (systems : SystemMap) {ec : Ec} (data : ec.All Json.WellFormed)
    (entity : UInt32) :
    SystemsCall.Step systems ec (.advance (entityParams entity))
      (advanceSpec systems ec entity).ec := by
  refine ⟨entityParams_wellFormed entity, ?_⟩
  rw [SystemsCall.run, payecsAdvance_reply systems data (payecsAdvanceArgs_entityParams entity)]
  rfl

theorem giveX_step {ec : Ec} (data : ec.All Json.WellFormed) :
    SystemsCall.Step onlyX ec (.setdefaultsystems giveX)
      (withSystems ec 1 (["x".toList] ++ defaultSystems ++ [])) := by
  have given : payecsSetdefaultsystemsArgs giveX = .ok (1, ["x".toList], []) := by decide +kernel
  have known : ((["x".toList] ++ []).find? fun system => system ∉ onlyX.map) = none := by
    decide +kernel
  have wellFormed : giveX.WellFormed := by
    have entity : StringText "entity".toList := .of_plain rfl
    have prepend : StringText "prepend".toList := .of_plain rfl
    exact .tight (List.forall_mem_cons.mpr ⟨entity, List.forall_mem_singleton.mpr prepend⟩)
      (List.forall_mem_cons.mpr
        ⟨.formatU 1, List.forall_mem_singleton.mpr (stringArray_wellFormed _)⟩)
  have set := payecsSetdefaultsystems_eq onlyX data given
  rw [known] at set
  refine ⟨wellFormed, ?_⟩
  rw [SystemsCall.run, set]
  rfl

/-- A failed advance of another entity and the systems of this one come before an advance that
    succeeds. -/
theorem error_tells_iff_second :
    ∃ ec₁ ec₂ done, SystemsCall.Step onlyX onlyC (.advance (entityParams 2)) ec₁ ∧
      SystemsCall.Step onlyX ec₁ (.setdefaultsystems giveX) ec₂ ∧
      payecsAdvance onlyX ec₂ (entityParams 1) = .ok (done, .success []) ∧
      TellsOutcome 1 done (.success []) := by
  have failing := advance_step onlyX onlyC_wellFormed 2
  have giving := giveX_step (wellFormed_advanceSpec onlyC_wellFormed onlyX 2)
  have run : Run (SystemsCall.Step onlyX) onlyC _ _ := .cons failing (.cons giving .nil)
  obtain ⟨done, reply, advanced, tells⟩ := error_tells_iff (Ec.consistent_ecNew.set _ _ _)
    onlyC_wellFormed run (payecsAdvanceArgs_entityParams 1)
  have fresh : errorMember (withSystems (advanceSpec onlyX onlyC 2).ec 1
      (["x".toList] ++ defaultSystems ++ [])) 1 = none := by decide +kernel
  have success : advanceReply (advanceSpec onlyX (withSystems (advanceSpec onlyX onlyC 2).ec 1
      (["x".toList] ++ defaultSystems ++ [])) 1) 1 = .success [] := by decide +kernel
  obtain ⟨-, data₂⟩ := giving.keeps
    ⟨consistent_advanceSpec (Ec.consistent_ecNew.set _ _ _) onlyX 2,
      wellFormed_advanceSpec onlyC_wellFormed onlyX 2⟩
  have same := advanced.symm.trans
    (payecsAdvance_reply onlyX data₂ (payecsAdvanceArgs_entityParams 1))
  rw [success] at same
  cases same
  exact ⟨_, _, _, failing, giving, advanced, tells.mpr (.inl fresh)⟩

/-- An advance fails because there are no systems; once there are, the next one succeeds, and
    the component still has the `error` of the first. -/
theorem error_outlives_failure :
    ∃ ec₁ ec₂ done, SystemsCall.Step onlyX onlyC (.advance (entityParams 1)) ec₁ ∧
      SystemsCall.Step onlyX ec₁ (.setdefaultsystems giveX) ec₂ ∧
      payecsAdvance onlyX ec₂ (entityParams 1) = .ok (done, .success []) ∧
      (errorMember done.ec 1).isSome ∧ ¬ TellsOutcome 1 done (.success []) := by
  have failing := advance_step onlyX onlyC_wellFormed 1
  have giving := giveX_step (wellFormed_advanceSpec onlyC_wellFormed onlyX 1)
  obtain ⟨-, data₂⟩ := giving.keeps
    ⟨consistent_advanceSpec (Ec.consistent_ecNew.set _ _ _) onlyX 1,
      wellFormed_advanceSpec onlyC_wellFormed onlyX 1⟩
  have third := payecsAdvance_reply onlyX data₂ (payecsAdvanceArgs_entityParams 1)
  have success : advanceReply (advanceSpec onlyX (withSystems (advanceSpec onlyX onlyC 1).ec 1
      (["x".toList] ++ defaultSystems ++ [])) 1) 1 = .success [] := by decide +kernel
  have stale : (errorMember (advanceSpec onlyX (withSystems (advanceSpec onlyX onlyC 1).ec 1
      (["x".toList] ++ defaultSystems ++ [])) 1).ec 1).isSome := by decide +kernel
  rw [success] at third
  refine ⟨_, _, _, failing, giving, third, stale, fun tells => ?_⟩
  obtain ⟨code, message, failed⟩ := tells.error.mp stale
  cases failed

end Payz
