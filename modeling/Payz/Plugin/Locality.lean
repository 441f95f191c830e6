import Payz.Lib.Local
import Payz.Plugin.Steps

/-! # What a step reads and writes

Every step names some entities.  It changes the components of no others, and what it
does, what it raises and what it answers depends on the components of no others.
-/

namespace Payz

open Locality

/-! ## Reading the components of one entity -/

section Reading

variable {ec ec' : Ec} {entity : UInt32} (same : ec.cell entity = ec'.cell entity)

include same

theorem ecGetComponent_congr (component : Text) :
    ecGetComponent ec entity component = ecGetComponent ec' entity component := by
  rw [ecGetComponent_eq, ecGetComponent_eq, Ec.current, Ec.current, same]

theorem current_congr (component : Text) :
    ec.current entity component = ec'.current entity component := by
  rw [Ec.current, Ec.current, same]

/-- The names of the attached components are in byte order, so the cells decide them. -/
theorem components_congr : ec.components entity = ec'.components entity := by
  have members : ∀ component, component ∈ ec.components entity ↔
      component ∈ ec'.components entity := by
    intro component
    rw [Ec.mem_components, Ec.mem_components, same]
  have perm : (ec.components entity).Perm (ec'.components entity) :=
    (List.perm_ext_iff_of_nodup (ec.components_nodup entity) (ec'.components_nodup entity)).mpr
      members
  refine perm.eq_of_pairwise ?_ (ec.components_ordered entity) (ec'.components_ordered entity)
  intro a b _ _ below above
  exact absurd (Std.OrientedCmp.gt_of_lt below) (by rw [above]; decide)

theorem systemMatches_cell (system : EcsysRegistered) :
    systemMatches ec entity system = systemMatches ec' entity system := by
  simp only [systemMatches, ecGetComponent_congr same]

theorem searchSystem_cell (systems : SystemMap) (i : Nat) (names : List Text) :
    searchSystem systems ec entity i names = searchSystem systems ec' entity i names := by
  induction names generalizing i with
  | nil => rfl
  | cons name names ih => simp only [searchSystem, systemMatches_cell same, ih]

theorem withMember_cell (fieldname : Text) (value : Option Json) :
    (ecSetComponent ec entity syscomp (some
        ((ec.current entity syscomp).withMember fieldname value))).cell entity =
      (ecSetComponent ec' entity syscomp (some
        ((ec'.current entity syscomp).withMember fieldname value))).cell entity := by
  funext component
  rw [cell_ecSetComponent, cell_ecSetComponent, current_congr same, same]

theorem runSystem_cell (system : EcsysRegistered) :
    runSystem ec entity system = runSystem ec' entity system := by
  simp only [runSystem, ecGetComponent_congr same]

theorem errorMessage_cell : errorMessage ec entity = errorMessage ec' entity := by
  simp only [errorMessage, ecGetComponent_congr same]

end Reading

theorem advanceSpec_cell (systems : SystemMap) {ec ec' : Ec} {entity : UInt32}
    (same : ec.cell entity = ec'.cell entity) :
    (advanceSpec systems ec entity).emitted = (advanceSpec systems ec' entity).emitted ∧
      (advanceSpec systems ec entity).error = (advanceSpec systems ec' entity).error ∧
      (advanceSpec systems ec entity).ec.cell entity =
        (advanceSpec systems ec' entity).ec.cell entity := by
  have names : payzGenericGetsystemsTal ec entity "systems".toList jsonToArrayOfStrings =
      payzGenericGetsystemsTal ec' entity "systems".toList jsonToArrayOfStrings := by
    simp only [payzGenericGetsystemsTal, ecGetComponent_congr same]
  unfold advanceSpec
  rw [names]
  cases payzGenericGetsystemsTal ec' entity "systems".toList jsonToArrayOfStrings with
  | none => exact ⟨rfl, rfl, withMember_cell same _ _⟩
  | some names =>
      simp only [searchSystem_cell same]
      cases searchSystem systems ec' entity 0 names with
      | unregistered name => exact ⟨rfl, rfl, withMember_cell same _ _⟩
      | none => exact ⟨rfl, rfl, withMember_cell same _ _⟩
      | found current system =>
          have after := withMember_cell same "current".toList (some (.primitive (formatU current)))
          exact ⟨congrArg (fun n => [n]) (runSystem_cell after system), rfl, after⟩

theorem Effect.outcome_cell (effect : Effect) (systems : SystemMap) {ec ec' : Ec} {entity : UInt32}
    (same : ec.cell entity = ec'.cell entity) :
    (effect.outcome systems ec entity).emitted = (effect.outcome systems ec' entity).emitted ∧
      (effect.outcome systems ec entity).requests = (effect.outcome systems ec' entity).requests ∧
      (effect.outcome systems ec entity).logged = (effect.outcome systems ec' entity).logged ∧
      (effect.outcome systems ec entity).ec.cell entity =
        (effect.outcome systems ec' entity).ec.cell entity := by
  have written : (ec.setAll entity effect.writes).cell entity =
      (ec'.setAll entity effect.writes).cell entity := by
    funext component
    rw [Ec.cell_setAll, Ec.cell_setAll, same]
  unfold outcome
  cases effect.ending with
  | advance =>
      obtain ⟨emitted, error, cells⟩ := advanceSpec_cell systems written
      exact ⟨emitted, rfl, error, cells⟩
  | done => exact ⟨rfl, rfl, rfl, written⟩
  | decode string => exact ⟨rfl, rfl, rfl, written⟩

/-! ## Comparing and writing components -/

theorem payecsSetcomponentsExpect1_cell {ec ec' : Ec} (consistent : ec.Consistent)
    (consistent' : ec'.Consistent) {expect1 : PayecsWritespec}
    (same : ec.cell expect1.entity = ec'.cell expect1.entity) :
    payecsSetcomponentsExpect1 ec expect1 = payecsSetcomponentsExpect1 ec' expect1 := by
  simp only [payecsSetcomponentsExpect1, payecsSetcomponentsValidate, ecGetComponent_congr same,
    ecGetComponents_eq consistent, ecGetComponents_eq consistent', components_congr same]

theorem payecsSetcomponentsExpected_cell {ec ec' : Ec} (consistent : ec.Consistent)
    (consistent' : ec'.Consistent) {expected : List PayecsWritespec}
    (same : ∀ expect1 ∈ expected, ec.cell expect1.entity = ec'.cell expect1.entity) :
    payecsSetcomponentsExpected ec expected = payecsSetcomponentsExpected ec' expected := by
  induction expected with
  | nil => rfl
  | cons expect1 expected ih =>
      rw [List.forall_mem_cons] at same
      simp only [payecsSetcomponentsExpected, ih same.2,
        payecsSetcomponentsExpect1_cell consistent consistent' same.1]

/-- What a turn of the writing loop leaves of an entity depends on what it found there. -/
theorem PayecsWritespec.written_cell {w : PayecsWritespec} {ec ec' : Ec} (i : Nat) {entity : UInt32}
    (same : ec.cell entity = ec'.cell entity) : w.written i ec entity = w.written i ec' entity := by
  funext component
  unfold written
  by_cases mine : w.entity = entity
  · subst mine
    rw [components_congr same, same]
  · rw [if_neg mine, if_neg mine, same]

theorem PayecsWritespec.InBounds.cell {w : PayecsWritespec} {ec ec' : Ec} {i : Nat}
    (inBounds : w.InBounds i ec) (same : ec.cell w.entity = ec'.cell w.entity) :
    w.InBounds i ec' := by
  rw [InBounds, components_congr same] at inBounds
  exact inBounds

theorem payecsSetcomponentsWrites_cell {writes : List PayecsWritespec} {keys : Set UInt32}
    (within : ∀ w ∈ writes, w.entity ∈ keys) {i : Nat} {ec ec' after : Ec}
    (consistent : ec.Consistent) (consistent' : ec'.Consistent)
    (same : Set.EqOn ec.cell ec'.cell keys)
    (run : payecsSetcomponentsWrites i ec writes = .ok after) :
    ∃ after', payecsSetcomponentsWrites i ec' writes = .ok after' ∧
      Set.EqOn after.cell after'.cell keys := by
  induction writes generalizing i ec ec' with
  | nil =>
      cases run
      exact ⟨ec', rfl, same⟩
  | cons w writes ih =>
      rw [List.forall_mem_cons] at within
      obtain ⟨next, turn, kept, cells, tail⟩ := payecsSetcomponentsWrites_cons consistent run
      have inBounds := (inBounds_of_ok consistent turn).cell (same within.1)
      obtain ⟨next', turn', kept', cells'⟩ := payecsSetcomponentsWrite1_ok consistent' inBounds
      have agree : Set.EqOn next.cell next'.cell keys := by
        intro entity member
        rw [cells, cells']
        exact PayecsWritespec.written_cell i (same member)
      obtain ⟨after', rest, both⟩ := ih within.2 kept kept' agree tail
      exact ⟨after', by simp only [payecsSetcomponentsWrites, turn', rest], both⟩

/-! ## The counter of entities stays -/

theorem nextEntity_setAll (ec : Ec) (entity : UInt32) (values : List (Text × Json)) :
    (ec.setAll entity values).nextEntity = ec.nextEntity := by
  induction values generalizing ec with
  | nil => rfl
  | cons m values ih =>
      rw [Ec.setAll, List.foldl_cons, ← Ec.setAll, ih, nextEntity_ecSetComponent]

theorem nextEntity_clear {i : Nat} {entity : UInt32} {components : List Text} {turns : Nat}
    {ec ec' : Ec} (ran : payecsSetcomponentsClear i entity components turns ec = .ok ec') :
    ec'.nextEntity = ec.nextEntity := by
  induction turns generalizing ec with
  | zero =>
      cases ran
      rfl
  | succ turns ih =>
      rw [payecsSetcomponentsClear] at ran
      cases found : components[i]? with
      | none => simp [found] at ran
      | some component =>
          rw [found] at ran
          rw [ih ran, nextEntity_ecSetComponent]

theorem nextEntity_write1 {i : Nat} {ec ec' : Ec} {w : PayecsWritespec}
    (ran : payecsSetcomponentsWrite1 i ec w = .ok ec') : ec'.nextEntity = ec.nextEntity := by
  rw [payecsSetcomponentsWrite1] at ran
  split_ifs at ran with exact
  · split at ran
    · cases ran
    · obtain ⟨cleared, clear, rfl⟩ := eq_of_map_eq_ok ran
      rw [payecsSetcomponentsWrite, nextEntity_setAll, nextEntity_clear clear]
  · cases ran
    exact nextEntity_setAll _ _ _

theorem nextEntity_writes {writes : List PayecsWritespec} {i : Nat} {ec ec' : Ec}
    (consistent : ec.Consistent) (run : payecsSetcomponentsWrites i ec writes = .ok ec') :
    ec'.nextEntity = ec.nextEntity := by
  induction writes generalizing i ec with
  | nil =>
      cases run
      rfl
  | cons w writes ih =>
      obtain ⟨after, turn, kept, -, tail⟩ := payecsSetcomponentsWrites_cons consistent run
      rw [ih kept tail, nextEntity_write1 turn]

theorem nextEntity_advanceSpec (systems : SystemMap) (ec : Ec) (entity : UInt32) :
    (advanceSpec systems ec entity).ec.nextEntity = ec.nextEntity := by
  obtain ⟨fieldname, value, same, -⟩ := advanceSpec_ec systems ec entity
  rw [same, nextEntity_ecSetComponent]

theorem Effect.nextEntity_outcome (effect : Effect) (systems : SystemMap) (ec : Ec)
    (entity : UInt32) : (effect.outcome systems ec entity).ec.nextEntity = ec.nextEntity := by
  unfold outcome
  cases effect.ending with
  | advance => exact (nextEntity_advanceSpec _ _ _).trans (nextEntity_setAll _ _ _)
  | done | decode => exact nextEntity_setAll _ _ _

/-! ## The steps -/

/-- What a step has besides its table: the answer to a command, what is raised or asked
    for, and the error that is answered or logged. -/
structure Answer where
  reply : Option Reply
  emitted : List Notification
  requests : List DecodeRequest
  logged : Option Int

/-- What the outcome of a function is to the world. -/
def Outcome.answer (outcome : Outcome) : Answer :=
  ⟨none, outcome.emitted, outcome.requests, outcome.logged⟩

/-- What a step does to the table.  A new system is none of its business. -/
def Event.act (regs : Registries) (defaultMaxdelay : Option Text) (event : Event) (ec : Ec) :
    Except Fault (Ec × Answer) :=
  match event with
  | .setcomponents params =>
      (payecsSetcomponents ec params).map fun done => (done.1, ⟨some done.2, [], [], none⟩)
  | .setdefaultsystems params =>
      (payecsSetdefaultsystems regs.ecs.systems ec params).map fun done =>
        (done.1, ⟨some done.2, [], [], none⟩)
  | .newsystem params =>
      (payecsNewsystem regs params).map fun done => (ec, ⟨some done.2, [], [], none⟩)
  | .advance params =>
      (payecsAdvance regs.ecs.systems ec params).map fun done =>
        (done.1.ec, ⟨some done.2, done.1.emitted, [], done.1.error⟩)
  | .notify n nonce =>
      (ecsSystemDeliver regs.ecs defaultMaxdelay nonce ec n).map fun done =>
        (done.ec, done.answer)
  | .decoded request reply =>
      (decodeReplied regs.ecs.systems ec request reply).map fun done => (done.ec, done.answer)

/-- The entities that a step names. -/
def Event.named : Event → List UInt32
  | .setcomponents params =>
      match payecsSetcomponentsArgs params with
      | .ok (writes, expected) =>
          writes.map PayecsWritespec.entity ++ expected.map PayecsWritespec.entity
      | .error _ => []
  | event => event.entities

/-- The table is in order, and its counter of entities is this one. -/
structure Ec.InOrder (next : UInt32) (ec : Ec) : Prop where
  consistent : ec.Consistent
  data : ec.All Json.WellFormed
  counter : ec.nextEntity = next

theorem Ec.InOrder.ext {next : UInt32} {ec ec' : Ec} (order : ec.InOrder next)
    (order' : ec'.InOrder next) (same : ec.cell = ec'.cell) : ec = ec' :=
  Ec.ext_cell order.consistent order'.consistent (order.counter.trans order'.counter.symm)
    fun entity component => congrFun (congrFun same entity) component

/-- An action that leaves the table alone is local to any entities. -/
theorem local_of_idle {next : UInt32} (keys : Set UInt32) {act : Ec → Except Fault (Ec × Answer)}
    (answer : Answer) (idle : ∀ {ec}, Ec.InOrder next ec → act ec = .ok (ec, answer)) :
    Local Ec.cell (Ec.InOrder next) keys act := by
  refine ⟨?_, ?_, ?_⟩
  · intro ec ec' out order ran
    rw [idle order] at ran
    cases ran
    exact order
  · intro ec ec' out order ran
    rw [idle order] at ran
    cases ran
    exact fun _ _ => rfl
  · intro ec t ec' out order order' same ran
    rw [idle order] at ran
    cases ran
    exact ⟨t, idle order', same⟩

theorem Effect.local {next : UInt32} (effect : Effect)
    (values : ∀ m ∈ effect.writes, m.2.WellFormed) (systems : SystemMap) (entity : UInt32)
    {act : Ec → Except Fault (Ec × Answer)} (reply : Outcome → Option Reply)
    (does : ∀ {ec}, Ec.InOrder next ec → act ec =
      .ok ((effect.outcome systems ec entity).ec,
        { (effect.outcome systems ec entity).answer with
          reply := reply (effect.outcome systems ec entity) }))
    (replies : ∀ {ec ec' : Ec}, ec.cell entity = ec'.cell entity →
      reply (effect.outcome systems ec entity) = reply (effect.outcome systems ec' entity)) :
    Local Ec.cell (Ec.InOrder next) {e | e ∈ [entity]} act := by
  refine ⟨?_, ?_, ?_⟩
  · intro ec ec' out order ran
    rw [does order] at ran
    cases ran
    have written : (effect.outcome systems ec entity).ec.All Json.WellFormed :=
      wellFormed_outcome systems entity order.data values
    exact ⟨effect.consistent_outcome systems entity order.consistent, written,
      (effect.nextEntity_outcome systems ec entity).trans order.counter⟩
  · intro ec ec' out order ran other differ
    rw [does order] at ran
    cases ran
    funext component
    refine effect.cell_outcome_other systems ec entity (fun same => differ ?_) component
    exact List.mem_singleton.mpr same.symm
  · intro ec t ec' out order order' same ran
    rw [does order] at ran
    cases ran
    have here : ec.cell entity = t.cell entity := same (List.mem_singleton.mpr rfl)
    obtain ⟨emitted, requests, logged, cells⟩ := effect.outcome_cell systems here
    refine ⟨(effect.outcome systems t entity).ec, ?_, ?_⟩
    · rw [does order']
      simp only [Outcome.answer, emitted, requests, logged, replies here]
    · intro other member
      cases List.mem_singleton.mp member
      exact cells

section Steps

variable {next : UInt32} {regs : Registries} {defaultMaxdelay : Option Text} {params : Json}

theorem setcomponents_local (wellFormed : params.WellFormed) :
    Local Ec.cell (Ec.InOrder next) {e | e ∈ (Event.setcomponents params).named}
      ((Event.setcomponents params).act regs defaultMaxdelay) := by
  cases args : payecsSetcomponentsArgs params with
  | error fail =>
      refine local_of_idle _ ⟨some (.fail fail.1 fail.2), [], [], none⟩ fun _ => ?_
      simp only [Event.act, payecsSetcomponents, args]
      rfl
  | ok specs =>
      obtain ⟨writes, expected⟩ := specs
      have ran_of : ∀ {ec ec' : Ec} {out : Answer},
          (Event.setcomponents params).act regs defaultMaxdelay ec = .ok (ec', out) →
          ∃ reply, payecsSetcomponents ec params = .ok (ec', reply) ∧
            out = ⟨some reply, [], [], none⟩ := by
        intro ec ec' out ran
        obtain ⟨⟨after, reply⟩, returned, same⟩ := eq_of_map_eq_ok ran
        cases same
        exact ⟨reply, returned, rfl⟩
      refine ⟨?_, ?_, ?_⟩
      · intro ec ec' out order ran
        obtain ⟨reply, returned, -⟩ := ran_of ran
        obtain ⟨kept, data, -⟩ :=
          payecsSetcomponents_keeps order.consistent order.data wellFormed returned
        refine ⟨kept, data, ?_⟩
        simp only [payecsSetcomponents, args] at returned
        rcases payecsSetcomponentsRun_cases returned with ⟨-, rfl, -⟩ | ⟨-, run, -⟩
        · exact order.counter
        · exact (nextEntity_writes order.consistent run).trans order.counter
      · intro ec ec' out order ran entity other
        obtain ⟨reply, returned, -⟩ := ran_of ran
        obtain ⟨-, -, frame⟩ :=
          payecsSetcomponents_keeps order.consistent order.data wellFormed returned
        funext component
        refine frame entity (fun written => other ?_) component
        simp only [Event.entities, args] at written
        simp only [Set.mem_ofPred_eq, Event.named, args]
        exact List.mem_append_left _ written
      · intro ec t ec' out order order' same ran
        obtain ⟨reply, returned, rfl⟩ := ran_of ran
        have within : ∀ w ∈ writes, w.entity ∈ {e | e ∈ (Event.setcomponents params).named} := by
          intro w member
          simp only [Set.mem_ofPred_eq, Event.named, args]
          exact List.mem_append_left _ (List.mem_map_of_mem member)
        have compared : payecsSetcomponentsExpected ec expected =
            payecsSetcomponentsExpected t expected := by
          refine payecsSetcomponentsExpected_cell order.consistent order'.consistent ?_
          intro expect1 member
          apply same
          simp only [Set.mem_ofPred_eq, Event.named, args]
          exact List.mem_append_right _ (List.mem_map_of_mem member)
        simp only [payecsSetcomponents, args] at returned
        rcases payecsSetcomponentsRun_cases returned with ⟨failed, rfl, rfl⟩ | ⟨passed, run, rfl⟩
        · refine ⟨t, ?_, same⟩
          simp only [Event.act, payecsSetcomponents, args, payecsSetcomponentsRun, ← compared,
            failed]
          rfl
        · obtain ⟨t', run', agree⟩ := payecsSetcomponentsWrites_cell within order.consistent
            order'.consistent same run
          refine ⟨t', ?_, agree⟩
          simp only [Event.act, payecsSetcomponents, args, payecsSetcomponentsRun, ← compared,
            passed, run']
          rfl

theorem setdefaultsystems_local :
    Local Ec.cell (Ec.InOrder next) {e | e ∈ (Event.setdefaultsystems params).named}
      ((Event.setdefaultsystems params).act regs defaultMaxdelay) := by
  cases args : payecsSetdefaultsystemsArgs params with
  | error fail =>
      refine local_of_idle _ ⟨some (.fail fail.1 fail.2), [], [], none⟩ fun _ => ?_
      simp only [Event.act, payecsSetdefaultsystems, args]
      rfl
  | ok call =>
      obtain ⟨entity, prepend, append⟩ := call
      have named : {e | e ∈ (Event.setdefaultsystems params).named} = {entity} := by
        ext e
        simp [Event.named, Event.entities, args]
      rw [named]
      cases found : (prepend ++ append).find? fun system => system ∉ regs.ecs.systems.map with
      | some system =>
          refine local_of_idle _ ⟨some (.fail jsonrpc2InvalidParams
            ("Unregistered system: ".toList ++ system)), [], [], none⟩ fun order => ?_
          rw [Event.act, payecsSetdefaultsystems_eq _ order.data args, found]
          rfl
      | none =>
          have does : ∀ {ec}, Ec.InOrder next ec →
              (Event.setdefaultsystems params).act regs defaultMaxdelay ec =
                .ok (withSystems ec entity (prepend ++ defaultSystems ++ append),
                  ⟨some (.success []), [], [], none⟩) := by
            intro ec order
            rw [Event.act, payecsSetdefaultsystems_eq _ order.data args, found]
            rfl
          refine ⟨?_, ?_, ?_⟩
          · intro ec ec' out order ran
            rw [does order] at ran
            cases ran
            obtain ⟨kept, data, -⟩ := withSystems_keeps order.consistent order.data entity
              (prepend ++ defaultSystems ++ append)
            exact ⟨kept, data, (nextEntity_ecSetComponent _ _ _ _).trans order.counter⟩
          · intro ec ec' out order ran other differ
            rw [does order] at ran
            cases ran
            funext component
            exact (withSystems_keeps order.consistent order.data entity
              (prepend ++ defaultSystems ++ append)).2.2 fun both => differ both.1.symm
          · intro ec t ec' out order order' same ran
            rw [does order] at ran
            cases ran
            refine ⟨_, does order', ?_⟩
            rintro other rfl
            exact withMember_cell (same rfl) _ _

theorem advance_local :
    Local Ec.cell (Ec.InOrder next) {e | e ∈ (Event.advance params).named}
      ((Event.advance params).act regs defaultMaxdelay) := by
  cases args : payecsAdvanceArgs params with
  | error fail =>
      refine local_of_idle _ ⟨some (.fail fail.1 fail.2), [], [], none⟩ fun _ => ?_
      simp only [Event.act, payecsAdvance, args]
      rfl
  | ok entity =>
      simp only [Event.named, Event.entities, args]
      refine Effect.local ⟨[], .advance⟩ (by simp) regs.ecs.systems entity
        (fun outcome =>
          some (advanceReply ⟨outcome.ec, outcome.emitted, outcome.logged⟩ entity)) ?_ ?_
      · intro ec order
        rw [Event.act, payecsAdvance_reply _ order.data args]
        rfl
      · intro ec ec' same
        obtain ⟨-, -, logged, cells⟩ := Effect.outcome_cell ⟨[], .advance⟩ regs.ecs.systems same
        simp only [advanceReply, logged, errorMessage_cell cells]

theorem notify_local {blocks : Nat} (agree : RegistriesAgree regs) {n : Notification}
    (raised : n.Raised regs.ecs.systems) (nonce : Nonce) :
    Local Ec.cell (Ec.InOrder next) {e | e ∈ (Event.notify n nonce).named}
      ((Event.notify n nonce).act regs (some (formatU blocks))) := by
  rcases raised.cases agree with ⟨func, earlier, data, hit, same⟩ | other
  · refine Effect.local (func.effect nonce blocks (earlier.current n.entity)) ?_ regs.ecs.systems
      n.entity (fun _ => none) ?_ fun _ => rfl
    · exact func.effect_wellFormed nonce blocks fun component _ =>
        data.current nullDatum_wellFormed n.entity component
    · intro ec order
      have called := ecsSystemDeliver_builtin agree.builtins nonce blocks order.data data n.entity func
      rw [← same] at called
      rw [Event.act, called]
      rfl
  · refine local_of_idle _ ⟨none, [], [], none⟩ fun order => ?_
    rw [Event.act, ecsSystemDeliver_other agree.builtins nonce _ _ other]
    rfl

theorem decoded_local (request : DecodeRequest) {reply : DecodeReply}
    (wellFormed : reply.WellFormed) :
    Local Ec.cell (Ec.InOrder next) {e | e ∈ (Event.decoded request reply).named}
      ((Event.decoded request reply).act regs defaultMaxdelay) := by
  refine Effect.local reply.effect (DecodeReply.effect_wellFormed wellFormed) regs.ecs.systems
    request.entity (fun _ => none) ?_ fun _ => rfl
  intro ec order
  rw [Event.act, decodeReplied_eq _ order.data request (DecodeReply.effect_wellFormed wellFormed)]
  rfl

end Steps

end Payz
