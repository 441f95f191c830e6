import Payz.Payecs.Listentities
import Payz.Plugin.Interleavings

/-! # Names that can be printed

A component gets its name from the key of a specification, which is checked, from a
constant, from a key of a `decode` result, or from the text of an invoice type.  The
last two are not checked.  As long as they need no escapes, every name can be
printed as a key.
-/

namespace Payz

open Runs

/-- All attached components have such names. -/
def Ec.Named (P : Text → Prop) (ec : Ec) : Prop :=
  ∀ (entity : UInt32) (component : Text), (ec.cell entity component).isSome → P component

/-- All attached components have names that can be printed. -/
def Ec.NamesPrintable (ec : Ec) : Prop :=
  ∀ (entity : UInt32) (component : Text), (ec.cell entity component).isSome →
    ComponentName component

/-- What arrives needs no escapes: the keys of a `decode` result that end up attached, or
    the type that is promoted. -/
def Event.NamesPrintable : Event → Prop
  | .decoded _ (.result _ members) => ∀ key value, Ec.lastValue members key = some value →
      value.jsonTokIsNull = false → jsonEscapeNeeded key = false
  | .notify n _ => n.system = EcsSystemFunction.promoteInvoiceType.name →
      ∀ m ∈ n.components, m.1 = "lightningd:invoice:type".toList →
        jsonEscapeNeeded m.2.jsonStrdup = false
  | _ => True

theorem jsonEscapeNeeded_append (t u : Text) :
    jsonEscapeNeeded (t ++ u) = (jsonEscapeNeeded t || jsonEscapeNeeded u) := by
  simp [jsonEscapeNeeded]

theorem ComponentName.of_invoicePrefix {component : Text} (plain : jsonEscapeNeeded component = false)
    (about : invoicePrefix <+: component) : ComponentName component := by
  refine ⟨plain, ne_of_invoicePrefix about (by decide), ne_of_invoicePrefix about (by decide)⟩

theorem ComponentName.of_check {component : Text} (check : (!jsonEscapeNeeded component &&
    component != "entity".toList && component != "exact".toList) = true) :
    ComponentName component := by
  rw [Bool.and_eq_true, Bool.and_eq_true, Bool.not_eq_true', bne_iff_ne, bne_iff_ne] at check
  exact ⟨check.1.1, check.1.2, check.2⟩

theorem componentName_syscomp : ComponentName syscomp := .of_check rfl

/-! ## What is written has a printable name -/

/-- What an effect leaves attached has such a name. -/
def Effect.Named (P : Text → Prop) (effect : Effect) : Prop :=
  ∀ component value, Ec.lastValue effect.writes component = some value →
    value.jsonTokIsNull = false → P component

theorem Effect.Named.of_mem {P : Text → Prop} {effect : Effect}
    (names : ∀ m ∈ effect.writes, P m.1) : effect.Named P :=
  fun _ _ last _ => names _ (Ec.mem_of_lastValue last)

/-- What an event attaches beyond checked names and constants: a promoted type, or keys of
    a `decode` result. -/
structure Event.Brings (P : Text → Prop) (event : Event) : Prop where
  promoted : ∀ n nonce, event = .notify n nonce →
    n.system = EcsSystemFunction.promoteInvoiceType.name → ∀ m ∈ n.components,
      m.1 = "lightningd:invoice:type".toList →
        P ("lightningd:invoice:type:".toList ++ m.2.jsonStrdup)
  decoded : ∀ request text members, event = .decoded request (.result text members) →
    ∀ key value, Ec.lastValue members key = some value → value.jsonTokIsNull = false →
      P (invoicePrefix ++ key)

theorem Event.NamesPrintable.brings {event : Event} (printable : event.NamesPrintable) :
    event.Brings ComponentName where
  promoted := by
    rintro n nonce rfl system m member type
    refine .of_invoicePrefix ?_ (invoicePrefix_type _)
    rw [jsonEscapeNeeded_append, printable system m member type]
    decide
  decoded := by
    rintro request text members rfl key value last attached
    refine .of_invoicePrefix ?_ ⟨key, rfl⟩
    rw [jsonEscapeNeeded_append, printable key value last attached]
    decide

section

variable {P : Text → Prop} (checked : ∀ {component : Text}, ComponentName component → P component)

include checked

theorem EcsSystemFunction.effect_named (func : EcsSystemFunction) (nonce : Nonce) (blocks : Nat)
    {values : Text → Json} (promoted : func = .promoteInvoiceType →
      P ("lightningd:invoice:type:".toList ++
        (values "lightningd:invoice:type".toList).jsonStrdup)) :
    (func.effect nonce blocks values).Named P := by
  apply Effect.Named.of_mem
  cases func with
  | promoteInvoiceType => exact List.forall_mem_singleton.mpr (promoted rfl)
  | invoiceAmountMsat | failInvoiceAmountAndAmount =>
      exact List.forall_mem_cons.mpr ⟨checked (.of_check rfl),
        List.forall_mem_singleton.mpr (checked (.of_check rfl))⟩
  | generateNonce | parseInvoice | defaulterRiskfactor | defaulterMaxfeepercent
  | defaulterRetryFor | defaulterMaxdelay | defaulterExemptfee =>
      exact List.forall_mem_singleton.mpr (checked (.of_check rfl))

theorem DecodeReply.effect_named {request : DecodeRequest} {reply : DecodeReply}
    (brings : (Event.decoded request reply).Brings P) : reply.effect.Named P := by
  cases reply with
  | error res =>
      apply Effect.Named.of_mem
      exact List.forall_mem_cons.mpr ⟨checked (.of_check rfl),
        List.forall_mem_singleton.mpr (checked componentName_syscomp)⟩
  | result text members =>
      intro component value last attached
      obtain ⟨m, -, same⟩ := List.mem_map.mp (Ec.mem_of_lastValue last)
      cases same
      rw [effect, lastValue_invoicePrefix] at last
      exact brings.decoded request text members rfl m.1 m.2 last attached

theorem Plugin.Acts.named {blocks : Nat} {p q : Plugin} {event : Event} {entity : UInt32}
    {effect : Effect} (acts : p.Acts blocks event q entity effect) (brings : event.Brings P) :
    effect.Named P := by
  cases acts with
  | advance => exact Effect.Named.of_mem (by simp)
  | @notify n nonce func earlier member data hit same =>
      apply func.effect_named checked
      rintro rfl
      have system : n.system = EcsSystemFunction.promoteInvoiceType.name := by rw [same]; rfl
      have components : n.components = [("lightningd:invoice:type".toList,
          earlier.current n.entity "lightningd:invoice:type".toList)] := by
        rw [same, runSystem]
        simp only [ecGetComponent_eq]
        rfl
      refine brings.promoted n nonce rfl system ("lightningd:invoice:type".toList, _) ?_ rfl
      rw [components]
      exact List.mem_singleton.mpr rfl
  | decoded member wellFormed => exact DecodeReply.effect_named checked brings

end

/-! ## A step keeps the names printable -/

section

variable {P : Text → Prop} (checked : ∀ {component : Text}, ComponentName component → P component)

include checked

theorem Effect.Named.outcome {effect : Effect} (written : effect.Named P) {ec : Ec}
    (names : ec.Named P) (systems : SystemMap) (entity : UInt32) :
    (effect.outcome systems ec entity).ec.Named P := by
  intro entity' component attached
  by_cases systemsCell : entity = entity' ∧ syscomp = component
  · exact systemsCell.2 ▸ checked componentName_syscomp
  · rw [effect.cell_outcome systems ec entity systemsCell, Ec.cell_setAll] at attached
    by_cases mine : entity = entity'
    · rw [if_pos mine] at attached
      cases last : Ec.lastValue effect.writes component with
      | none =>
          rw [last, Option.elim_none] at attached
          exact names entity' component attached
      | some value =>
          rw [last, Option.elim_some, attached_some] at attached
          split_ifs at attached with null
          · cases attached
          · exact written component value last (Bool.eq_false_iff.mpr null)
    · rw [if_neg mine] at attached
      exact names entity' component attached

theorem named_written {i : Nat} {ec ec' : Ec} {w : PayecsWritespec} (names : ec.Named P)
    (listed : ∀ component value, w.components[component]? = some value → ComponentName component)
    (cells : ec'.cell = w.written i ec) : ec'.Named P := by
  intro entity component attached
  rw [cells, PayecsWritespec.written] at attached
  by_cases mine : w.entity = entity
  · rw [if_pos mine] at attached
    cases here : w.components[component]? with
    | some value => exact checked (listed component value here)
    | none =>
        rw [here, Option.elim_none] at attached
        split_ifs at attached
        · cases attached
        · exact names entity component attached
  · rw [if_neg mine] at attached
    exact names entity component attached

theorem named_writes {i : Nat} {ec ec' : Ec} {writes : List PayecsWritespec}
    (consistent : ec.Consistent) (names : ec.Named P)
    (listed : ∀ w ∈ writes, ∀ component value, w.components[component]? = some value →
      ComponentName component)
    (run : payecsSetcomponentsWrites i ec writes = .ok ec') : ec'.Named P := by
  induction writes generalizing i ec with
  | nil =>
      cases run
      exact names
  | cons w writes ih =>
      rw [List.forall_mem_cons] at listed
      obtain ⟨after, -, kept, cells, tail⟩ := payecsSetcomponentsWrites_cons consistent run
      exact ih kept (named_written checked names listed.1 cells) listed.2 tail

theorem payecsSetcomponents_named {ec ec' : Ec} (consistent : ec.Consistent) (names : ec.Named P)
    {params : Json} {reply : Reply} (ran : payecsSetcomponents ec params = .ok (ec', reply)) :
    ec'.Named P := by
  unfold payecsSetcomponents at ran
  cases args : payecsSetcomponentsArgs params with
  | error fail =>
      rw [args] at ran
      cases ran
      exact names
  | ok specs =>
      rw [args] at ran
      rcases payecsSetcomponentsRun_cases ran with ⟨-, rfl, -⟩ | ⟨-, run, -⟩
      · exact names
      · exact named_writes checked consistent names
          (fun w member component value => payecsSetcomponentsArgs_names args member) run

theorem payecsSetdefaultsystems_named {systems : SystemMap} {ec ec' : Ec}
    (data : ec.All Json.WellFormed) (names : ec.Named P) {params : Json} {reply : Reply}
    (ran : payecsSetdefaultsystems systems ec params = .ok (ec', reply)) : ec'.Named P := by
  rcases payecsSetdefaultsystems_cases data ran with rfl | ⟨entity, prepend, append, -, rfl⟩
  · exact names
  · intro entity' component attached
    by_cases systemsCell : entity = entity' ∧ syscomp = component
    · exact systemsCell.2 ▸ checked componentName_syscomp
    · rw [withSystems, cell_ecSetComponent, if_neg systemsCell] at attached
      exact names entity' component attached

theorem Plugin.named_step {blocks : Nat} {p p' : Plugin} {label : Label} (ok : p.Ok blocks)
    (names : p.ec.Named P) (step : p.Step label p') (brings : label.event.Brings P) :
    p'.ec.Named P := by
  obtain ⟨event, output⟩ := label
  rcases ok.step_cases step with ⟨q, entity, effect, acts, took⟩ | ⟨-, settles⟩
  · cases took
    exact (acts.named checked brings).outcome checked names p.regs.ecs.systems entity
  · cases settles with
    | @wrote event ec write consistent data frame =>
        obtain ⟨-, ran⟩ := step
        cases event with
        | setcomponents params =>
            obtain ⟨done, returned, same⟩ := eq_of_map_eq_ok ran
            cases same
            exact payecsSetcomponents_named checked ok.consistent names returned
        | setdefaultsystems params =>
            obtain ⟨done, returned, same⟩ := eq_of_map_eq_ok ran
            cases same
            exact payecsSetdefaultsystems_named checked ok.data names returned
        | newsystem | advance | notify | decoded => cases write
    | registered | refused | passed => exact names

end

theorem ComponentName.stringText {component : Text} (name : ComponentName component) :
    StringText component := .of_unescaped name.plain

/-- `lightningd:invoice:type`. -/
def promotedComp : Text := "lightningd:invoice:type".toList

end Payz
