import Payz.Flow.Rest

/-! # The default flow and the amount

Two systems have to do with the amount: `invoice_amount_msat` moves the amount of the invoice
to `lightningd:amount`, and `fail_invoice_amount_and_amount` gives up when there are both.  No
other system writes either; the amount of the invoice comes from the reply of `decode`.
-/

namespace Payz

def amountComp : Text := "lightningd:amount".toList

def invoiceAmountComp : Text := "lightningd:invoice:amount_msat".toList

/-- The next turn runs this system. -/
def Flow.Runs (flow : Flow) (func : EcsSystemFunction) : Prop :=
  ∃ n rest, flow.plugin.notifications = n :: rest ∧ n.system = func.name

/-- The next turn delivers this reply of `decode`. -/
def Flow.Delivers (answers : Answers) (flow : Flow) (reply : DecodeReply) : Prop :=
  flow.plugin.notifications = [] ∧ ∃ request rest,
    flow.plugin.requests = request :: rest ∧ answers.decode request.string = reply

/-- The flow has given up on two amounts: both stay, the error is there, and no system is
    invoked any more. -/
structure GaveUp (answers : Answers) (entity : UInt32) (flow after : Flow) : Prop where
  amounts : ∀ component ∈ [amountComp, invoiceAmountComp],
    (flow.plugin.ec.cell entity component).isSome ∧
      after.plugin.ec.cell entity component = flow.plugin.ec.cell entity component
  error : after.plugin.ec.cell entity errcomp =
    some (ecsysError jsonrpc2InvalidParams "msatoshi parameter unnecessary".toList)
  systems : after.plugin.ec.cell entity syscomp = none
  ends : ∀ turns, flowRun answers turns after = .ok after

/-- What one turn may do to the amounts of an entity. -/
structure AmountStep (answers : Answers) (entity : UInt32) (flow after : Flow) : Prop where
  kept : ∀ {datum}, flow.plugin.ec.cell entity amountComp = some datum →
    after.plugin.ec.cell entity amountComp = some datum
  attached : flow.plugin.ec.cell entity amountComp = none →
    (after.plugin.ec.cell entity amountComp).isSome → flow.Runs .invoiceAmountMsat
  moved : flow.Runs .invoiceAmountMsat → flow.plugin.ec.cell entity amountComp = none ∧
    ∃ datum, flow.plugin.ec.cell entity invoiceAmountComp = some datum ∧
      after.plugin.ec.cell entity invoiceAmountComp = none ∧
      after.plugin.ec.cell entity amountComp = some datum
  detached : (flow.plugin.ec.cell entity invoiceAmountComp).isSome →
    after.plugin.ec.cell entity invoiceAmountComp = none → flow.Runs .invoiceAmountMsat ∨
      ∃ text members, flow.Delivers answers (.result text members) ∧
        ("amount_msat".toList, nullDatum) ∈ members
  failed : flow.Runs .failInvoiceAmountAndAmount → GaveUp answers entity flow after

/-! ## One turn -/

theorem EcsSystemFunction.effect_amount {func : EcsSystemFunction}
    (other : func ≠ .invoiceAmountMsat) (nonce : Nonce) (blocks : Nat) (values : Text → Json) :
    ∀ m ∈ (func.effect nonce blocks values).writes, m.1 ∉ [amountComp, invoiceAmountComp] := by
  have apart : ∀ func ∈ builtins, func ≠ .invoiceAmountMsat →
      ∀ component ∈ [amountComp, invoiceAmountComp], component ∉ func.outputs ∧
        ¬ "lightningd:invoice:type:".toList <+: component := by decide +kernel
  exact effect_apart (apart func (mem_builtins func) other) nonce blocks values

theorem Flow.At.runs_iff {blocks : Nat} {entity : UInt32} {flow : Flow} {func : EcsSystemFunction}
    (stands : flow.At blocks entity (.notified func)) (other : EcsSystemFunction) :
    flow.Runs other ↔ other = func := by
  have notifications : flow.plugin.notifications =
      [runSystem flow.plugin.ec entity func.registered] := stands.notifications
  constructor
  · rintro ⟨n, rest, first, named⟩
    rw [notifications] at first
    cases first
    exact (EcsSystemFunction.name_injective named).symm
  · rintro rfl
    exact ⟨_, [], notifications, rfl⟩

theorem Flow.not_runs {flow : Flow} (nothing : flow.plugin.notifications = [])
    (func : EcsSystemFunction) : ¬ flow.Runs func := by
  rintro ⟨n, rest, first, -⟩
  rw [nothing] at first
  cases first

theorem flowRun_idle {flow : Flow} (notifications : flow.plugin.notifications = [])
    (requests : flow.plugin.requests = []) (answers : Answers) (turns : Nat) :
    flowRun answers turns flow = .ok flow := by
  induction turns with
  | zero => rfl
  | succ turns ih =>
      have step : flowStep answers flow = .ok flow := by
        simp only [flowStep, notifications, requests]
      rw [flowRun, step]
      exact ih

section Turns

variable {answers : Answers} {blocks : Nat} {entity : UInt32} {flow after : Flow}

theorem AmountStep.of_unchanged
    (same : ∀ component ∈ [amountComp, invoiceAmountComp],
      after.plugin.ec.cell entity component = flow.plugin.ec.cell entity component)
    (move : ¬ flow.Runs .invoiceAmountMsat)
    (fail : flow.Runs .failInvoiceAmountAndAmount → GaveUp answers entity flow after) :
    AmountStep answers entity flow after where
  kept there := by rw [same amountComp (by decide), there]
  attached absent there := by
    rw [same amountComp (by decide), absent] at there
    cases there
  moved runs := absurd runs move
  detached there absent := by
    rw [← same invoiceAmountComp (by decide), absent] at there
    cases there
  failed := fail

/-- `invoice_amount_msat` finds the amount of the invoice and no other, and moves it. -/
theorem AmountStep.move (stands : flow.At blocks entity (.notified .invoiceAmountMsat))
    (turned : flow.Turned blocks entity (EcsSystemFunction.effect answers.nonce blocks
      (flow.plugin.ec.current entity) .invoiceAmountMsat) after) :
    AmountStep answers entity flow after := by
  have hit := firstMatch_some stands.fits.2
  rw [@matches_single _ _ _ invoiceAmountComp amountComp rfl rfl] at hit
  obtain ⟨there, absent⟩ := hit
  obtain ⟨datum, found⟩ := Option.isSome_iff_exists.mp there
  have notNull := stands.ok.consistent.current_notNull there
  have current : flow.plugin.ec.current entity invoiceAmountComp = datum := by
    rw [Ec.current, found, Option.getD_some]
  have gone : after.plugin.ec.cell entity invoiceAmountComp = none := by
    rw [turned.cells invoiceAmountComp (by decide), Ec.cell_setAll, if_pos rfl]
    rfl
  have arrived : after.plugin.ec.cell entity amountComp = some datum := by
    rw [current] at notNull
    rw [turned.cells amountComp (by decide), Ec.cell_setAll, if_pos rfl]
    have written : Ec.lastValue (EcsSystemFunction.effect answers.nonce blocks
        (flow.plugin.ec.current entity) .invoiceAmountMsat).writes amountComp = some datum := by
      rw [← current]
      rfl
    rw [written, Option.elim_some, attached_some, notNull]
    rfl
  have runs : flow.Runs .invoiceAmountMsat := (stands.runs_iff _).mpr rfl
  refine ⟨fun here => ?_, fun _ _ => runs, fun _ => ⟨absent, datum, found, gone, arrived⟩,
    fun _ _ => .inl runs, fun fails => ?_⟩
  · rw [absent] at here
    cases here
  · cases (stands.runs_iff _).mp fails

/-- A system other than `invoice_amount_msat` leaves the amounts alone. -/
theorem unchanged_of_other {func : EcsSystemFunction} (other : func ≠ .invoiceAmountMsat)
    (turned : flow.Turned blocks entity
      (func.effect answers.nonce blocks (flow.plugin.ec.current entity)) after) :
    ∀ component ∈ [amountComp, invoiceAmountComp],
      after.plugin.ec.cell entity component = flow.plugin.ec.cell entity component := by
  have apart : ∀ component ∈ [amountComp, invoiceAmountComp], syscomp ≠ component := by decide
  intro component member
  refine turned.cell_eq (fun m written => ?_) (apart component member)
  rintro rfl
  exact func.effect_amount other _ _ _ m written member

/-- `fail_invoice_amount_and_amount` finds both amounts, leaves them and ends the flow. -/
theorem gaveUp (stands : flow.At blocks entity (.notified .failInvoiceAmountAndAmount))
    (turned : flow.Turned blocks entity (EcsSystemFunction.effect answers.nonce blocks
      (flow.plugin.ec.current entity) .failInvoiceAmountAndAmount) after) :
    GaveUp answers entity flow after := by
  have hit := firstMatch_some stands.fits.2
  have stopped : after.At blocks entity .stopped := turned.stands
  refine ⟨fun component member => ⟨hit.required component ?_,
    unchanged_of_other (by decide) turned component member⟩, ?_, stopped.fits,
    flowRun_idle stopped.notifications stopped.requests answers⟩
  · revert component
    decide
  · rw [turned.cells errcomp (by decide), Ec.cell_setAll, if_pos rfl]
    rfl

/-- Of the amounts a reply of `decode` writes that of the invoice only, and detaches it with
    a `null` only. -/
theorem AmountStep.answered {string : Json} (stands : flow.At blocks entity (.decoding string))
    (wellFormed : (answers.decode string).WellFormed)
    (turned : flow.Turned blocks entity (answers.decode string).effect after) :
    AmountStep answers entity flow after := by
  have quiet : flow.plugin.notifications = [] := stands.notifications
  have requests : flow.plugin.requests = [⟨entity, string⟩] := stands.requests
  have amount : after.plugin.ec.cell entity amountComp = flow.plugin.ec.cell entity amountComp := by
    have apart : ∀ component ∈ [amountComp], component ≠ syscomp ∧ component ≠ errcomp ∧
        ¬ invoicePrefix <+: component := by decide
    refine turned.cell_eq (fun m written same => ?_) (by decide)
    exact (answers.decode string).effect_apart apart m written (List.mem_singleton.mpr same)
  refine ⟨fun there => by rw [amount, there], fun absent there => ?_,
    fun runs => absurd runs (flow.not_runs quiet _), fun there absent => .inr ?_,
    fun runs => absurd runs (flow.not_runs quiet _)⟩
  · rw [amount, absent] at there
    cases there
  · have cell := turned.cells invoiceAmountComp (by decide)
    rw [Ec.cell_setAll, if_pos rfl, absent] at cell
    cases reply : answers.decode string with
    | error res =>
        rw [reply] at cell
        have unwritten : Ec.lastValue (DecodeReply.error res).effect.writes invoiceAmountComp = none :=
          Ec.lastValue_eq_none (List.forall_mem_cons.mpr
            ⟨by dsimp only; decide, List.forall_mem_singleton.mpr (by dsimp only; decide)⟩)
        rw [unwritten, Option.elim_none] at cell
        rw [← cell] at there
        cases there
    | result text members =>
        rw [reply] at cell wellFormed
        have last : Ec.lastValue (DecodeReply.result text members).effect.writes invoiceAmountComp =
            Ec.lastValue members "amount_msat".toList := lastValue_invoicePrefix members _
        rw [last] at cell
        refine ⟨text, members, ⟨quiet, ⟨entity, string⟩, [], requests, reply⟩, ?_⟩
        cases value : Ec.lastValue members "amount_msat".toList with
        | none =>
            rw [value, Option.elim_none] at cell
            rw [← cell] at there
            cases there
        | some datum =>
            have member := Ec.mem_of_lastValue value
            rw [value, Option.elim_some, attached_some] at cell
            split_ifs at cell with null
            have json : datum.WellFormed := (members_wellFormed wellFormed _ member).2
            obtain rfl := json.jsonTokIsNull_iff.mp null
            exact member

theorem AmountStep.of_went (replies : ∀ string, (answers.decode string).WellFormed)
    {phase phase' : Phase} (stands : flow.At blocks entity phase)
    (went : Flow.Went answers blocks entity flow phase after phase') :
    AmountStep answers entity flow after := by
  cases went with
  | @ran _ func _ turned =>
      by_cases move : func = .invoiceAmountMsat
      · subst move
        exact .move stands turned
      · refine .of_unchanged (unchanged_of_other move turned) ?_ fun runs => ?_
        · rw [stands.runs_iff]
          exact Ne.symm move
        · obtain rfl := (stands.runs_iff _).mp runs
          exact gaveUp stands turned
  | answered _ turned => exact .answered stands (replies _) turned
  | rested resting =>
      have quiet : flow.plugin.notifications = [] := by
        rw [stands.notifications]
        cases phase with
        | notified | decoding => cases resting
        | exhausted | stopped => rfl
      exact .of_unchanged (fun _ _ => rfl) (flow.not_runs quiet _)
        fun runs => absurd runs (flow.not_runs quiet _)

/-! ## Whole runs -/

/-- Through a run of the default flow the amount stays what the caller or the invoice has
    made it: every turn is a step of this kind, and an amount that is attached is the same
    after any number of turns. -/
theorem default_flow_conserves_amount {p : Plugin} {params : Json}
    (replies : ∀ string, (answers.decode string).WellFormed) (ready : Ready blocks entity p)
    (wellFormed : params.WellFormed) (args : payecsAdvanceArgs params = .ok entity) :
    ∃ flow, flowStart p params = .ok flow ∧
      (∀ component ∈ [amountComp, invoiceAmountComp],
        flow.plugin.ec.cell entity component = p.ec.cell entity component) ∧
      ∀ turns, ∃ before, flowRun answers turns flow = .ok before ∧
        (∃ after, flowStep answers before = .ok after ∧ AmountStep answers entity before after) ∧
        ∀ {datum}, before.plugin.ec.cell entity amountComp = some datum → ∀ more, ∃ later,
          flowRun answers more before = .ok later ∧
            later.plugin.ec.cell entity amountComp = some datum := by
  obtain ⟨flow, started, -, turned⟩ := Flow.starts ready.ok ready.notifications ready.requests
    ready.named wellFormed args
  have apart : ∀ component ∈ [amountComp, invoiceAmountComp], syscomp ≠ component := by decide
  refine ⟨flow, started, fun component member => turned.cell_eq (by simp) (apart component member),
    fun turns => ?_⟩
  obtain ⟨before, phase, ran, stands, -⟩ := turned.stands.run replies (P := fun _ _ => True)
    (fun _ _ _ => trivial) trivial turns
  obtain ⟨after, phase', turn, -, went⟩ := stands.turn replies
  refine ⟨before, ran, ⟨after, turn, .of_went replies stands went⟩, fun {datum} there more => ?_⟩
  obtain ⟨later, -, ran', -, kept⟩ := stands.run replies
    (P := fun flow _ => flow.plugin.ec.cell entity amountComp = some datum)
    (fun stands there went => (AmountStep.of_went replies stands went).kept there) there more
  exact ⟨later, ran', kept⟩

end Turns

/-- The amount of an invoice becomes the amount of the payment, and stays it. -/
theorem default_flow_conserves_amount_of_invoice :
    ∃ flow after datum, datum = Json.string "1000msat".toList ∧
      flowStart (pluginWith [(invoiceAmountComp, datum), ("lightningd:nonce".toList, .string [])])
        (entityParams 1) = .ok flow ∧ flow.Runs .invoiceAmountMsat ∧
      flowStep undecodable flow = .ok after ∧
      after.plugin.ec.cell 1 invoiceAmountComp = none ∧
      ∀ more, ∃ later, flowRun undecodable more after = .ok later ∧
        later.plugin.ec.cell 1 amountComp = some datum := by
  have replies : ∀ string, (undecodable.decode string).WellFormed := fun _ =>
    .string (.of_plain rfl)
  have ready : Ready 2016 1 (pluginWith [(invoiceAmountComp, .string "1000msat".toList),
      ("lightningd:nonce".toList, .string [])]) := by
    refine ready_pluginWith (List.forall_mem_cons.mpr ⟨.string (.of_plain rfl), ?_⟩)
    exact List.forall_mem_singleton.mpr (.string (.of_plain rfl))
  obtain ⟨flow, started, same, run⟩ := default_flow_conserves_amount replies ready
    (entityParams_wellFormed 1) (payecsAdvanceArgs_entityParams 1)
  have raised : (flowStart (pluginWith [(invoiceAmountComp, .string "1000msat".toList),
      ("lightningd:nonce".toList, .string [])]) (entityParams 1)).map
        (fun flow => flow.plugin.notifications.map Notification.system) =
      .ok [EcsSystemFunction.invoiceAmountMsat.name] := by decide +kernel
  rw [started] at raised
  obtain ⟨n, notified, named⟩ := List.map_eq_singleton_iff.mp (Except.ok.inj raised)
  have runs : flow.Runs .invoiceAmountMsat := ⟨n, [], notified, named⟩
  obtain ⟨before, ran, ⟨after, step, amount⟩, -⟩ := run 0
  cases ran
  obtain ⟨-, datum, there, gone, moved⟩ := amount.moved runs
  have given : flow.plugin.ec.cell 1 invoiceAmountComp = some (.string "1000msat".toList) := by
    rw [same invoiceAmountComp (by decide)]
    rfl
  cases there.symm.trans given
  obtain ⟨before, ran, -, kept⟩ := run 1
  rw [flowRun, step] at ran
  cases ran
  exact ⟨flow, after, _, rfl, started, runs, step, gone, kept moved⟩

end Payz
