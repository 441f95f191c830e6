import Payz.Flow.Rest

/-! # The default flow and the caller's settings

The systems of the default flow write names of their own: what they disallow, and so
find detached, what has to do with the invoice, `lightningd:error` and
`lightningd:systems`.  Everything else the caller has attached stays.
-/

namespace Payz

def mainPaymentComp : Text := "lightningd:main-payment".toList

/-- The settings that are filled in, with their defaults. -/
def builtinDefaults (nonce : Nonce) (blocks : Nat) : List (Text × Json) :=
  [("lightningd:nonce".toList, .string (talHexstr nonce.toList)),
    ("lightningd:riskfactor".toList, .primitive "10".toList),
    ("lightningd:maxfeepercent".toList, .primitive "0.5".toList),
    ("lightningd:retry_for".toList, .primitive "60".toList),
    ("lightningd:maxdelay".toList, .primitive (formatU blocks)),
    ("lightningd:exemptfee".toList, .string "5000msat".toList)]

/-- A name that the flow may write whatever the caller has attached under it. -/
def Exempt (component : Text) : Prop :=
  component = syscomp ∨ component = errcomp ∨ invoicePrefix <+: component

instance : DecidablePred Exempt := fun component =>
  inferInstanceAs (Decidable (component = syscomp ∨ component = errcomp ∨
    invoicePrefix <+: component))

theorem builtinDefaults_keys (nonce : Nonce) (blocks : Nat) :
    ((builtinDefaults nonce blocks).map Prod.fst).Nodup ∧
      ∀ d ∈ builtinDefaults nonce blocks, ¬ Exempt d.1 ∧ d.1 ∉ [parseRanComp,
        "lightningd:amount".toList] := by
  have keys : (builtinDefaults nonce blocks).map Prod.fst =
      ["lightningd:nonce".toList, "lightningd:riskfactor".toList,
        "lightningd:maxfeepercent".toList, "lightningd:retry_for".toList,
        "lightningd:maxdelay".toList, "lightningd:exemptfee".toList] := rfl
  refine ⟨by rw [keys]; decide +kernel, ?_⟩
  rw [← List.forall_mem_map (P := fun key => ¬ Exempt key ∧ key ∉ [parseRanComp,
    "lightningd:amount".toList]), keys]
  decide +kernel

theorem EcsSystemFunction.effect_default (func : EcsSystemFunction) {nonce : Nonce} {blocks : Nat}
    {values : Text → Json} {m d : Text × Json}
    (written : m ∈ (func.effect nonce blocks values).writes)
    (setting : d ∈ builtinDefaults nonce blocks) (same : m.1 = d.1) : m = d := by
  obtain ⟨nodup, apart⟩ := builtinDefaults_keys nonce blocks
  obtain ⟨notExempt, notOther⟩ := apart d setting
  have listed : ∀ i : Nat, (builtinDefaults nonce blocks)[i]? = some m → m = d := fun i here =>
    List.inj_on_of_nodup_map nodup (List.mem_of_getElem? here) setting same
  have exempt : Exempt m.1 → m = d := fun about => absurd (same ▸ about) notExempt
  have other : m.1 ∈ [parseRanComp, "lightningd:amount".toList] → m = d := fun member =>
    absurd (same ▸ member) notOther
  cases func with
  | failInvoiceAmountAndAmount =>
      rcases List.mem_cons.mp written with first | last
      · exact exempt (.inr (.inl (congrArg Prod.fst first)))
      · exact exempt (.inl (congrArg Prod.fst (List.mem_singleton.mp last)))
  | promoteInvoiceType =>
      have name := congrArg Prod.fst (List.mem_singleton.mp written)
      exact exempt (.inr (.inr (name ▸ invoicePrefix_type _)))
  | invoiceAmountMsat =>
      rcases List.mem_cons.mp written with first | last
      · exact exempt (.inr (.inr (congrArg Prod.fst first ▸ ⟨"amount_msat".toList, rfl⟩)))
      · exact other (congrArg Prod.fst (List.mem_singleton.mp last) ▸
          List.mem_cons_of_mem _ List.mem_cons_self)
  | parseInvoice =>
      exact other (congrArg Prod.fst (List.mem_singleton.mp written) ▸ List.mem_cons_self)
  | generateNonce => exact listed 0 (congrArg some (List.mem_singleton.mp written).symm)
  | defaulterRiskfactor => exact listed 1 (congrArg some (List.mem_singleton.mp written).symm)
  | defaulterMaxfeepercent => exact listed 2 (congrArg some (List.mem_singleton.mp written).symm)
  | defaulterRetryFor => exact listed 3 (congrArg some (List.mem_singleton.mp written).symm)
  | defaulterMaxdelay => exact listed 4 (congrArg some (List.mem_singleton.mp written).symm)
  | defaulterExemptfee => exact listed 5 (congrArg some (List.mem_singleton.mp written).symm)

theorem builtinDefaults_notNull (nonce : Nonce) (blocks : Nat) :
    ∀ d ∈ builtinDefaults nonce blocks, d.2.jsonTokIsNull = false := by
  simp only [builtinDefaults, List.forall_mem_cons]
  exact ⟨rfl, rfl, rfl, rfl, formatU_notNull blocks, rfl, by simp⟩

/-! ## What the flow keeps -/

/-- What was attached is as it was, a setting that was not is detached or has its
    default. -/
structure Kept (answers : Answers) (blocks : Nat) (entity : UInt32) (start now : Ec) : Prop where
  frame : ∀ component, (start.cell entity component).isSome → ¬ Exempt component →
    now.cell entity component = start.cell entity component
  filled : ∀ d ∈ builtinDefaults answers.nonce blocks, start.cell entity d.1 = none →
    now.cell entity d.1 = none ∨ now.cell entity d.1 = some d.2

theorem Kept.refl (answers : Answers) (blocks : Nat) (entity : UInt32) (ec : Ec) :
    Kept answers blocks entity ec ec :=
  ⟨fun _ _ _ => rfl, fun _ _ absent => .inl absent⟩

/-- It is enough that an effect writes no attached component but the exempt ones, and
    settings with their defaults. -/
theorem Kept.turned {answers : Answers} {blocks : Nat} {entity : UInt32} {start : Ec}
    {effect : Effect} {flow after : Flow} (kept : Kept answers blocks entity start flow.plugin.ec)
    (turned : flow.Turned blocks entity effect after)
    (fresh : ∀ m ∈ effect.writes, ¬ Exempt m.1 → flow.plugin.ec.cell entity m.1 = none)
    (defaults : ∀ m ∈ effect.writes, ∀ d ∈ builtinDefaults answers.nonce blocks,
      m.1 = d.1 → m = d) : Kept answers blocks entity start after.plugin.ec := by
  have apart : ∀ {component}, ¬ Exempt component → syscomp ≠ component := by
    rintro component notExempt rfl
    exact notExempt (.inl rfl)
  refine ⟨fun component there notExempt => ?_, fun d setting absent => ?_⟩
  · rw [← kept.frame component there notExempt]
    refine turned.cell_eq (fun m written same => ?_) (apart notExempt)
    subst same
    have found := fresh m written notExempt
    rw [kept.frame m.1 there notExempt] at found
    rw [found] at there
    cases there
  · have notExempt := ((builtinDefaults_keys answers.nonce blocks).2 d setting).1
    rw [turned.cells d.1 (apart notExempt), Ec.cell_setAll, if_pos rfl]
    cases last : Ec.lastValue effect.writes d.1 with
    | none => exact kept.filled d setting absent
    | some value =>
        have same := defaults _ (Ec.mem_of_lastValue last) d setting rfl
        have equal : value = d.2 := congrArg Prod.snd same
        refine .inr ?_
        rw [Option.elim_some, equal, attached_some,
          builtinDefaults_notNull answers.nonce blocks d setting]
        rfl

theorem Kept.keeps {answers : Answers} {blocks : Nat} {entity : UInt32} {start : Ec}
    {flow after : Flow} {phase phase' : Phase} (stands : flow.At blocks entity phase)
    (kept : Kept answers blocks entity start flow.plugin.ec)
    (went : Flow.Went answers blocks entity flow phase after phase') :
    Kept answers blocks entity start after.plugin.ec := by
  cases went with
  | rested => exact kept
  | @ran _ func _ turned =>
      have hit := firstMatch_some stands.fits.2
      refine kept.turned turned (fun m written notExempt => ?_) fun m written d setting same =>
        func.effect_default written setting same
      rcases func.effect_writes _ _ _ written with own | exempt
      · exact hit.disallowed m.1 own
      · exact absurd exempt notExempt
  | @answered _ string _ turned =>
      refine kept.turned turned (fun m written notExempt => ?_) fun m written d setting same => ?_
      · exact absurd ((answers.decode string).effect_writes written) notExempt
      · have notExempt := ((builtinDefaults_keys answers.nonce blocks).2 d setting).1
        exact absurd (same ▸ (answers.decode string).effect_writes written) notExempt

/-- Each setting is filled in by a system that asks for the main payment, the nonce by
    one that asks for the systems. -/
theorem builtinDefaults_systems (nonce : Nonce) (blocks : Nat) :
    ∀ d ∈ builtinDefaults nonce blocks, ∃ func : EcsSystemFunction, ∃ required,
      func.registered.requiredComponents = [required] ∧
      func.registered.disallowedComponents = [d.1] ∧
      (required = syscomp ∨ required = mainPaymentComp) := by
  simp only [builtinDefaults, List.forall_mem_cons]
  exact ⟨⟨.generateNonce, _, rfl, rfl, .inl rfl⟩, ⟨.defaulterRiskfactor, _, rfl, rfl, .inr rfl⟩,
    ⟨.defaulterMaxfeepercent, _, rfl, rfl, .inr rfl⟩, ⟨.defaulterRetryFor, _, rfl, rfl, .inr rfl⟩,
    ⟨.defaulterMaxdelay, _, rfl, rfl, .inr rfl⟩, ⟨.defaulterExemptfee, _, rfl, rfl, .inr rfl⟩,
    by simp⟩

theorem Kept.all_filled {answers : Answers} {blocks : Nat} {entity : UInt32} {start now : Ec}
    (kept : Kept answers blocks entity start now)
    (named : NamesSystems now entity defaultSystems) (none : firstMatch now entity = none)
    (main : (start.cell entity mainPaymentComp).isSome) :
    ∀ d ∈ builtinDefaults answers.nonce blocks,
      now.cell entity d.1 = some ((start.cell entity d.1).getD d.2) := by
  intro d setting
  have notExempt := ((builtinDefaults_keys answers.nonce blocks).2 d setting).1
  cases before : start.cell entity d.1 with
  | some datum =>
      rw [kept.frame d.1 (by simp [before]) notExempt, before]
      rfl
  | none =>
      obtain ⟨func, required, requires, disallows, which⟩ :=
        builtinDefaults_systems answers.nonce blocks d setting
      have unmatched := firstMatch_none none func
      rw [matches_single requires disallows] at unmatched
      have there : (now.cell entity required).isSome := by
        rcases which with rfl | rfl
        · obtain ⟨text, members, value, attached, -⟩ := named
          simp [attached]
        · rw [kept.frame mainPaymentComp main (by decide +kernel)]
          exact main
      rcases kept.filled d setting before with absent | filled
      · exact absurd ⟨there, absent⟩ unmatched
      · simpa using filled

/-- The default flow fills gaps: it does not abort, what the caller has attached stays,
    and a main payment that comes to rest has every setting. -/
theorem default_flow_fills_gaps {answers : Answers} {blocks : Nat} {entity : UInt32} {p : Plugin}
    {params : Json} (replies : ∀ string, (answers.decode string).WellFormed)
    (ready : Ready blocks entity p) (wellFormed : params.WellFormed)
    (args : payecsAdvanceArgs params = .ok entity) :
    ∃ flow, flowStart p params = .ok flow ∧ ∀ turns, ∃ done,
      flowRun answers turns flow = .ok done ∧
      (∀ component, (p.ec.cell entity component).isSome → component ≠ syscomp →
        component ≠ errcomp → ¬ invoicePrefix <+: component →
          done.plugin.ec.cell entity component = p.ec.cell entity component) ∧
      ((p.ec.cell entity mainPaymentComp).isSome → done.AtRest entity → done.report = some 2201 →
        ∀ d ∈ builtinDefaults answers.nonce blocks,
          done.plugin.ec.cell entity d.1 = some ((p.ec.cell entity d.1).getD d.2)) := by
  obtain ⟨flow, started, -, turned⟩ := Flow.starts ready.ok ready.notifications ready.requests
    ready.named wellFormed args
  refine ⟨flow, started, fun turns => ?_⟩
  have start : Kept answers blocks entity p.ec flow.plugin.ec :=
    (Kept.refl answers blocks entity p.ec).turned turned (by simp) (by simp)
  obtain ⟨done, phase, ran, stands, kept⟩ := turned.stands.run replies
    (P := fun flow _ => Kept answers blocks entity p.ec flow.plugin.ec)
    (fun stands kept went => kept.keeps stands went) start turns
  refine ⟨done, ran, fun component there systems error invoice => ?_, fun main rest report => ?_⟩
  · refine kept.frame component there ?_
    rintro (same | same | about)
    · exact systems same
    · exact error same
    · exact invoice about
  · have resting := stands.resting rest
    have reported := stands.report
    cases phase with
    | notified | decoding => cases resting
    | stopped =>
        rw [report] at reported
        cases reported
    | exhausted => exact kept.all_filled stands.fits.1 stands.fits.2 main

/-- A main payment for which the caller has set all but `retry_for`. -/
def settings : List (Text × Json) :=
  [("lightningd:exemptfee".toList, .primitive (formatU 5)),
    ("lightningd:maxdelay".toList, .primitive (formatU 100)),
    ("lightningd:maxfeepercent".toList, .primitive (formatU 2)), (mainPaymentComp, trueDatum),
    ("lightningd:nonce".toList, .string []), ("lightningd:riskfactor".toList, .primitive (formatU 1))]

/-- It comes to rest in one turn, with the default of `retry_for` and a riskfactor of its own. -/
theorem default_flow_fills_gaps_retry_for :
    ∃ flow done, flowStart (pluginWith settings) (entityParams 1) = .ok flow ∧
      flowRun undecodable 1 flow = .ok done ∧ done.AtRest 1 ∧
      done.plugin.ec.cell 1 "lightningd:riskfactor".toList = some (.primitive (formatU 1)) ∧
      done.plugin.ec.cell 1 "lightningd:retry_for".toList = some (.primitive "60".toList) := by
  have replies : ∀ string, (undecodable.decode string).WellFormed := fun _ =>
    .string (.of_plain rfl)
  have ready : Ready 2016 1 (pluginWith settings) := by
    refine ready_pluginWith ?_
    simp only [settings, List.forall_mem_cons]
    exact ⟨.formatU 5, .formatU 100, .formatU 2, trueDatum_wellFormed, .string (.of_plain rfl),
      .formatU 1, List.forall_mem_nil _⟩
  obtain ⟨flow, started, run⟩ :=
    default_flow_fills_gaps replies ready (entityParams_wellFormed 1)
      (payecsAdvanceArgs_entityParams 1)
  obtain ⟨done, ran, frame, filled⟩ := run 1
  have ended : ((flowStart (pluginWith settings) (entityParams 1)).bind (flowRun undecodable 1)).map
      (fun done => (done.report, done.plugin.notifications, done.plugin.requests)) =
      .ok (some 2201, [], []) := by decide +kernel
  simp only [started, Except.bind, ran, Except.map, Except.ok.injEq, Prod.mk.injEq] at ended
  obtain ⟨report, notifications, requests⟩ := ended
  have rest : done.AtRest 1 := ⟨notifications, requests, .inl report⟩
  refine ⟨flow, done, started, ran, rest, ?_, ?_⟩
  · exact frame _ rfl (by decide +kernel) (by decide +kernel) (by decide +kernel)
  · exact filled rfl rest report _ (List.mem_of_getElem? (i := 3) rfl)

end Payz
