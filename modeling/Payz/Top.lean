import Payz.Ecs.Register

/-! # The built-in systems

What the `ecs_register_desc` arrays of `plugins/payz/systems` describe, and how
`setup_payz_top` registers them.
-/

namespace Payz

namespace EcsSystemFunction

/-- Name, required and disallowed components of each built-in system. -/
def registered : EcsSystemFunction → EcsysRegistered
  | .generateNonce =>
      ⟨"lightningd:generate_nonce".toList, ["lightningd:systems".toList],
        ["lightningd:nonce".toList]⟩
  | .parseInvoice =>
      ⟨"lightningd:parse_invoice".toList, ["lightningd:invoice".toList],
        ["lightningd:parse_invoice:ran".toList]⟩
  | .promoteInvoiceType =>
      ⟨"lightningd:promote_invoice_type".toList, ["lightningd:invoice:type".toList],
        ["lightningd:promote_invoice_type:ran".toList]⟩
  | .invoiceAmountMsat =>
      ⟨"lightningd:invoice_amount_msat".toList, ["lightningd:invoice:amount_msat".toList],
        ["lightningd:amount".toList]⟩
  | .failInvoiceAmountAndAmount =>
      ⟨"lightningd:fail_invoice_amount_and_amount".toList,
        ["lightningd:invoice:amount_msat".toList, "lightningd:amount".toList], []⟩
  | .defaulterRiskfactor =>
      ⟨"lightningd:default_riskfactor".toList, ["lightningd:main-payment".toList],
        ["lightningd:riskfactor".toList]⟩
  | .defaulterMaxfeepercent =>
      ⟨"lightningd:default_maxfeepercent".toList, ["lightningd:main-payment".toList],
        ["lightningd:maxfeepercent".toList]⟩
  | .defaulterRetryFor =>
      ⟨"lightningd:default_retry_for".toList, ["lightningd:main-payment".toList],
        ["lightningd:retry_for".toList]⟩
  | .defaulterMaxdelay =>
      ⟨"lightningd:default_maxdelay".toList, ["lightningd:main-payment".toList],
        ["lightningd:maxdelay".toList]⟩
  | .defaulterExemptfee =>
      ⟨"lightningd:default_exemptfee".toList, ["lightningd:main-payment".toList],
        ["lightningd:exemptfee".toList]⟩

def name (func : EcsSystemFunction) : Text := func.registered.system

/-- The descriptors of one built-in system. -/
def descs (func : EcsSystemFunction) : List EcsRegisterDesc :=
  [.name func.name, .func func] ++ func.registered.requiredComponents.map .require ++
    func.registered.disallowedComponents.map .disallow ++ [.done]

end EcsSystemFunction

open EcsSystemFunction

def systemNonce : List EcsRegisterDesc := generateNonce.descs ++ [.overAndOut]

def systemParseInvoice : List EcsRegisterDesc :=
  parseInvoice.descs ++ promoteInvoiceType.descs ++ [.overAndOut]

def systemInvoiceAmount : List EcsRegisterDesc :=
  invoiceAmountMsat.descs ++ failInvoiceAmountAndAmount.descs ++ [.overAndOut]

def systemDefaulter : List EcsRegisterDesc :=
  defaulterRiskfactor.descs ++ defaulterMaxfeepercent.descs ++ defaulterRetryFor.descs ++
    defaulterMaxdelay.descs ++ defaulterExemptfee.descs ++ [.overAndOut]

/-- The array that `setup_payz_top` concatenates. -/
def payzTopDescs : List EcsRegisterDesc :=
  [systemNonce, systemParseInvoice, systemInvoiceAmount, systemDefaulter].foldl ecsRegisterConcat
    ecsRegisterBegin

/-- The `default_systems` that `setup_payz_top` extracts from the array. -/
def extractNames : List EcsRegisterDesc → List Text
  | [] => []
  | .overAndOut :: _ => []
  | .name name :: descs => name :: extractNames descs
  | _ :: descs => extractNames descs

def defaultSystems : List Text := extractNames payzTopDescs

/-- `setup_payz_top`, as far as systems go. -/
def setupPayzTop : Except Fault Registry := ecsRegister .empty payzTopDescs

/-- The built-in systems, in the order of the default list. -/
def builtins : List EcsSystemFunction :=
  [generateNonce, parseInvoice, promoteInvoiceType, invoiceAmountMsat, failInvoiceAmountAndAmount,
    defaulterRiskfactor, defaulterMaxfeepercent, defaulterRetryFor, defaulterMaxdelay,
    defaulterExemptfee]

theorem mem_builtins (func : EcsSystemFunction) : func ∈ builtins := by
  cases func <;> decide

theorem defaultSystems_eq : defaultSystems = builtins.map EcsSystemFunction.name := rfl

/-- What the registries have to say about the built-in systems. -/
structure Registry.HasBuiltins (ecs : Registry) : Prop where
  systems : ∀ func : EcsSystemFunction, ecs.systems.map[func.name]? = some func.registered
  funcs : ∀ func : EcsSystemFunction, ecs.systemFuncs[func.name]? =
    some ⟨func.name, func, func.registered.requiredComponents⟩
  onlyFuncs : ∀ name ∈ ecs.systemFuncs, ∃ func : EcsSystemFunction, name = func.name

/-- The registries after `setup_payz_top`. -/
def builtinRegistry : Registry :=
  match setupPayzTop with
  | .ok ecs => ecs
  | .error _ => .empty

theorem setupPayzTop_eq : setupPayzTop = .ok builtinRegistry := rfl

/-- One evaluation of the registries answers all that is asked about them below. -/
theorem builtinRegistry_entries :
    (∀ name ∈ builtinRegistry.systems.map.keys, name ∈ defaultSystems) ∧
      (∀ name ∈ builtinRegistry.systemFuncs.keys, name ∈ defaultSystems) ∧
      ∀ func ∈ builtins, builtinRegistry.systems.map[func.name]? = some func.registered ∧
        builtinRegistry.systemFuncs[func.name]? =
          some ⟨func.name, func, func.registered.requiredComponents⟩ := by
  decide +kernel

theorem exists_builtin_of_mem {name : Text} (member : name ∈ defaultSystems) :
    ∃ func : EcsSystemFunction, name = func.name := by
  rw [defaultSystems_eq, List.mem_map] at member
  obtain ⟨func, -, rfl⟩ := member
  exact ⟨func, rfl⟩

theorem hasBuiltins_builtinRegistry : builtinRegistry.HasBuiltins where
  systems func := (builtinRegistry_entries.2.2 func (mem_builtins func)).1
  funcs func := (builtinRegistry_entries.2.2 func (mem_builtins func)).2
  onlyFuncs name member :=
    exists_builtin_of_mem (builtinRegistry_entries.2.1 name (Std.ExtTreeMap.mem_keys.mpr member))

end Payz
