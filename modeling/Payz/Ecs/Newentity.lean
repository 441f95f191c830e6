import Mathlib.Data.List.Nodup
import Mathlib.Data.List.Range
import Payz.Ecs.History
import Payz.Lib.Runs

/-! # Fresh entity IDs

The calls that a process makes on its table, in any order, and the IDs that those of
`ec_newentity` return.  The counter has 32 bits: it returns 1, 2, and so on, and 0 after
all other IDs.
-/

namespace Payz

open Runs

inductive EcOp where
  | newentity
  | getEntityBounds
  | getComponents (entity : UInt32)
  | getComponent (entity : UInt32) (component : Text)
  | setComponent (call : EcCall)
  | setComponentDatum (entity : UInt32) (component : Text) (value : Option Text)
  deriving Repr, DecidableEq

/-- The table after a call, and the ID that `ec_newentity` returns. -/
def EcOp.run (ec : Ec) : EcOp → Except Fault (Ec × Option UInt32)
  | .newentity => .ok ((ecNewentity ec).2, some (ecNewentity ec).1)
  | .getEntityBounds | .getComponent _ _ => .ok (ec, none)
  | .getComponents entity => (ecGetComponents ec entity).map fun _ => (ec, none)
  | .setComponent call => .ok (call.apply ec, none)
  | .setComponentDatum entity component value =>
      (ecSetComponentDatum ec entity component value).map fun ec => (ec, none)

structure EcLabel where
  op : EcOp
  returned : Option UInt32
  deriving Repr, DecidableEq

/-- One call, which does not end the process. -/
def EcLabel.Step (ec : Ec) (label : EcLabel) (ec' : Ec) : Prop :=
  label.op.run ec = .ok (ec', label.returned)

def newIds (labels : List EcLabel) : List UInt32 := labels.filterMap EcLabel.returned

def newentityCalls (labels : List EcLabel) : Nat := (labels.map EcLabel.op).count .newentity

/-- No ID is 0, and none is returned twice. -/
def FreshIds (labels : List EcLabel) : Prop := 0 ∉ newIds labels ∧ (newIds labels).Nodup

/-- The IDs that so many calls return. -/
def counted (calls : Nat) : List UInt32 := (List.range calls).map fun k => UInt32.ofNat (k + 1)

theorem counted_succ (calls : Nat) :
    counted (calls + 1) = counted calls ++ [UInt32.ofNat (calls + 1)] := by
  simp only [counted, List.range_succ, List.map_append, List.map_cons, List.map_nil]

theorem EcLabel.Step.counter {ec ec' : Ec} {label : EcLabel} (step : label.Step ec ec') :
    label.op = .newentity ∧ label.returned = some ec.nextEntity ∧
        ec'.nextEntity = ec.nextEntity + 1 ∨
      label.op ≠ .newentity ∧ label.returned = none ∧ ec'.nextEntity = ec.nextEntity := by
  obtain ⟨op, returned⟩ := label
  cases op with
  | newentity =>
      cases step
      exact .inl ⟨rfl, rfl, rfl⟩
  | getEntityBounds | getComponent entity component =>
      cases step
      exact .inr ⟨nofun, rfl, rfl⟩
  | getComponents entity =>
      obtain ⟨names, -, same⟩ := eq_of_map_eq_ok step
      cases same
      exact .inr ⟨nofun, rfl, rfl⟩
  | setComponent call =>
      cases step
      exact .inr ⟨nofun, rfl, nextEntity_ecSetComponent ec call.entity call.component call.value⟩
  | setComponentDatum entity component value =>
      obtain ⟨ec₁, set, same⟩ := eq_of_map_eq_ok step
      cases same
      refine .inr ⟨nofun, rfl, ?_⟩
      cases value with
      | none =>
          cases set
          exact nextEntity_ecSetComponent ec entity component none
      | some value =>
          rw [ecSetComponentDatum] at set
          cases parsed : jsonParseSimple value with
          | none =>
              rw [parsed] at set
              cases set
          | some datum =>
              rw [parsed] at set
              cases set
              exact nextEntity_ecSetComponent ec entity component (some datum)

/-- What holds of the calls so far and of the counter. -/
structure Counts (labels : List EcLabel) (ec : Ec) : Prop where
  ids : newIds labels = counted (newentityCalls labels)
  next : ec.nextEntity = UInt32.ofNat (newentityCalls labels + 1)

theorem Counts.step {past : List EcLabel} {ec ec' : Ec} {label : EcLabel} (counts : Counts past ec)
    (step : label.Step ec ec') : Counts (past ++ [label]) ec' := by
  have ids := counts.ids
  have next := counts.next
  have split : newIds (past ++ [label]) = newIds past ++ label.returned.toList := by
    cases returned : label.returned <;> simp [newIds, returned]
  have calls : newentityCalls (past ++ [label]) =
      newentityCalls past + [label.op].count .newentity := by
    simp [newentityCalls]
  obtain ⟨called, returned, counter⟩ | ⟨other, returned, counter⟩ := step.counter
  · have more : newentityCalls (past ++ [label]) = newentityCalls past + 1 := by
      rw [calls, called, List.count_singleton_self]
    constructor
    · rw [split, returned, more, counted_succ, ids, next, Option.toList_some]
    · rw [counter, next, more, UInt32.ofNat_add (newentityCalls past + 1) 1]
      rfl
  · have same : newentityCalls (past ++ [label]) = newentityCalls past := by
      rw [calls, List.count_singleton, if_neg (by simpa using other), Nat.add_zero]
    constructor
    · rw [split, returned, same, ids, Option.toList_none, List.append_nil]
    · rw [counter, next, same]

/-- The IDs of a run are 1, 2, and so on, whatever happens in between. -/
theorem counts_of_run {labels : List EcLabel} {ec : Ec} (run : Run EcLabel.Step ecNew labels ec) :
    Counts labels ec := by
  have start : Counts [] ecNew := ⟨rfl, rfl⟩
  exact run.history (P := Counts) (fun _ _ _ _ counts step => counts.step step) start

theorem zero_mem_counted {calls : Nat} : 0 ∈ counted calls ↔ 2 ^ 32 ≤ calls := by
  constructor
  · intro member
    obtain ⟨k, below, zero⟩ := List.mem_map.mp member
    have wrapped := congrArg UInt32.toNat zero
    rw [List.mem_range] at below
    simp only [UInt32.toNat_ofNat', UInt32.toNat_zero] at wrapped
    omega
  · intro wraps
    exact List.mem_map.mpr ⟨2 ^ 32 - 1, List.mem_range.mpr (by omega), rfl⟩

theorem nodup_counted {calls : Nat} (few : calls < 2 ^ 32) : (counted calls).Nodup := by
  apply List.Nodup.map_on _ List.nodup_range
  intro k first l second same
  have equal := congrArg UInt32.toNat same
  rw [List.mem_range] at first second
  simp only [UInt32.toNat_ofNat'] at equal
  omega

theorem freshIds_counted {calls : Nat} :
    (0 ∉ counted calls ∧ (counted calls).Nodup) ↔ calls < 2 ^ 32 := by
  constructor
  · intro fresh
    exact Nat.not_le.mp fun wraps => fresh.1 (zero_mem_counted.mpr wraps)
  · intro few
    exact ⟨fun zero => Nat.not_le.mpr few (zero_mem_counted.mp zero), nodup_counted few⟩

/-- The IDs of a run are fresh exactly as long as the counter has not wrapped around. -/
theorem newentity_fresh_iff {labels : List EcLabel} {ec : Ec}
    (run : Run EcLabel.Step ecNew labels ec) : FreshIds labels ↔ newentityCalls labels < 2 ^ 32 := by
  rw [FreshIds, (counts_of_run run).ids]
  exact freshIds_counted

/-- Two entities, the first of which is written to in between. -/
theorem newentity_fresh_iff_two :
    FreshIds [⟨.newentity, some 1⟩, ⟨.setComponent ⟨1, "a".toList, some nullDatum⟩, none⟩,
      ⟨.newentity, some 2⟩] :=
  have first : EcLabel.Step ecNew ⟨.newentity, some 1⟩ ⟨2, ∅⟩ := rfl
  have write : EcLabel.Step ⟨2, ∅⟩ ⟨.setComponent ⟨1, "a".toList, some nullDatum⟩, none⟩ ⟨2, ∅⟩ :=
    rfl
  have second : EcLabel.Step ⟨2, ∅⟩ ⟨.newentity, some 2⟩ ⟨3, ∅⟩ := rfl
  (newentity_fresh_iff (.cons first (.cons write (.cons second .nil)))).mpr (by decide)

def newentities (calls : Nat) : List EcLabel :=
  (List.range calls).map fun k => ⟨.newentity, some (UInt32.ofNat (k + 1))⟩

theorem run_newentities (calls : Nat) :
    Run EcLabel.Step ecNew (newentities calls) ⟨UInt32.ofNat (calls + 1), ∅⟩ := by
  induction calls with
  | zero => exact .nil
  | succ calls ih =>
      have last : EcLabel.Step ⟨UInt32.ofNat (calls + 1), ∅⟩
          ⟨.newentity, some (UInt32.ofNat (calls + 1))⟩ ⟨UInt32.ofNat (calls + 1 + 1), ∅⟩ := by
        rw [UInt32.ofNat_add (calls + 1) 1]
        rfl
      rw [newentities, List.range_succ, List.map_append]
      exact ih.append (.cons last .nil)

/-- After 2^32 calls 0 has been returned. -/
theorem newentity_returns_zero :
    Run EcLabel.Step ecNew (newentities (2 ^ 32)) ⟨1, ∅⟩ ∧ ¬ FreshIds (newentities (2 ^ 32)) := by
  refine ⟨run_newentities (2 ^ 32), fun fresh => fresh.1 ?_⟩
  rw [newIds, newentities, List.filterMap_map]
  exact List.mem_filterMap.mpr ⟨2 ^ 32 - 1, List.mem_range.mpr (by decide), rfl⟩

end Payz
