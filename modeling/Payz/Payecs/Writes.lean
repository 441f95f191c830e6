import Payz.Ecs.History
import Payz.Payecs.Setcomponents

/-! # What the writing loop writes

A specification is meant to clear its entity if it is `exact`, and then to set or
detach the components it lists.  `applyWrites` says so for a whole list.  The loop
of `payecs_setcomponents` clears with the index of the specification instead of the
index of the component, so an `exact` specification removes one component at most;
what it leaves behind shows unless that one, or a later one, lists it.
-/

namespace Payz

/-- The contents of a table. -/
abbrev Cells : Type := UInt32 → Text → Option Json

namespace PayecsWritespec

/-- What a specification is meant to do. -/
def apply (w : PayecsWritespec) (cells : Cells) : Cells := fun entity component =>
  if w.entity = entity then
    w.components[component]?.elim (if w.exact then none else cells entity component)
      fun value => attached (some value)
  else cells entity component

/-- What one turn of the writing loop does with index `i`. -/
def written (w : PayecsWritespec) (i : Nat) (ec : Ec) : Cells := fun entity component =>
  if w.entity = entity then
    w.components[component]?.elim
      (if w.exact ∧ (ec.components w.entity)[i]? = some component then none
        else ec.cell entity component)
      fun value => attached (some value)
  else ec.cell entity component

/-- The index the clearing loop uses exists, if the loop turns at all. -/
def InBounds (w : PayecsWritespec) (i : Nat) (ec : Ec) : Prop :=
  w.exact = true → ec.components w.entity = [] ∨ i < (ec.components w.entity).length

def Lists (w : PayecsWritespec) (entity : UInt32) (component : Text) : Prop :=
  w.entity = entity ∧ component ∈ w.components

def Clears (w : PayecsWritespec) (entity : UInt32) : Prop := w.entity = entity ∧ w.exact = true

end PayecsWritespec

/-- Specifications applied from left to right. -/
def applyWrites (cells : Cells) (writes : List PayecsWritespec) : Cells :=
  writes.foldl (fun cells w => w.apply cells) cells

/-! ## One turn -/

theorem payecsSetcomponentsClear_ok {i : Nat} {entity : UInt32} {components : List Text}
    {component : Text} (inside : components[i]? = some component) (turns : Nat) (ec : Ec) :
    payecsSetcomponentsClear i entity components turns ec =
      .ok ((List.replicate turns component).foldl
        (fun ec component => ecSetComponent ec entity component none) ec) := by
  induction turns generalizing ec with
  | zero => rfl
  | succ turns ih => simp [payecsSetcomponentsClear, inside, ih, List.replicate_succ]

theorem cell_detach_replicate (ec : Ec) (entity entity' : UInt32) (component component' : Text)
    (turns : Nat) :
    ((List.replicate (turns + 1) component).foldl
        (fun ec component => ecSetComponent ec entity component none) ec).cell entity' component' =
      if entity = entity' ∧ component = component' then none else ec.cell entity' component' := by
  induction turns generalizing ec with
  | zero => simp [cell_ecSetComponent]
  | succ turns ih =>
      rw [List.replicate_succ, List.foldl_cons, ih, cell_ecSetComponent]
      split_ifs <;> rfl

theorem consistent_detach_replicate {ec : Ec} (consistent : ec.Consistent) (entity : UInt32)
    (component : Text) (turns : Nat) :
    ((List.replicate turns component).foldl
      (fun ec component => ecSetComponent ec entity component none) ec).Consistent := by
  induction turns generalizing ec with
  | zero => exact consistent
  | succ turns ih => exact ih (consistent.set entity component none)

theorem cell_payecsSetcomponentsWrite (ec : Ec) (w : PayecsWritespec) (entity : UInt32)
    (component : Text) :
    (payecsSetcomponentsWrite ec w).cell entity component =
      if w.entity = entity then
        w.components[component]?.elim (ec.cell entity component) fun value =>
          attached (some value)
      else ec.cell entity component := by
  rw [payecsSetcomponentsWrite, Ec.cell_setAll, Ec.lastValue_toList]

/-- A turn whose index exists goes through, and removes what that index names. -/
theorem payecsSetcomponentsWrite1_ok {ec : Ec} (consistent : ec.Consistent) {i : Nat}
    {w : PayecsWritespec} (inBounds : w.InBounds i ec) :
    ∃ ec', payecsSetcomponentsWrite1 i ec w = .ok ec' ∧ ec'.Consistent ∧
      ec'.cell = w.written i ec := by
  cases exact : w.exact with
  | false =>
      refine ⟨payecsSetcomponentsWrite ec w, by simp [payecsSetcomponentsWrite1, exact],
        consistent.setAll _ _, ?_⟩
      funext entity component
      simp [cell_payecsSetcomponentsWrite, PayecsWritespec.written, exact]
  | true =>
      rcases inBounds exact with empty | inside
      · refine ⟨payecsSetcomponentsWrite ec w, ?_, consistent.setAll _ _, ?_⟩
        · simp [payecsSetcomponentsWrite1, exact, ecGetComponents_eq consistent, empty,
            payecsSetcomponentsClear, Except.map]
        · funext entity component
          simp [cell_payecsSetcomponentsWrite, PayecsWritespec.written, empty]
      · obtain ⟨name, named⟩ : ∃ name, (ec.components w.entity)[i]? = some name :=
          ⟨_, List.getElem?_eq_getElem inside⟩
        have nonempty : ec.components w.entity ≠ [] := by
          intro empty
          simp [empty] at inside
        obtain ⟨turns, count⟩ : ∃ turns, (ec.components w.entity).length = turns + 1 :=
          ⟨_, (Nat.succ_pred_eq_of_pos (List.length_pos_iff.mpr nonempty)).symm⟩
        refine ⟨_, ?_, (consistent_detach_replicate consistent w.entity name
          (ec.components w.entity).length).setAll w.entity w.components.toList, ?_⟩
        · simp only [payecsSetcomponentsWrite1, exact, ecGetComponents_eq consistent, if_true,
            if_neg nonempty, Option.getD_some, payecsSetcomponentsClear_ok named]
          rfl
        · funext entity component
          change (payecsSetcomponentsWrite _ w).cell entity component = _
          rw [cell_payecsSetcomponentsWrite, count, cell_detach_replicate]
          by_cases same : w.entity = entity
          · subst same
            cases listed : w.components[component]? with
            | some value => simp [PayecsWritespec.written, listed]
            | none =>
                by_cases hit : name = component <;>
                  simp [PayecsWritespec.written, listed, exact, named, hit]
          · simp [PayecsWritespec.written, same]

theorem inBounds_of_ok {ec ec' : Ec} (consistent : ec.Consistent) {i : Nat} {w : PayecsWritespec}
    (turn : payecsSetcomponentsWrite1 i ec w = .ok ec') : w.InBounds i ec := by
  intro exact
  by_contra outside
  rw [not_or, Nat.not_lt] at outside
  obtain ⟨turns, count⟩ : ∃ turns, (ec.components w.entity).length = turns + 1 :=
    ⟨_, (Nat.succ_pred_eq_of_pos (List.length_pos_iff.mpr outside.1)).symm⟩
  have beyond : (ec.components w.entity)[i]? = none := List.getElem?_eq_none outside.2
  simp [payecsSetcomponentsWrite1, exact, ecGetComponents_eq consistent, outside.1, count,
    payecsSetcomponentsClear, beyond, Except.map] at turn

/-! ## Whole runs -/

theorem payecsSetcomponentsWrites_append (i : Nat) (ec : Ec) (first second : List PayecsWritespec) :
    payecsSetcomponentsWrites i ec (first ++ second) =
      match payecsSetcomponentsWrites i ec first with
      | .error fault => .error fault
      | .ok ec => payecsSetcomponentsWrites (i + first.length) ec second := by
  induction first generalizing i ec with
  | nil => simp [payecsSetcomponentsWrites]
  | cons w first ih =>
      rw [List.cons_append, payecsSetcomponentsWrites, payecsSetcomponentsWrites]
      cases payecsSetcomponentsWrite1 i ec w with
      | error fault => rfl
      | ok ec => simp only [ih, List.length_cons, Nat.add_assoc, Nat.add_comm 1]

/-- Splitting a run that went through at one of its specifications. -/
theorem payecsSetcomponentsWrites_split {i : Nat} {ec ec' : Ec} {first second : List PayecsWritespec}
    {w : PayecsWritespec} (run : payecsSetcomponentsWrites i ec (first ++ w :: second) = .ok ec') :
    ∃ before after, payecsSetcomponentsWrites i ec first = .ok before ∧
      payecsSetcomponentsWrite1 (i + first.length) before w = .ok after ∧
      payecsSetcomponentsWrites (i + first.length + 1) after second = .ok ec' := by
  rw [payecsSetcomponentsWrites_append] at run
  cases head : payecsSetcomponentsWrites i ec first with
  | error fault => simp [head] at run
  | ok before =>
      simp only [head, payecsSetcomponentsWrites] at run
      cases turn : payecsSetcomponentsWrite1 (i + first.length) before w with
      | error fault => simp [turn] at run
      | ok after => exact ⟨before, after, rfl, turn, by simpa [turn] using run⟩

theorem payecsSetcomponentsWrites_cons {i : Nat} {ec ec' : Ec} {writes : List PayecsWritespec}
    {w : PayecsWritespec} (consistent : ec.Consistent)
    (run : payecsSetcomponentsWrites i ec (w :: writes) = .ok ec') :
    ∃ after, payecsSetcomponentsWrite1 i ec w = .ok after ∧ after.Consistent ∧
      after.cell = w.written i ec ∧ payecsSetcomponentsWrites (i + 1) after writes = .ok ec' := by
  rw [payecsSetcomponentsWrites] at run
  cases turn : payecsSetcomponentsWrite1 i ec w with
  | error fault => simp [turn] at run
  | ok after =>
      obtain ⟨after', same, kept, cells⟩ :=
        payecsSetcomponentsWrite1_ok consistent (inBounds_of_ok consistent turn)
      rw [turn] at same
      cases same
      exact ⟨after, rfl, kept, cells, by simpa [turn] using run⟩

theorem consistent_of_writes {i : Nat} {ec ec' : Ec} {writes : List PayecsWritespec}
    (consistent : ec.Consistent) (run : payecsSetcomponentsWrites i ec writes = .ok ec') :
    ec'.Consistent := by
  induction writes generalizing i ec with
  | nil =>
      cases run
      exact consistent
  | cons w writes ih =>
      obtain ⟨after, -, kept, -, tail⟩ := payecsSetcomponentsWrites_cons consistent run
      exact ih kept tail

/-- What specifications make of one cell when none of them clears its entity. -/
def overlay (writes : List PayecsWritespec) (entity : UInt32) (component : Text)
    (start : Option Json) : Option Json :=
  writes.foldl (fun datum w =>
    if w.entity = entity then
      w.components[component]?.elim datum fun value => attached (some value)
    else datum) start

theorem overlay_unlisted {writes : List PayecsWritespec} {entity : UInt32} {component : Text}
    (unlisted : ∀ w ∈ writes, ¬ w.Lists entity component) (start : Option Json) :
    overlay writes entity component start = start := by
  induction writes with
  | nil => rfl
  | cons w writes ih =>
      rw [List.forall_mem_cons] at unlisted
      have skip : overlay (w :: writes) entity component start =
          overlay writes entity component start := by
        by_cases same : w.entity = entity
        · have absent : w.components[component]? = none :=
            Std.ExtTreeMap.getElem?_eq_none fun listed => unlisted.1 ⟨same, listed⟩
          simp [overlay, same, absent]
        · simp [overlay, same]
      rw [skip, ih unlisted.2]

theorem overlay_listed {writes : List PayecsWritespec} {entity : UInt32} {component : Text}
    (listed : ∃ w ∈ writes, w.Lists entity component) (start start' : Option Json) :
    overlay writes entity component start = overlay writes entity component start' := by
  induction writes generalizing start start' with
  | nil => simp at listed
  | cons w writes ih =>
      by_cases later : ∃ w ∈ writes, w.Lists entity component
      · exact ih later _ _
      · have here : w.Lists entity component := by
          obtain ⟨w', member, lists⟩ := listed
          rcases List.mem_cons.mp member with rfl | inside
          · exact lists
          · exact absurd ⟨w', inside, lists⟩ later
        obtain ⟨value, found⟩ := Option.isSome_iff_exists.mp
          (Std.ExtTreeMap.mem_iff_isSome_getElem?.mp here.2)
        simp [overlay, here.1, found]

theorem cell_of_writes_not_clearing {i : Nat} {ec ec' : Ec} {writes : List PayecsWritespec}
    {entity : UInt32} (consistent : ec.Consistent)
    (run : payecsSetcomponentsWrites i ec writes = .ok ec')
    (keeps : ∀ w ∈ writes, ¬ w.Clears entity) (component : Text) :
    ec'.cell entity component = overlay writes entity component (ec.cell entity component) := by
  induction writes generalizing i ec with
  | nil =>
      cases run
      rfl
  | cons w writes ih =>
      rw [List.forall_mem_cons] at keeps
      obtain ⟨after, -, kept, cells, tail⟩ := payecsSetcomponentsWrites_cons consistent run
      rw [ih kept tail keeps.2, cells]
      by_cases mine : w.entity = entity
      · have notExact : w.exact = false := by
          simpa [PayecsWritespec.Clears, mine] using keeps.1
        simp [overlay, PayecsWritespec.written, mine, notExact]
      · simp [overlay, PayecsWritespec.written, mine]

theorem applyWrites_not_clearing {writes : List PayecsWritespec} {entity : UInt32}
    (keeps : ∀ w ∈ writes, ¬ w.Clears entity) (cells : Cells) (component : Text) :
    applyWrites cells writes entity component =
      overlay writes entity component (cells entity component) := by
  induction writes generalizing cells with
  | nil => rfl
  | cons w writes ih =>
      rw [List.forall_mem_cons] at keeps
      have head : applyWrites cells (w :: writes) entity component =
          applyWrites (w.apply cells) writes entity component := rfl
      rw [head, ih keeps.2]
      by_cases mine : w.entity = entity
      · have notExact : w.exact = false := by
          simpa [PayecsWritespec.Clears, mine] using keeps.1
        simp [overlay, PayecsWritespec.apply, mine, notExact]
      · simp [overlay, PayecsWritespec.apply, mine]

/-- Either no specification clears an entity, or there is a last one that does. -/
theorem last_clearing (writes : List PayecsWritespec) (entity : UInt32) :
    (∀ w ∈ writes, ¬ w.Clears entity) ∨
      ∃ first w second, writes = first ++ w :: second ∧ w.Clears entity ∧
        ∀ w' ∈ second, ¬ w'.Clears entity := by
  induction writes with
  | nil => simp
  | cons w writes ih =>
      rcases ih with none | ⟨first, w', second, rfl, clears, rest⟩
      · by_cases here : w.Clears entity
        · exact .inr ⟨[], w, writes, rfl, here, none⟩
        · exact .inl (List.forall_mem_cons.mpr ⟨here, none⟩)
      · exact .inr ⟨w :: first, w', second, rfl, clears, rest⟩

/-- When the writing loop does what the specifications mean.  `first` is what comes
    before a clearing specification, so its length is the index the loop uses, and
    `before` is the table that specification finds. -/
structure WritesSound (ec : Ec) (writes : List PayecsWritespec) : Prop where
  inBounds : ∀ {first w second before}, writes = first ++ w :: second →
    payecsSetcomponentsWrites 0 ec first = .ok before → w.InBounds first.length before
  covered : ∀ {first w second before}, writes = first ++ w :: second → w.exact = true →
    (∀ w' ∈ second, ¬ w'.Clears w.entity) → payecsSetcomponentsWrites 0 ec first = .ok before →
    ∀ component ∈ before.components w.entity,
      (before.components w.entity)[first.length]? ≠ some component →
        ∃ w' ∈ w :: second, w'.Lists w.entity component

theorem writes_ok_of_inBounds {ec : Ec} (consistent : ec.Consistent) {writes : List PayecsWritespec}
    (inBounds : ∀ {first w second before}, writes = first ++ w :: second →
      payecsSetcomponentsWrites 0 ec first = .ok before → w.InBounds first.length before) :
    ∃ ec', payecsSetcomponentsWrites 0 ec writes = .ok ec' := by
  induction writes using List.reverseRecOn with
  | nil => exact ⟨ec, rfl⟩
  | append_singleton writes w ih =>
      obtain ⟨before, head⟩ := ih fun {first w' second _} split => by
        refine @inBounds first w' (second ++ [w]) _ ?_
        simp [split]
      obtain ⟨after, turn, -⟩ := payecsSetcomponentsWrite1_ok (consistent_of_writes consistent head)
        (inBounds rfl head)
      refine ⟨after, ?_⟩
      rw [payecsSetcomponentsWrites_append, head]
      simp [payecsSetcomponentsWrites, turn]

/-- At a clearing specification after which the entity is not cleared again, the
    loop and the meaning differ in what the loop left behind. -/
theorem cell_after_clearing {ec ec' : Ec} {writes first second : List PayecsWritespec}
    {w : PayecsWritespec} (consistent : ec.Consistent)
    (run : payecsSetcomponentsWrites 0 ec writes = .ok ec') (split : writes = first ++ w :: second)
    (exact : w.exact = true) (rest : ∀ w' ∈ second, ¬ w'.Clears w.entity) :
    ∃ before, payecsSetcomponentsWrites 0 ec first = .ok before ∧ ∀ component,
      ec'.cell w.entity component =
        overlay second w.entity component (w.written first.length before w.entity component) ∧
      applyWrites ec.cell writes w.entity component =
        overlay second w.entity component (w.apply (fun _ _ => none) w.entity component) := by
  subst split
  obtain ⟨before, after, head, turn, tail⟩ := payecsSetcomponentsWrites_split run
  have kept := consistent_of_writes consistent head
  obtain ⟨after', same, keptAfter, cells⟩ := payecsSetcomponentsWrite1_ok kept
    (inBounds_of_ok kept turn)
  rw [turn] at same
  cases same
  refine ⟨before, head, fun component => ⟨?_, ?_⟩⟩
  · rw [cell_of_writes_not_clearing keptAfter tail rest, cells, Nat.zero_add]
  · have cut : applyWrites ec.cell (first ++ w :: second) =
        applyWrites (w.apply (applyWrites ec.cell first)) second := by
      simp [applyWrites]
    rw [cut, applyWrites_not_clearing rest]
    simp [PayecsWritespec.apply, exact]

theorem WritesSound.of_applied {ec ec' : Ec} (consistent : ec.Consistent)
    {writes : List PayecsWritespec} (run : payecsSetcomponentsWrites 0 ec writes = .ok ec')
    (meaning : ec'.cell = applyWrites ec.cell writes) : WritesSound ec writes where
  inBounds := by
    rintro first w second before rfl head
    obtain ⟨before', after, head', turn, -⟩ := payecsSetcomponentsWrites_split run
    rw [head] at head'
    cases head'
    rw [Nat.zero_add] at turn
    exact inBounds_of_ok (consistent_of_writes consistent head) turn
  covered := by
    intro first w second before split exact rest head component there other
    by_contra unlisted
    push Not at unlisted
    rw [List.forall_mem_cons] at unlisted
    obtain ⟨before', head', cells⟩ := cell_after_clearing consistent run split exact rest
    rw [head] at head'
    cases head'
    obtain ⟨code, meant⟩ := cells component
    rw [overlay_unlisted unlisted.2] at code meant
    have absent : w.components[component]? = none :=
      Std.ExtTreeMap.getElem?_eq_none fun listed => unlisted.1 ⟨rfl, listed⟩
    have left : ec'.cell w.entity component = before.cell w.entity component := by
      rw [code]
      simp [PayecsWritespec.written, absent, other]
    have gone : applyWrites ec.cell writes w.entity component = none := by
      rw [meant]
      simp [PayecsWritespec.apply, absent]
    rw [Ec.mem_components, ← left, meaning, gone] at there
    cases there

theorem WritesSound.cell_eq {ec ec' : Ec} (consistent : ec.Consistent)
    {writes : List PayecsWritespec} (sound : WritesSound ec writes)
    (run : payecsSetcomponentsWrites 0 ec writes = .ok ec') (entity : UInt32) (component : Text) :
    ec'.cell entity component = applyWrites ec.cell writes entity component := by
  rcases last_clearing writes entity with keeps | ⟨first, w, second, split, ⟨rfl, exact⟩, rest⟩
  · rw [cell_of_writes_not_clearing consistent run keeps, applyWrites_not_clearing keeps]
  · obtain ⟨before, head, cells⟩ := cell_after_clearing consistent run split exact rest
    obtain ⟨code, meant⟩ := cells component
    rw [code, meant]
    by_cases later : ∃ w' ∈ second, w'.Lists w.entity component
    · exact overlay_listed later _ _
    · push Not at later
      rw [overlay_unlisted later, overlay_unlisted later]
      cases here : w.components[component]? with
      | some value => simp [PayecsWritespec.written, PayecsWritespec.apply, here]
      | none =>
          simp only [PayecsWritespec.written, PayecsWritespec.apply, here, exact, if_true,
            true_and, Option.elim_none]
          split_ifs with hit
          · rfl
          · rw [← Option.not_isSome_iff_eq_none, ← Ec.mem_components]
            intro there
            obtain ⟨w', member, lists⟩ := sound.covered split exact rest head component there hit
            rcases List.mem_cons.mp member with rfl | inside
            · have present := Std.ExtTreeMap.mem_iff_isSome_getElem?.mp lists.2
              simp [here] at present
            · exact later w' inside lists

/-- After an `exact` specification that is the last one for its entity, the entity is
    meant to have what that one lists with a value other than `null`. -/
theorem applyWrites_last_exact {first second : List PayecsWritespec} {w : PayecsWritespec}
    (exact : w.exact = true) (rest : ∀ w' ∈ second, w'.entity ≠ w.entity) (cells : Cells)
    (component : Text) :
    applyWrites cells (first ++ w :: second) w.entity component =
      attached w.components[component]? := by
  have keeps : ∀ w' ∈ second, ¬ w'.Clears w.entity := fun w' member clears =>
    rest w' member clears.1
  have cut : applyWrites cells (first ++ w :: second) =
      applyWrites (w.apply (applyWrites cells first)) second := by
    simp [applyWrites]
  rw [cut, applyWrites_not_clearing keeps,
    overlay_unlisted fun w' member lists => rest w' member lists.1]
  cases listed : w.components[component]? with
  | some value => simp [PayecsWritespec.apply, exact, listed]
  | none => simp [PayecsWritespec.apply, exact, listed]

/-- The writing loop goes through and applies its specifications from left to right
    exactly when it is sound. -/
theorem writes_apply_iff {ec : Ec} (consistent : ec.Consistent) (writes : List PayecsWritespec) :
    ((∃ ec', payecsSetcomponentsWrites 0 ec writes = .ok ec' ∧
        ec'.cell = applyWrites ec.cell writes) ↔ WritesSound ec writes) ∧
      ∀ first w second, writes = first ++ w :: second → w.exact = true →
        (∀ w' ∈ second, w'.entity ≠ w.entity) → ∀ component,
          applyWrites ec.cell writes w.entity component = attached w.components[component]? := by
  refine ⟨⟨?_, ?_⟩, ?_⟩
  · rintro ⟨ec', run, meaning⟩
    exact .of_applied consistent run meaning
  · intro sound
    obtain ⟨ec', run⟩ := writes_ok_of_inBounds consistent sound.inBounds
    refine ⟨ec', run, ?_⟩
    funext entity component
    exact sound.cell_eq consistent run entity component
  · rintro first w second rfl exact rest component
    exact applyWrites_last_exact exact rest ec.cell component

theorem eq_of_append_cons_eq_singleton {α : Type} {first second : List α} {a b : α}
    (split : [a] = first ++ b :: second) : first = [] ∧ b = a ∧ second = [] := by
  cases first with
  | nil =>
      simp only [List.nil_append, List.cons.injEq] at split
      exact ⟨rfl, split.1.symm, split.2.symm⟩
  | cons c first => simp at split

/-- An entity with one component is cleared by an `exact` specification. -/
theorem writes_apply_iff_one_component :
    ∃ ec', payecsSetcomponentsWrites 0 (ecAfter [⟨1, "a".toList, some (.primitive "1".toList)⟩])
        [⟨1, true, ∅, 0⟩] = .ok ec' ∧
      ec'.cell = applyWrites (ecAfter [⟨1, "a".toList, some (.primitive "1".toList)⟩]).cell
        [⟨1, true, ∅, 0⟩] := by
  have listing : (ecAfter [⟨1, "a".toList, some (.primitive "1".toList)⟩]).components 1 =
      ["a".toList] := by decide
  refine (writes_apply_iff (consistent_ecAfter _) _).1.mpr ⟨?_, ?_⟩
  · intro first w second before split head
    obtain ⟨rfl, rfl, rfl⟩ := eq_of_append_cons_eq_singleton split
    cases head
    intro _
    rw [listing]
    exact .inr (by decide)
  · intro first w second before split _ _ head component there other
    obtain ⟨rfl, rfl, rfl⟩ := eq_of_append_cons_eq_singleton split
    cases head
    rw [listing, List.mem_singleton] at there
    rw [listing, there] at other
    exact absurd rfl other

/-- With two components attached, an `exact` specification that lists nothing leaves
    one of them; and as the second of two specifications it reads outside of the
    array. -/
theorem exact_write_leaves_component :
    let ec := ecAfter [⟨1, "a".toList, some (.primitive "1".toList)⟩,
      ⟨1, "b".toList, some (.primitive "2".toList)⟩, ⟨2, "a".toList, some (.primitive "1".toList)⟩]
    let clear (entity : String) : Json := .tight
      [("entity".toList, .primitive entity.toList), ("exact".toList, .primitive "true".toList)]
    ∃ first second, jsonToPayecsWritespec (clear "1") = some first ∧
      jsonToPayecsWritespec (clear "2") = some second ∧
      (¬ ∃ ec', payecsSetcomponentsWrites 0 ec [first] = .ok ec' ∧
        ec'.cell = applyWrites ec.cell [first]) ∧
      payecsSetcomponentsWrites 0 ec [first, second] = .error .outOfBounds := by
  refine ⟨⟨1, true, ∅, 0⟩, ⟨2, true, ∅, 0⟩, rfl, rfl, ?_, rfl⟩
  rintro ⟨ec', run, meaning⟩
  have code : ec'.cell 1 "b".toList = some (.primitive "2".toList) := by
    cases run
    decide
  rw [meaning] at code
  revert code
  decide

end Payz
