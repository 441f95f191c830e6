import Payz.Ccan.Intmap
import Payz.Ccan.Names
import Payz.Ecs.Ec

/-! # The table on its maps

`plugins/payz/ecs/ec.c` once more, with the integer map and the string maps that it keeps
its rows and cells in.  A row is changed in place, through the pointer in the integer map.
-/

namespace Payz

open Critbit

theorem Labelled.revise {V : Type} {bit : IntmapIndex → IntmapIndex → Bool} {index : IntmapIndex}
    {value : V} {t : Trie IntmapIndex IntmapIndex V} (labelled : Labelled t) :
    Labelled (t.revise bit index value) := by
  induction t with
  | leaf => trivial
  | node word child0 child1 ih0 ih1 =>
      obtain ⟨labelled0, labelled1, n, inside, words⟩ := labelled
      rw [Trie.revise]
      split_ifs
      · refine ⟨labelled0, ih1 labelled1, n, inside, fun e member => ?_⟩
        rcases List.mem_append.mp member with left | right
        · exact words e (List.mem_append_left _ left)
        · obtain ⟨v, there⟩ := Trie.exists_of_mem_revise right
          exact words (e.1, v) (List.mem_append_right _ there)
      · refine ⟨ih0 labelled0, labelled1, n, inside, fun e member => ?_⟩
        rcases List.mem_append.mp member with left | right
        · obtain ⟨v, there⟩ := Trie.exists_of_mem_revise left
          exact words (e.1, v) (List.mem_append_left _ there)
        · exact words e (List.mem_append_right _ right)

/-- Changing an object in place that an index points to. -/
def intmapRevise {V : Type} (map : Intmap V) (index : IntmapIndex) (value : V) : Intmap V :=
  map.map (Trie.revise intmapDirection index value)

/-- `struct ec`, with the `component_map` of each row. -/
structure EcMaps where
  nextEntity : UInt32
  entityMap : Intmap (Strmap EcCell)

/-- The index of an entity, which is widened. -/
def entityIndex (entity : UInt32) : IntmapIndex := uintmapCode.off entity.toUInt64

namespace EcMaps

/-- `ec_new`. -/
def new : EcMaps := ⟨1, none⟩

/-- `ec_newentity`. -/
def newentity (ec : EcMaps) : UInt32 × EcMaps :=
  (ec.nextEntity, { ec with nextEntity := ec.nextEntity + 1 })

/-- `ec_get_entity_bounds`: the indices are narrowed. -/
def getEntityBounds (ec : EcMaps) : UInt32 × UInt32 :=
  if intmapEmpty ec.entityMap then (0, 0)
  else
    match Intmap.uncode uintmapCode (intmapFirst ec.entityMap),
      Intmap.uncode uintmapCode (intmapLast ec.entityMap) with
    | some (min, _), some (max, _) => (min.toUInt32, max.toUInt32 + 1)
    | _, _ => (0, 0)

/-- `ec_get_components`, with its handler: `none` for `NULL`. -/
def getComponents (ec : EcMaps) (entity : UInt32) : Except Fault (Option (List CStr)) :=
  match intmapGet ec.entityMap (entityIndex entity) with
  | none => .ok none
  | some entityrow =>
      let components :=
        strmapIterate entityrow (fun name _ components => (true, components ++ [name])) []
      if components.length = 0 then .error .assertion else .ok (some components)

/-- `ec_get_component`. -/
def getComponent (ec : EcMaps) (entity : UInt32) (component : CText) : Bool × Json :=
  match intmapGet ec.entityMap (entityIndex entity) with
  | none => (false, nullDatum)
  | some entityrow =>
      match strmapGet entityrow component.cstr with
      | none => (false, nullDatum)
      | some cell => (true, cell.datum)

/-- The detaching half of `ec_set_component`. -/
def detach (ec : EcMaps) (entity : UInt32) (component : CText) : EcMaps :=
  match intmapGet ec.entityMap (entityIndex entity) with
  | none => ec
  | some entityrow =>
      match strmapGet entityrow component.cstr with
      | none => ec
      | some _ =>
          let entityrow := (strmapDel entityrow component.cstr).2
          let entityMap := intmapRevise ec.entityMap (entityIndex entity) entityrow
          if strmapEmpty entityrow then
            { ec with entityMap := (intmapDel entityMap (entityIndex entity)).2 }
          else { ec with entityMap }

/-- The attaching half of `ec_set_component`. -/
def attach (ec : EcMaps) (entity : UInt32) (component : CText) (datum : Json) : EcMaps :=
  let (entityMap, entityrow) :=
    match intmapGet ec.entityMap (entityIndex entity) with
    | none => ((intmapAdd ec.entityMap (entityIndex entity) none).2, none)
    | some entityrow =>
        match strmapGet entityrow component.cstr with
        | none => (ec.entityMap, entityrow)
        | some _ => (ec.entityMap, (strmapDel entityrow component.cstr).2)
  let entityrow := (strmapAdd entityrow component.cstr ⟨component.1, datum⟩).2
  { ec with entityMap := intmapRevise entityMap (entityIndex entity) entityrow }

/-- `ec_set_component`: `none` for a `NULL` buffer and token. -/
def setComponent (ec : EcMaps) (entity : UInt32) (component : CText) : Option Json → EcMaps
  | none => ec.detach entity component
  | some datum =>
      if datum.jsonTokIsNull then ec.detach entity component
      else ec.attach entity component datum

end EcMaps

/-! ## Rows -/

/-- A string map keeps a row: what is under the C string of a name is under the name. -/
structure RowKeeps (row : Strmap EcCell) (entityrow : EcEntityrow) : Prop where
  tree : Critbit.Keeps strmapDirection row
    (Function.extend CText.cstr (fun name => entityrow[name.1]?) fun _ => none)
  noNul : ∀ name ∈ entityrow, '\x00' ∉ name

theorem extend_update {α β γ : Type} [DecidableEq α] [DecidableEq β] {enc : α → β}
    (injective : Function.Injective enc) (f : α → γ) (g : β → γ) (a : α) (c : γ) :
    Function.update (Function.extend enc f g) (enc a) c =
      Function.extend enc (Function.update f a c) g := by
  funext b
  by_cases code : ∃ a, enc a = b
  · obtain ⟨a', rfl⟩ := code
    rw [injective.extend_apply]
    by_cases same : a' = a
    · simp [same]
    · have other : enc a' ≠ enc a := fun equal => same (injective equal)
      rw [Function.update_of_ne other, Function.update_of_ne same, injective.extend_apply]
  · have other : b ≠ enc a := fun equal => code ⟨a, equal.symm⟩
    rw [Function.update_of_ne other, Function.extend_apply' _ _ _ code,
      Function.extend_apply' _ _ _ code]

namespace RowKeeps

variable {row : Strmap EcCell} {entityrow : EcEntityrow}

theorem empty : RowKeeps none ∅ := by
  refine ⟨Critbit.keeps_none.congr fun k => ?_, by simp⟩
  by_cases code : ∃ name : CText, name.cstr = k
  · obtain ⟨name, rfl⟩ := code
    rw [CText.cstr_injective.extend_apply]
    simp
  · rw [Function.extend_apply' _ _ _ code]

theorem get (keeps : RowKeeps row entityrow) (name : CText) :
    strmapGet row name.cstr = entityrow[name.1]? := by
  rw [strmapGet_eq keeps.tree, CText.cstr_injective.extend_apply]

theorem congr_update {entityrow' : EcEntityrow} {name : CText} {cell : Option EcCell}
    (tree : Critbit.Keeps strmapDirection row
      (Function.update (Function.extend CText.cstr (fun name => entityrow[name.1]?) fun _ => none)
        name.cstr cell))
    (same : ∀ text, Function.update (fun text => entityrow[text]?) name.1 cell text =
      entityrow'[text]?) :
    Critbit.Keeps strmapDirection row
      (Function.extend CText.cstr (fun name => entityrow'[name.1]?) fun _ => none) := by
  rw [extend_update CText.cstr_injective] at tree
  convert tree using 2
  funext name'
  rw [← same]
  by_cases equal : name' = name
  · simp [equal]
  · have other : name'.1 ≠ name.1 := fun texts => equal (Subtype.ext texts)
    rw [Function.update_of_ne equal, Function.update_of_ne other]

theorem add (keeps : RowKeeps row entityrow) (name : CText) (cell : EcCell) :
    RowKeeps (strmapAdd row name.cstr cell).2 (entityrow.insertIfNew name.1 cell) := by
  have added := (strmapAdd_keeps keeps.tree name.cstr cell).2
  rw [CText.cstr_injective.extend_apply] at added
  refine ⟨congr_update added (update_insertIfNew entityrow name.1 cell), fun text member => ?_⟩
  rw [Std.ExtTreeMap.mem_insertIfNew] at member
  rcases member with same | old
  · rw [← Std.LawfulEqCmp.eq_of_compare same]
    exact name.2
  · exact keeps.noNul text old

theorem del (keeps : RowKeeps row entityrow) (name : CText) :
    RowKeeps (strmapDel row name.cstr).2 (entityrow.erase name.1) := by
  have removed := (strmapDel_keeps keeps.tree name.cstr).2
  exact ⟨congr_update removed (update_erase entityrow name.1), fun text member =>
    keeps.noNul text (Std.ExtTreeMap.mem_of_mem_erase member)⟩

theorem names (keeps : RowKeeps row entityrow) :
    (entriesOf row).map (fun e => e.1.bytes) =
      entityrow.keys.map fun name => name.flatMap String.utf8EncodeChar := by
  have noNul : ∀ e ∈ entityrow.toList, '\x00' ∉ e.1 := fun e member => by
    have found := Std.ExtTreeMap.mem_toList_iff_getElem?_eq_some.mp member
    exact keeps.noNul e.1 (Std.ExtTreeMap.mem_iff_isSome_getElem?.mpr (by rw [found]; rfl))
  have ordered : (entityrow.toList.pmap (fun e h => (CText.cstr ⟨e.1, h⟩, e.2)) noNul).Pairwise
      fun a b => Before strmapDirection a.1 b.1 := by
    refine List.Pairwise.pmap Std.ExtTreeMap.ordered_keys_toList noNul ?_
    intro a _ b _ less
    exact before_iff_lt.mpr (CText.cstr_lt (compare_eq_lt_iff.mp less))
  have same : entriesOf row = entityrow.toList.pmap (fun e h => (CText.cstr ⟨e.1, h⟩, e.2)) noNul := by
    refine keeps.tree.entries_eq ordered fun k cell => ?_
    rw [List.mem_pmap]
    constructor
    · rintro ⟨e, member, equal⟩
      cases equal
      rw [CText.cstr_injective.extend_apply]
      exact Std.ExtTreeMap.mem_toList_iff_getElem?_eq_some.mp member
    · intro found
      by_cases code : ∃ name : CText, name.cstr = k
      · obtain ⟨name, rfl⟩ := code
        rw [CText.cstr_injective.extend_apply] at found
        exact ⟨(name.1, cell), Std.ExtTreeMap.mem_toList_iff_getElem?_eq_some.mpr found, rfl⟩
      · rw [Function.extend_apply' _ _ _ code] at found
        cases found
  rw [same, List.map_pmap, ← Std.ExtTreeMap.map_fst_toList_eq_keys, List.map_map]
  exact List.pmap_eq_map (f := fun e => e.1.flatMap String.utf8EncodeChar) noNul

theorem isEmpty (keeps : RowKeeps row entityrow) : strmapEmpty row = entityrow.isEmpty := by
  have names := congrArg List.isEmpty keeps.names
  rw [List.isEmpty_map, List.isEmpty_map, Std.ExtTreeMap.isEmpty_keys] at names
  rw [strmapEmpty_eq, names]

end RowKeeps

/-! ## The table -/

theorem intmapRevise_keeps {V : Type} {map : Intmap V} {f : IntmapIndex → Option V}
    (keeps : IntmapKeeps map f) (index : IntmapIndex) (there : (f index).isSome) (value : V) :
    IntmapKeeps (intmapRevise map index value) (Function.update f index (some value)) := by
  have get := intmapGet_eq keeps index
  rw [← get] at there
  cases map with
  | none => cases there
  | some t =>
      have found : index = (t.closest intmapDirection index).1 := by
        rw [intmapGet] at there
        by_contra other
        rw [if_neg other] at there
        cases there
      refine ⟨fun t' equal => ?_, ?_⟩
      · cases equal
        exact (keeps.labelled t rfl).revise
      · have revised := keeps.tree.revise index value (by rw [closest_eq, ← found])
        rwa [Trie.revise_relabel] at revised

theorem compare_widened (e e' : UInt32) : compare e.toUInt64 e'.toUInt64 = compare e e' := by
  have less : e.toUInt64 < e'.toUInt64 ↔ e < e' := UInt32.toUInt64_lt
  have same : e.toUInt64 = e'.toUInt64 ↔ e = e' := UInt32.toUInt64_inj
  change compareOfLessAndEq _ _ = compareOfLessAndEq _ _
  simp only [compareOfLessAndEq, less, same]

theorem entityIndex_lt {e e' : UInt32} : entityIndex e < entityIndex e' ↔ compare e e' = .lt := by
  rw [entityIndex, entityIndex, uintmapCode.off_lt_off, compare_widened]

@[simp] theorem narrow_entityIndex (e : UInt32) : (uintmapCode.unoff (entityIndex e)).toUInt32 = e := by
  rw [entityIndex, uintmapCode.unoff_off, UInt32.toUInt32_toUInt64]

theorem entityIndex_injective : Function.Injective entityIndex := fun e e' same => by
  rw [← narrow_entityIndex e, same, narrow_entityIndex]

/-- The maps keep a table: a row under the index of an entity keeps the row of the entity. -/
structure EcMaps.Keeps (maps : EcMaps) (ec : Ec) : Prop where
  next : maps.nextEntity = ec.nextEntity
  tree : IntmapKeeps maps.entityMap (intmapGet maps.entityMap)
  rows : ∀ entity, Option.Rel RowKeeps (intmapGet maps.entityMap (entityIndex entity))
    ec.entityMap[entity]?
  narrow : ∀ i, (intmapGet maps.entityMap i).isSome → ∃ entity, entityIndex entity = i

namespace EcMaps

variable {maps : EcMaps} {ec : Ec}

theorem keeps_new : Keeps new ecNew := by
  refine ⟨rfl, intmapKeeps_none, fun entity => ?_, fun i there => nomatch there⟩
  simp [new, ecNew, intmapGet]

theorem Keeps.update (keeps : Keeps maps ec) (entity : UInt32) {entityMap : Intmap (Strmap EcCell)}
    {m : Std.ExtTreeMap UInt32 EcEntityrow} (row : Option (Strmap EcCell))
    (tree : IntmapKeeps entityMap
      (Function.update (intmapGet maps.entityMap) (entityIndex entity) row))
    (others : ∀ e, e ≠ entity → ec.entityMap[e]? = m[e]?)
    (here : Option.Rel RowKeeps row m[entity]?) :
    Keeps { maps with entityMap } { ec with entityMap := m } := by
  have get : ∀ i, intmapGet entityMap i =
      Function.update (intmapGet maps.entityMap) (entityIndex entity) row i := intmapGet_eq tree
  refine ⟨keeps.next, tree.congr fun i => (get i).symm, fun e => ?_, fun i there => ?_⟩
  · dsimp only
    rw [get]
    by_cases same : e = entity
    · subst same
      rwa [Function.update_self]
    · rw [Function.update_of_ne fun equal => same (entityIndex_injective equal), ← others e same]
      exact keeps.rows e
  · dsimp only at there
    rw [get] at there
    by_cases same : i = entityIndex entity
    · exact ⟨entity, same.symm⟩
    · rw [Function.update_of_ne same] at there
      exact keeps.narrow i there

theorem Keeps.row (keeps : Keeps maps ec) (entity : UInt32) :
    (intmapGet maps.entityMap (entityIndex entity) = none ∧ ec.entityMap[entity]? = none) ∨
      ∃ row entityrow, intmapGet maps.entityMap (entityIndex entity) = some row ∧
        ec.entityMap[entity]? = some entityrow ∧ RowKeeps row entityrow := by
  have related := keeps.rows entity
  cases here : intmapGet maps.entityMap (entityIndex entity) with
  | none =>
      cases there : ec.entityMap[entity]? with
      | none => exact .inl ⟨rfl, rfl⟩
      | some entityrow => rw [here, there] at related; cases related
  | some row =>
      cases there : ec.entityMap[entity]? with
      | none => rw [here, there] at related; cases related
      | some entityrow =>
          rw [here, there] at related
          cases related with
          | some same => exact .inr ⟨row, entityrow, rfl, rfl, same⟩

theorem Keeps.getComponent (keeps : Keeps maps ec) (entity : UInt32) (component : CText) :
    maps.getComponent entity component = ecGetComponent ec entity component.1 := by
  rw [EcMaps.getComponent, ecGetComponent]
  rcases keeps.row entity with ⟨here, there⟩ | ⟨row, entityrow, here, there, same⟩
  · rw [here, there]
  · have read := same.get component
    rw [here, there]
    cases found : entityrow[component.1]? <;> simp only [read, found]

theorem Keeps.detach (keeps : Keeps maps ec) (entity : UInt32) (component : CText) :
    Keeps (maps.detach entity component) (ecDetach ec entity component.1) := by
  rw [EcMaps.detach, ecDetach]
  rcases keeps.row entity with ⟨here, there⟩ | ⟨row, entityrow, here, there, same⟩
  · rwa [here, there]
  · rw [here, there]
    dsimp only
    rw [same.get]
    cases found : entityrow[component.1]? with
    | none => exact keeps
    | some cell =>
        have removed := same.del component
        have revised := intmapRevise_keeps keeps.tree (entityIndex entity)
          (by rw [here]; rfl) (strmapDel row component.cstr).2
        dsimp only
        rw [removed.isEmpty]
        split_ifs
        · refine keeps.update entity none ?_ (fun e other => ?_) ?_
          · have gone := (intmapDel_keeps revised (entityIndex entity)).2
            rwa [Function.update_idem] at gone
          · simp [Std.ExtTreeMap.getElem?_erase, Ne.symm other]
          · simp
        · refine keeps.update entity _ revised (fun e other => ?_) ?_
          · simp [Std.ExtTreeMap.getElem?_insert, Ne.symm other]
          · simpa using removed

theorem Keeps.stored (keeps : Keeps maps ec) (entity : UInt32) (component : CText) (cell : EcCell)
    {entityMap : Intmap (Strmap EcCell)} {old row : Strmap EcCell} {entityrow : EcEntityrow}
    {m : Std.ExtTreeMap UInt32 EcEntityrow}
    (tree : IntmapKeeps entityMap
      (Function.update (intmapGet maps.entityMap) (entityIndex entity) (some old)))
    (same : RowKeeps row entityrow)
    (table : ∀ e, m[e]? = if entity = e then some (entityrow.insertIfNew component.1 cell)
      else ec.entityMap[e]?) :
    Keeps { maps with
        entityMap := (intmapRevise entityMap (entityIndex entity)
          (strmapAdd row component.cstr cell).2) }
      { ec with entityMap := m } := by
  have revised := intmapRevise_keeps tree (entityIndex entity)
    (by rw [Function.update_self]; rfl) (strmapAdd row component.cstr cell).2
  rw [Function.update_idem] at revised
  refine keeps.update entity _ revised (fun e other => ?_) ?_
  · rw [table, if_neg (Ne.symm other)]
  · rw [table, if_pos rfl]
    exact .some (same.add component _)

theorem Keeps.attach (keeps : Keeps maps ec) (entity : UInt32) (component : CText) (datum : Json) :
    Keeps (maps.attach entity component datum) (ecAttach ec entity component.1 datum) := by
  rw [EcMaps.attach, ecAttach]
  rcases keeps.row entity with ⟨here, there⟩ | ⟨row, entityrow, here, there, same⟩
  · have added := (intmapAdd_keeps keeps.tree (entityIndex entity) none).2
    rw [here, Option.getD_none] at added
    have absent : entity ∉ ec.entityMap := by
      rw [Std.ExtTreeMap.mem_iff_isSome_getElem?, there]
      exact Bool.false_ne_true
    rw [here, there]
    refine keeps.stored entity component _ added RowKeeps.empty fun e => ?_
    simp [Std.ExtTreeMap.getElem?_insertIfNew, absent]
  · have tree := keeps.tree
    rw [← Function.update_eq_self (entityIndex entity) (intmapGet maps.entityMap), here] at tree
    rw [here, there]
    dsimp only
    rw [same.get]
    cases found : entityrow[component.1]? with
    | none =>
        refine keeps.stored entity component _ tree same fun e => ?_
        simp [Std.ExtTreeMap.getElem?_insert]
    | some cell =>
        refine keeps.stored entity component _ tree (same.del component) fun e => ?_
        simp [Std.ExtTreeMap.getElem?_insert]

theorem Keeps.setComponent (keeps : Keeps maps ec) (entity : UInt32) (component : CText)
    (value : Option Json) :
    Keeps (maps.setComponent entity component value) (ecSetComponent ec entity component.1 value) := by
  cases value with
  | none => exact keeps.detach entity component
  | some datum =>
      rw [EcMaps.setComponent, ecSetComponent]
      split_ifs
      · exact keeps.detach entity component
      · exact keeps.attach entity component datum

theorem iterate_names (row : Strmap EcCell) :
    strmapIterate row (fun name _ components => (true, components ++ [name])) [] =
      (entriesOf row).map Prod.fst := by
  have collect : ∀ (cells : List (CStr × EcCell)) (names : List CStr),
      cells.foldl (fun names e => names ++ [e.1]) names = names ++ cells.map Prod.fst := by
    intro cells
    induction cells with
    | nil => simp
    | cons cell cells ih => simp [ih]
  cases row with
  | none => rfl
  | some tree =>
      rw [strmapIterate, Trie.walk_eq_visit, visit_eq_foldl (f := fun names e => names ++ [e.1])
        fun _ _ _ => rfl]
      exact collect tree.entries []

/-- The names of a row are handed out in byte order, and the assertion holds or fails alike. -/
theorem Keeps.getComponents (keeps : Keeps maps ec) (entity : UInt32) :
    (maps.getComponents entity).map (Option.map (List.map CStr.bytes)) =
      (ecGetComponents ec entity).map (Option.map (List.map fun name =>
        name.flatMap String.utf8EncodeChar)) := by
  rw [EcMaps.getComponents, ecGetComponents]
  rcases keeps.row entity with ⟨here, there⟩ | ⟨row, entityrow, here, there, same⟩
  · rw [here, there]
    rfl
  · have names := same.names
    have lengths := congrArg List.length names
    rw [List.length_map, List.length_map] at lengths
    rw [here, there]
    dsimp only
    rw [iterate_names, foldl_names, List.length_map, lengths]
    split_ifs
    · rfl
    · simp only [Except.map, Option.map_some, List.map_map, ← names]
      rfl

theorem Keeps.indices (keeps : Keeps maps ec) :
    (entriesOf maps.entityMap).map Prod.fst = ec.entityMap.keys.map entityIndex := by
  have distinct : ∀ {l : List IntmapIndex}, l.Pairwise (· < ·) → l.Nodup := by
    intro l ordered
    refine ordered.imp fun {a b} less => ?_
    rintro rfl
    exact BitVec.lt_irrefl _ less
  have orderedMap : ((entriesOf maps.entityMap).map Prod.fst).Pairwise (· < ·) := by
    rw [List.pairwise_map, ← entriesOf_relabel]
    exact keeps.tree.tree.ordered.imp intmap_before_iff_lt.mp
  have orderedKeys : (ec.entityMap.keys.map entityIndex).Pairwise (· < ·) := by
    rw [List.pairwise_map]
    exact Std.ExtTreeMap.ordered_keys.imp entityIndex_lt.mpr
  have same : ∀ i, i ∈ (entriesOf maps.entityMap).map Prod.fst ↔
      i ∈ ec.entityMap.keys.map entityIndex := by
    intro i
    have entry : i ∈ (entriesOf maps.entityMap).map Prod.fst ↔
        (intmapGet maps.entityMap i).isSome := by
      rw [List.mem_map, Option.isSome_iff_exists, ← entriesOf_relabel]
      constructor
      · rintro ⟨e, member, rfl⟩
        exact ⟨e.2, (keeps.tree.tree.entries e.1 e.2).mp member⟩
      · rintro ⟨row, found⟩
        exact ⟨(i, row), (keeps.tree.tree.entries i row).mpr found, rfl⟩
    rw [entry, List.mem_map]
    constructor
    · intro there
      obtain ⟨entity, rfl⟩ := keeps.narrow i there
      refine ⟨entity, Std.ExtTreeMap.mem_keys.mpr ?_, rfl⟩
      rw [Std.ExtTreeMap.mem_iff_isSome_getElem?]
      rcases keeps.row entity with ⟨here, _⟩ | ⟨_, _, _, found, _⟩
      · rw [here] at there
        cases there
      · rw [found]
        rfl
    · rintro ⟨entity, member, rfl⟩
      have there := Std.ExtTreeMap.mem_iff_isSome_getElem?.mp (Std.ExtTreeMap.mem_keys.mp member)
      rcases keeps.row entity with ⟨_, absent⟩ | ⟨_, _, here, _, _⟩
      · rw [absent] at there
        cases there
      · rw [here]
        rfl
  exact ((List.perm_ext_iff_of_nodup (distinct orderedMap) (distinct orderedKeys)).mpr
    same).eq_of_pairwise (fun a b _ _ before after => absurd after
      (BitVec.not_lt.mpr (BitVec.le_of_lt before))) orderedMap orderedKeys

theorem Keeps.getEntityBounds (keeps : Keeps maps ec) :
    maps.getEntityBounds = ecGetEntityBounds ec := by
  rw [EcMaps.getEntityBounds, ecGetEntityBounds, Std.ExtTreeMap.minKey?_eq_head?_keys,
    Std.ExtTreeMap.maxKey?_eq_getLast?_keys, intmapFirst_eq, intmapLast_eq, intmapEmpty_eq]
  have first := congrArg List.head? keeps.indices
  have last := congrArg List.getLast? keeps.indices
  rw [List.head?_map, List.head?_map] at first
  rw [List.getLast?_map, List.getLast?_map] at last
  have empty := congrArg List.isEmpty keeps.indices
  rw [List.isEmpty_map, List.isEmpty_map] at empty
  rw [empty]
  cases keys : ec.entityMap.keys with
  | nil => rfl
  | cons e es =>
      obtain ⟨max, greatest⟩ : ∃ max, (e :: es).getLast? = some max :=
        ⟨_, List.getLast?_eq_some_getLast (List.cons_ne_nil e es)⟩
      rw [keys, List.head?_cons, Option.map_some, Option.map_eq_some_iff] at first
      rw [keys, greatest, Option.map_some, Option.map_eq_some_iff] at last
      obtain ⟨min', min, minIndex⟩ := first
      obtain ⟨max', max, maxIndex⟩ := last
      rw [min, max, greatest, List.head?_cons]
      simp [Intmap.uncode, minIndex, maxIndex]

/-- A call of a function of `ec.h`. -/
inductive Call where
  | newentity
  | getEntityBounds
  | getComponents (entity : UInt32)
  | getComponent (entity : UInt32) (component : CText)
  | setComponent (entity : UInt32) (component : CText) (value : Option Json)

/-- What a call answers; names are compared by their bytes. -/
inductive Answer where
  | entity (entity : UInt32)
  | bounds (min max : UInt32)
  | names (names : Except Fault (Option (List (List UInt8))))
  | datum (found : Bool) (datum : Json)
  | nothing

def call (maps : EcMaps) : Call → Answer × EcMaps
  | .newentity => maps.newentity.map .entity id
  | .getEntityBounds => (.bounds maps.getEntityBounds.1 maps.getEntityBounds.2, maps)
  | .getComponents entity =>
      (.names ((maps.getComponents entity).map (Option.map (List.map CStr.bytes))), maps)
  | .getComponent entity component =>
      (.datum (maps.getComponent entity component).1 (maps.getComponent entity component).2, maps)
  | .setComponent entity component value =>
      (.nothing, maps.setComponent entity component value)

/-- The same call on the finite map of finite maps. -/
def tableCall (ec : Ec) : Call → Answer × Ec
  | .newentity => (ecNewentity ec).map .entity id
  | .getEntityBounds => (.bounds (ecGetEntityBounds ec).1 (ecGetEntityBounds ec).2, ec)
  | .getComponents entity =>
      (.names ((ecGetComponents ec entity).map (Option.map (List.map fun name =>
        name.flatMap String.utf8EncodeChar))), ec)
  | .getComponent entity component =>
      (.datum (ecGetComponent ec entity component.1).1 (ecGetComponent ec entity component.1).2, ec)
  | .setComponent entity component value => (.nothing, ecSetComponent ec entity component.1 value)

theorem Keeps.call (keeps : Keeps maps ec) (c : Call) :
    (call maps c).1 = (tableCall ec c).1 ∧ Keeps (call maps c).2 (tableCall ec c).2 := by
  cases c with
  | newentity =>
      refine ⟨congrArg Answer.entity keeps.next, ?_, keeps.tree, keeps.rows, keeps.narrow⟩
      exact congrArg (· + 1) keeps.next
  | getEntityBounds => exact ⟨by rw [EcMaps.call, keeps.getEntityBounds]; rfl, keeps⟩
  | getComponents entity => exact ⟨congrArg Answer.names (keeps.getComponents entity), keeps⟩
  | getComponent entity component =>
      exact ⟨by rw [EcMaps.call, keeps.getComponent]; rfl, keeps⟩
  | setComponent entity component value => exact ⟨rfl, keeps.setComponent entity component value⟩

end EcMaps

/-- From a new table on, any calls answer on the crit-bit maps as on the finite maps. -/
theorem ec_calls_as_table (cs : List EcMaps.Call) :
    (Runs.calls EcMaps.call EcMaps.new cs).1 = (Runs.calls EcMaps.tableCall ecNew cs).1 :=
  (Runs.calls_alike (R := EcMaps.Keeps) (fun _ _ c keeps => keeps.call c) EcMaps.keeps_new cs).1

end Payz
