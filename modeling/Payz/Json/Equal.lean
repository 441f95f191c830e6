import Mathlib.Data.List.Perm.Subperm
import Payz.Json.Access

/-! # Comparing JSON data

`plugins/payz/json_equal.c`.  Objects are compared member by member through a
look-up in the second one, so the order of members does not matter; that the
members of both correspond one to one then rests on no key being repeated.
-/

namespace Payz

namespace Json

mutual
def jsonEqual : Json → Json → Bool
  | .primitive s, .primitive t => s == t
  | .string s, .string t => s == t
  | .array _ elems, .array _ elems' =>
      elems.length == elems'.length && jsonEqualElems elems elems'
  | .object _ members, .object text members' =>
      members.length == members'.length && jsonEqualMembers members (.object text members')
  | _, _ => false

/-- The loop over two arrays of one length. -/
def jsonEqualElems : List Json → List Json → Bool
  | e :: elems, e' :: elems' => jsonEqual e e' && jsonEqualElems elems elems'
  | _, _ => true

/-- The loop over the members of the first object. -/
def jsonEqualMembers : List (Text × Json) → Json → Bool
  | [], _ => true
  | (key, value) :: members, other =>
      (match other.jsonGetMember key with
        | none => false
        | some value' => jsonEqual value value') && jsonEqualMembers members other
end

/-- Structural equality: leaves have the same text, arrays agree element by
    element, objects have the same keys with equal values, in any order. -/
inductive Same : Json → Json → Prop where
  | primitive {t} : Same (.primitive t) (.primitive t)
  | string {raw} : Same (.string raw) (.string raw)
  | array {s t elems elems'} : elems.length = elems'.length →
      (∀ (i : Nat) e e', elems[i]? = some e → elems'[i]? = some e' → Same e e') →
      Same (.array s elems) (.array t elems')
  | object {s t members members'} :
      (∀ key, key ∈ members.map Prod.fst ↔ key ∈ members'.map Prod.fst) →
      (∀ key v v', (key, v) ∈ members → (key, v') ∈ members' → Same v v') →
      Same (.object s members) (.object t members')

/-- No object inside repeats a key. -/
inductive KeysDistinct : Json → Prop where
  | primitive {t} : KeysDistinct (.primitive t)
  | string {raw} : KeysDistinct (.string raw)
  | array {t elems} : (∀ e ∈ elems, KeysDistinct e) → KeysDistinct (.array t elems)
  | object {t members} : (members.map Prod.fst).Nodup → (∀ m ∈ members, KeysDistinct m.2) →
      KeysDistinct (.object t members)

theorem jsonEqualElems_iff {elems elems' : List Json} (sameLength : elems.length = elems'.length) :
    jsonEqualElems elems elems' = true ↔
      ∀ (i : Nat) e e', elems[i]? = some e → elems'[i]? = some e' → jsonEqual e e' = true := by
  induction elems generalizing elems' with
  | nil => simp [jsonEqualElems]
  | cons e elems ih =>
      cases elems' with
      | nil => simp at sameLength
      | cons e' elems' =>
          rw [jsonEqualElems, Bool.and_eq_true, ih (by simpa using sameLength)]
          constructor
          · rintro ⟨head, tail⟩ i a a' first second
            cases i with
            | zero =>
                simp only [List.getElem?_cons_zero, Option.some.injEq] at first second
                rw [← first, ← second, head]
            | succ i => exact tail i a a' (by simpa using first) (by simpa using second)
          · intro all
            exact ⟨all 0 e e' rfl rfl, fun i a a' first second =>
              all (i + 1) a a' (by simpa using first) (by simpa using second)⟩

theorem jsonEqualMembers_iff {members : List (Text × Json)} {other : Json} :
    jsonEqualMembers members other = true ↔
      ∀ key v, (key, v) ∈ members →
        ∃ v', other.jsonGetMember key = some v' ∧ jsonEqual v v' = true := by
  induction members with
  | nil => simp [jsonEqualMembers]
  | cons m members ih =>
      obtain ⟨key, value⟩ := m
      rw [jsonEqualMembers, Bool.and_eq_true, ih]
      constructor
      · rintro ⟨head, tail⟩ k v member
        rcases List.mem_cons.mp member with equal | later
        · obtain ⟨rfl, rfl⟩ := Prod.mk.inj equal
          cases found : other.jsonGetMember k with
          | none => simp [found] at head
          | some v' => exact ⟨v', rfl, by simpa [found] using head⟩
        · exact tail k v later
      · intro all
        refine ⟨?_, fun k v later => all k v (List.mem_cons_of_mem _ later)⟩
        obtain ⟨v', found, equal⟩ := all key value (by simp)
        simp [found, equal]

theorem jsonGetMember_mem {text : Text} {members : List (Text × Json)} {key : Text} {v : Json}
    (found : jsonGetMember (.object text members) key = some v) : (key, v) ∈ members := by
  simp only [jsonGetMember, Option.map_eq_some_iff] at found
  obtain ⟨⟨k, w⟩, hit, rfl⟩ := found
  have same : k = key := by simpa using List.find?_some hit
  rw [← same]
  exact List.mem_of_find?_eq_some hit

theorem jsonGetMember_of_mem {text : Text} {members : List (Text × Json)} {key : Text} {v : Json}
    (distinct : (members.map Prod.fst).Nodup) (member : (key, v) ∈ members) :
    jsonGetMember (.object text members) key = some v := by
  induction members with
  | nil => simp at member
  | cons m members ih =>
      obtain ⟨k, w⟩ := m
      rw [List.map_cons, List.nodup_cons] at distinct
      rw [jsonGetMember_object_cons]
      rcases List.mem_cons.mp member with equal | later
      · obtain ⟨rfl, rfl⟩ := Prod.mk.inj equal
        simp
      · have differ : k ≠ key := by
          rintro rfl
          exact distinct.1 (List.mem_map.mpr ⟨_, later, rfl⟩)
        rw [if_neg differ, ih distinct.2 later]

/-- Counting the members is enough to see that no key of the second object is
    left out. -/
theorem keys_covered {members members' : List (Text × Json)}
    (distinct : (members.map Prod.fst).Nodup) (sameLength : members.length = members'.length)
    (covered : ∀ key ∈ members.map Prod.fst, key ∈ members'.map Prod.fst) (key : Text)
    (there : key ∈ members'.map Prod.fst) : key ∈ members.map Prod.fst := by
  have sub : (members.map Prod.fst).Subperm (members'.map Prod.fst) :=
    List.subperm_of_subset distinct covered
  have perm := sub.perm_of_length_le (by simp [sameLength])
  exact perm.mem_iff.mpr there

/-- On data that repeat no key, `json_equal` decides structural equality. -/
theorem jsonEqual_iff_same {i j : Json} (iKeys : i.KeysDistinct) (jKeys : j.KeysDistinct) :
    jsonEqual i j = true ↔ Same i j := by
  induction i generalizing j with
  | primitive t =>
      constructor
      · intro equal
        cases j <;> simp [jsonEqual] at equal
        subst equal
        exact .primitive
      · intro same
        cases same
        simp [jsonEqual]
  | string raw =>
      constructor
      · intro equal
        cases j <;> simp [jsonEqual] at equal
        subst equal
        exact .string
      · intro same
        cases same
        simp [jsonEqual]
  | array text elems ih =>
      cases iKeys with
      | array eKeys =>
      cases jKeys with
      | primitive | string | object _ _ =>
          refine ⟨fun equal => by simp [jsonEqual] at equal, fun same => ?_⟩
          cases same
      | @array text' elems' eKeys' =>
          rw [jsonEqual, Bool.and_eq_true, beq_iff_eq]
          have step : ∀ (i : Nat) e e', elems[i]? = some e → elems'[i]? = some e' →
              (jsonEqual e e' = true ↔ Same e e') := by
            intro i e e' first second
            have mem := List.mem_of_getElem? first
            exact ih e mem (eKeys e mem) (eKeys' e' (List.mem_of_getElem? second))
          constructor
          · rintro ⟨sameLength, all⟩
            rw [jsonEqualElems_iff sameLength] at all
            exact .array sameLength fun i e e' first second =>
              (step i e e' first second).mp (all i e e' first second)
          · intro same
            cases same with
            | array sameLength all =>
                refine ⟨sameLength, (jsonEqualElems_iff sameLength).mpr ?_⟩
                exact fun i e e' first second => (step i e e' first second).mpr
                  (all i e e' first second)
  | object text members ih =>
      cases iKeys with
      | object distinct mKeys =>
      cases jKeys with
      | primitive | string | array _ =>
          refine ⟨fun equal => by simp [jsonEqual] at equal, fun same => ?_⟩
          cases same
      | @object text' members' distinct' mKeys' =>
          rw [jsonEqual, Bool.and_eq_true, beq_iff_eq, jsonEqualMembers_iff]
          have step : ∀ key v v', (key, v) ∈ members → (key, v') ∈ members' →
              (jsonEqual v v' = true ↔ Same v v') := fun key v v' first second =>
            ih (key, v) first (mKeys (key, v) first) (mKeys' (key, v') second)
          constructor
          · rintro ⟨sameLength, all⟩
            have covered : ∀ key ∈ members.map Prod.fst, key ∈ members'.map Prod.fst := by
              intro key there
              obtain ⟨⟨k, v⟩, member, rfl⟩ := List.mem_map.mp there
              obtain ⟨v', found, -⟩ := all k v member
              exact List.mem_map.mpr ⟨_, jsonGetMember_mem found, rfl⟩
            refine .object (fun key => ⟨covered key,
              keys_covered distinct sameLength covered key⟩) ?_
            intro key v v' first second
            obtain ⟨w, found, equal⟩ := all key v first
            rw [jsonGetMember_of_mem distinct' second] at found
            obtain rfl := Option.some.inj found
            exact (step key v v' first second).mp equal
          · intro same
            cases same with
            | object keys values =>
                have perm : (members.map Prod.fst).Perm (members'.map Prod.fst) :=
                  (List.perm_ext_iff_of_nodup distinct distinct').mpr keys
                refine ⟨by simpa using perm.length_eq, fun key v first => ?_⟩
                obtain ⟨⟨k, v'⟩, second, rfl⟩ := List.mem_map.mp
                  ((keys key).mp (List.mem_map.mpr ⟨_, first, rfl⟩))
                exact ⟨v', jsonGetMember_of_mem distinct' second,
                  (step k v v' first second).mpr (values k v v' first second)⟩

end Json

end Payz
