import Mathlib.Data.List.Induction
import Mathlib.Data.List.Nodup
import Payz.Json.Legible

/-! # Comparing data that repeat keys

Where keys are repeated, `json_equal` looks at the first member with a key only, and only
on the right.  It is always transitive; the other laws of an equivalence hold at a datum
exactly if no object inside repeats a key.
-/

namespace Payz

namespace Json

theorem jsonEqual_array_iff {s : Text} {elems : List Json} {j : Json} :
    jsonEqual (.array s elems) j = true ↔ ∃ t elems', j = .array t elems' ∧
      elems.length = elems'.length ∧ ∀ (i : Nat) e e', elems[i]? = some e →
        elems'[i]? = some e' → jsonEqual e e' = true := by
  cases j with
  | primitive | string | object =>
      refine ⟨fun equal => by simp [jsonEqual] at equal, ?_⟩
      rintro ⟨t, elems', same, -⟩
      cases same
  | array t elems' =>
      rw [jsonEqual, Bool.and_eq_true, beq_iff_eq]
      constructor
      · rintro ⟨sameLength, all⟩
        exact ⟨t, elems', rfl, sameLength, (jsonEqualElems_iff sameLength).mp all⟩
      · rintro ⟨t', elems'', same, sameLength, all⟩
        cases same
        exact ⟨sameLength, (jsonEqualElems_iff sameLength).mpr all⟩

theorem jsonEqual_object_iff {s : Text} {members : List (Text × Json)} {j : Json} :
    jsonEqual (.object s members) j = true ↔ ∃ t members', j = .object t members' ∧
      members.length = members'.length ∧ ∀ key v, (key, v) ∈ members →
        ∃ v', jsonGetMember (.object t members') key = some v' ∧ jsonEqual v v' = true := by
  cases j with
  | primitive | string | array =>
      refine ⟨fun equal => by simp [jsonEqual] at equal, ?_⟩
      rintro ⟨t, members', same, -⟩
      cases same
  | object t members' =>
      rw [jsonEqual, Bool.and_eq_true, beq_iff_eq, jsonEqualMembers_iff]
      constructor
      · rintro ⟨sameLength, all⟩
        exact ⟨t, members', rfl, sameLength, all⟩
      · rintro ⟨t', members'', same, sameLength, all⟩
        cases same
        exact ⟨sameLength, all⟩

theorem jsonEqual_trans {i j k : Json} (first : jsonEqual i j = true)
    (second : jsonEqual j k = true) : jsonEqual i k = true := by
  induction i generalizing j k with
  | primitive t =>
      cases j <;> simp [jsonEqual] at first
      subst first
      exact second
  | string raw =>
      cases j <;> simp [jsonEqual] at first
      subst first
      exact second
  | array s elems ih =>
      obtain ⟨t, elems', rfl, sameLength, all⟩ := jsonEqual_array_iff.mp first
      obtain ⟨u, elems'', rfl, sameLength', all'⟩ := jsonEqual_array_iff.mp second
      refine jsonEqual_array_iff.mpr ⟨u, elems'', rfl, sameLength.trans sameLength', ?_⟩
      intro n e e'' here there
      have inside : n < elems'.length := sameLength ▸ (List.getElem?_eq_some_iff.mp here).1
      have between : elems'[n]? = some elems'[n] := List.getElem?_eq_getElem inside
      exact ih e (List.mem_of_getElem? here) (all n e _ here between) (all' n _ e'' between there)
  | object s members ih =>
      obtain ⟨t, members', rfl, sameLength, all⟩ := jsonEqual_object_iff.mp first
      obtain ⟨u, members'', rfl, sameLength', all'⟩ := jsonEqual_object_iff.mp second
      refine jsonEqual_object_iff.mpr ⟨u, members'', rfl, sameLength.trans sameLength', ?_⟩
      intro key v member
      obtain ⟨v', found, equal⟩ := all key v member
      obtain ⟨v'', found', equal'⟩ := all' key v' (jsonGetMember_mem found)
      exact ⟨v'', found', ih (key, v) member equal equal'⟩

/-! ## Data that repeat no key -/

theorem jsonEqual_refl {j : Json} (distinct : j.KeysDistinct) : jsonEqual j j = true := by
  induction j with
  | primitive | string => simp [jsonEqual]
  | array t elems ih =>
      cases distinct with
      | array inner =>
          refine jsonEqual_array_iff.mpr ⟨t, elems, rfl, rfl, ?_⟩
          intro n e e' here there
          rw [here, Option.some.injEq] at there
          subst there
          have member := List.mem_of_getElem? here
          exact ih e member (inner e member)
  | object t members ih =>
      cases distinct with
      | object keys inner =>
          refine jsonEqual_object_iff.mpr ⟨t, members, rfl, rfl, ?_⟩
          intro key v member
          exact ⟨v, jsonGetMember_of_mem keys member, ih (key, v) member (inner (key, v) member)⟩

/-- What equals a datum that repeats no key repeats none at its top either. -/
theorem keys_of_jsonEqual {s t : Text} {members members' : List (Text × Json)}
    (distinct : (members.map Prod.fst).Nodup)
    (equal : jsonEqual (.object s members) (.object t members') = true) :
    (members.map Prod.fst).Perm (members'.map Prod.fst) := by
  obtain ⟨t', members'', same, sameLength, all⟩ := jsonEqual_object_iff.mp equal
  cases same
  have covered : members.map Prod.fst ⊆ members'.map Prod.fst := by
    intro key there
    obtain ⟨⟨k, v⟩, member, rfl⟩ := List.mem_map.mp there
    obtain ⟨v', found, -⟩ := all k v member
    exact List.mem_map.mpr ⟨_, jsonGetMember_mem found, rfl⟩
  have sub := List.subperm_of_subset distinct covered
  exact sub.perm_of_length_le (by simp [sameLength])

theorem jsonEqual_symm {i j : Json} (distinct : i.KeysDistinct) (equal : jsonEqual i j = true) :
    jsonEqual j i = true := by
  induction i generalizing j with
  | primitive t =>
      cases j <;> simp [jsonEqual] at equal
      subst equal
      simp [jsonEqual]
  | string raw =>
      cases j <;> simp [jsonEqual] at equal
      subst equal
      simp [jsonEqual]
  | array s elems ih =>
      cases distinct with
      | array inner =>
          obtain ⟨t, elems', rfl, sameLength, all⟩ := jsonEqual_array_iff.mp equal
          refine jsonEqual_array_iff.mpr ⟨s, elems, rfl, sameLength.symm, ?_⟩
          intro n e' e there here
          have member := List.mem_of_getElem? here
          exact ih e member (inner e member) (all n e e' here there)
  | object s members ih =>
      cases distinct with
      | object keys inner =>
          obtain ⟨t, members', rfl, sameLength, all⟩ := jsonEqual_object_iff.mp equal
          have perm := keys_of_jsonEqual keys equal
          have keys' := perm.nodup_iff.mp keys
          refine jsonEqual_object_iff.mpr ⟨s, members, rfl, sameLength.symm, ?_⟩
          intro key v' member'
          have there := perm.mem_iff.mpr (List.mem_map.mpr ⟨_, member', rfl⟩)
          obtain ⟨⟨k, v⟩, member, rfl⟩ := List.mem_map.mp there
          obtain ⟨w, found, same⟩ := all k v member
          rw [jsonGetMember_of_mem keys' member', Option.some.injEq] at found
          subst found
          exact ⟨v, jsonGetMember_of_mem keys member, ih (k, v) member (inner (k, v) member) same⟩

/-! ## Data that repeat a key -/

/-- What an equivalence asks of one datum, whatever is accepted to compare it with. -/
structure EqualLaws (j : Json) : Prop where
  refl : jsonEqual j j = true
  symm : ∀ {i : Json}, i.Parsed → jsonEqual j i = true → jsonEqual i j = true
  trans : ∀ {i k : Json}, i.Parsed → k.Parsed → jsonEqual j i = true →
    jsonEqual i k = true → jsonEqual j k = true

theorem EqualLaws.symm_legible {j i : Json} (laws : EqualLaws j) (legible : i.Legible)
    (equal : jsonEqual j i = true) : jsonEqual i j = true := by
  obtain ⟨i', parsed, alike⟩ := legible.parsed
  rw [← (alike j).1]
  rw [← (alike j).2] at equal
  exact laws.symm parsed equal

theorem EqualLaws.of_distinct {j : Json} (distinct : j.KeysDistinct) : EqualLaws j :=
  ⟨jsonEqual_refl distinct, fun _ equal => jsonEqual_symm distinct equal,
    fun _ _ first second => jsonEqual_trans first second⟩

/-- Around an item that was put in the place of another there are the old ones. -/
theorem mem_of_replaced {α : Type} {first rest : List α} {x y item : α}
    (member : item ∈ first ++ y :: rest) : item = y ∨ item ∈ first ++ x :: rest := by
  rcases List.mem_append.mp member with before | after
  · exact .inr (List.mem_append_left _ before)
  · exact (List.mem_cons.mp after).imp_right fun later =>
      List.mem_append_right _ (List.mem_cons_of_mem _ later)

theorem mem_of_around {α : Type} {first rest : List α} (x : α) {item : α}
    (member : item ∈ first ++ rest) : item ∈ first ++ x :: rest := by
  rcases List.mem_append.mp member with before | after
  · exact List.mem_append_left _ before
  · exact List.mem_append_right _ (List.mem_cons_of_mem _ after)

theorem jsonEqual_array_at {s t : Text} {first rest : List Json} {e e' : Json}
    (others : ∀ i ∈ first ++ rest, jsonEqual i i = true) :
    jsonEqual (.array s (first ++ e :: rest)) (.array t (first ++ e' :: rest)) = true ↔
      jsonEqual e e' = true := by
  have loop : ∀ elems : List Json, (∀ i ∈ elems, jsonEqual i i = true) →
      jsonEqualElems elems elems = true := by
    intro elems refl
    induction elems with
    | nil => rfl
    | cons i elems ih =>
        rw [List.forall_mem_cons] at refl
        rw [jsonEqualElems, refl.1, ih refl.2, Bool.and_self]
  have skip : jsonEqualElems (first ++ e :: rest) (first ++ e' :: rest) =
      jsonEqualElems (e :: rest) (e' :: rest) := by
    clear loop
    induction first with
    | nil => rfl
    | cons i first ih =>
        rw [List.cons_append, List.forall_mem_cons] at others
        rw [List.cons_append, List.cons_append, jsonEqualElems, others.1, Bool.true_and,
          ih others.2]
  have after := loop rest fun i member => others i (List.mem_append_right _ member)
  simp [jsonEqual, skip, jsonEqualElems, after]

theorem jsonEqual_object_at {s t : Text} {first rest : List (Text × Json)} {key : Text}
    {v v' : Json} (keys : ((first ++ (key, v) :: rest).map Prod.fst).Nodup)
    (others : ∀ m ∈ first ++ rest, jsonEqual m.2 m.2 = true) :
    jsonEqual (.object s (first ++ (key, v) :: rest)) (.object t (first ++ (key, v') :: rest)) =
      true ↔ jsonEqual v v' = true := by
  have keys' : ((first ++ (key, v') :: rest).map Prod.fst).Nodup := by
    simpa only [List.map_append, List.map_cons] using keys
  have here : jsonGetMember (.object t (first ++ (key, v') :: rest)) key = some v' :=
    jsonGetMember_of_mem keys' (List.mem_append_right _ List.mem_cons_self)
  rw [jsonEqual_object_iff]
  constructor
  · rintro ⟨t', members', same, -, all⟩
    cases same
    obtain ⟨w, found, equal⟩ := all key v (List.mem_append_right _ List.mem_cons_self)
    rw [here, Option.some.injEq] at found
    rwa [found]
  · intro equal
    refine ⟨t, _, rfl, by simp, fun k w member => ?_⟩
    have cases : (k, w) = (key, v) ∨ (k, w) ∈ first ++ rest := by
      simpa [or_left_comm] using member
    obtain same | other := cases
    · obtain ⟨rfl, rfl⟩ := Prod.mk.inj same
      exact ⟨v', here, equal⟩
    · exact ⟨w, jsonGetMember_of_mem keys' (mem_of_around _ other), others (k, w) other⟩

theorem exists_repeat {members : List (Text × Json)} (repeats : ¬ (members.map Prod.fst).Nodup) :
    ∃ first m rest, members = first ++ m :: rest ∧ m.1 ∈ first.map Prod.fst := by
  induction members using List.reverseRecOn with
  | nil => exact absurd List.nodup_nil repeats
  | append_singleton members m ih =>
      by_cases distinct : (members.map Prod.fst).Nodup
      · by_cases old : m.1 ∈ members.map Prod.fst
        · exact ⟨members, m, [], rfl, old⟩
        · refine absurd ?_ repeats
          rw [List.map_append, List.map_singleton, ← List.concat_eq_append]
          exact List.Nodup.concat old distinct
      · obtain ⟨first, m', rest, rfl, old⟩ := ih distinct
        exact ⟨first, m', rest ++ [m], by simp, old⟩

theorem exists_fresh_key (members : List (Text × Json)) :
    ∃ fresh, StringText fresh ∧ fresh ∉ members.map Prod.fst := by
  have bound : ∃ n, ∀ m ∈ members, m.1.length < n := by
    induction members with
    | nil => exact ⟨0, by simp⟩
    | cons m members ih =>
        obtain ⟨n, below⟩ := ih
        refine ⟨n + m.1.length + 1, List.forall_mem_cons.mpr ⟨by omega, fun m' member => ?_⟩⟩
        have := below m' member
        omega
  obtain ⟨n, below⟩ := bound
  refine ⟨List.replicate n 'z', .of_plain (List.all_eq_true.mpr fun c member => ?_), ?_⟩
  · rw [List.eq_of_mem_replicate member]
    rfl
  · intro member
    obtain ⟨m, there, same⟩ := List.mem_map.mp member
    have short := below m there
    rw [same, List.length_replicate] at short
    exact absurd short (lt_irrefl n)

/-- A repeated key can be renamed and no look-up of another key tells. -/
theorem jsonGetMember_rename {s t : Text} {first rest : List (Text × Json)} {m : Text × Json}
    (old : m.1 ∈ first.map Prod.fst) {fresh key : Text} (differ : fresh ≠ key) :
    jsonGetMember (.object t (first ++ (fresh, m.2) :: rest)) key =
      jsonGetMember (.object s (first ++ m :: rest)) key := by
  simp only [jsonGetMember, List.find?_append]
  cases early : first.find? fun m => m.1 == key with
  | some hit => simp
  | none =>
      have notHere : m.1 ≠ key := by
        rintro rfl
        obtain ⟨m', there, same⟩ := List.mem_map.mp old
        rw [List.find?_eq_none] at early
        exact early m' there (by simpa using same)
      simp [differ, notHere]

theorem EqualLaws.keys {text : Text} {members : List (Text × Json)}
    (keyTexts : ∀ m ∈ members, StringText m.1) (values : ∀ m ∈ members, m.2.Legible)
    (laws : EqualLaws (.object text members)) : (members.map Prod.fst).Nodup := by
  by_contra repeats
  obtain ⟨first, m, rest, rfl, old⟩ := exists_repeat repeats
  obtain ⟨fresh, freshText, absent⟩ := exists_fresh_key (first ++ m :: rest)
  have renamed : (Json.object text (first ++ (fresh, m.2) :: rest)).Legible := by
    refine .object (fun m' member => ?_) fun m' member => ?_
    · rcases mem_of_replaced member with rfl | there
      · exact freshText
      · exact keyTexts m' there
    · rcases mem_of_replaced member with rfl | there
      · exact values m (List.mem_append_right _ List.mem_cons_self)
      · exact values m' there
  obtain ⟨_, _, same, -, all⟩ := jsonEqual_object_iff.mp laws.refl
  cases same
  have equal : jsonEqual (.object text (first ++ m :: rest))
      (.object text (first ++ (fresh, m.2) :: rest)) = true := by
    refine jsonEqual_object_iff.mpr ⟨_, _, rfl, by simp, fun key v member => ?_⟩
    have differ : fresh ≠ key := by
      rintro rfl
      exact absent (List.mem_map.mpr ⟨_, member, rfl⟩)
    rw [jsonGetMember_rename (s := text) old differ]
    exact all key v member
  obtain ⟨_, _, same, -, back⟩ := jsonEqual_object_iff.mp (laws.symm_legible renamed equal)
  cases same
  obtain ⟨w, found, -⟩ := back fresh m.2 (List.mem_append_right _ List.mem_cons_self)
  exact absent (List.mem_map.mpr ⟨_, jsonGetMember_mem found, rfl⟩)

theorem EqualLaws.distinct {j : Json} (legible : j.Legible) (laws : EqualLaws j) :
    j.KeysDistinct := by
  induction j with
  | primitive => exact .primitive
  | string => exact .string
  | array text elems ih =>
      cases legible with
      | array valid =>
          have others : ∀ e ∈ elems, jsonEqual e e = true := by
            intro e member
            obtain ⟨n, here⟩ := List.mem_iff_getElem?.mp member
            obtain ⟨_, _, same, -, all⟩ := jsonEqual_array_iff.mp laws.refl
            cases same
            exact all n e e here here
          refine .array fun e member => ih e member (valid e member) ⟨others e member, ?_, ?_⟩
          · intro i parsed equal
            obtain ⟨first, rest, rfl⟩ := List.append_of_mem member
            have around : ∀ e' ∈ first ++ rest, jsonEqual e' e' = true :=
              fun e' there => others e' (mem_of_around e there)
            have swapped : (Json.array text (first ++ i :: rest)).Legible := by
              refine .array fun e' there => ?_
              rcases mem_of_replaced there with rfl | old
              · exact parsed.legible
              · exact valid e' old
            have forth := laws.symm_legible swapped ((jsonEqual_array_at around).mpr equal)
            exact (jsonEqual_array_at around).mp forth
          · exact fun _ _ first second => jsonEqual_trans first second
  | object text members ih =>
      cases legible with
      | object keyTexts values =>
          have keys := laws.keys keyTexts values
          have others : ∀ m ∈ members, jsonEqual m.2 m.2 = true := by
            intro m member
            obtain ⟨_, _, same, -, all⟩ := jsonEqual_object_iff.mp laws.refl
            cases same
            obtain ⟨v, found, equal⟩ := all m.1 m.2 member
            rw [jsonGetMember_of_mem keys member, Option.some.injEq] at found
            rwa [← found] at equal
          refine .object keys fun m member => ih m member (values m member)
            ⟨others m member, ?_, ?_⟩
          · intro i parsed equal
            obtain ⟨key, v⟩ := m
            obtain ⟨first, rest, rfl⟩ := List.append_of_mem member
            have around : ∀ m' ∈ first ++ rest, jsonEqual m'.2 m'.2 = true :=
              fun m' there => others m' (mem_of_around _ there)
            have swapped : (Json.object text (first ++ (key, i) :: rest)).Legible := by
              refine .object (fun m' there => ?_) fun m' there => ?_
              · rcases mem_of_replaced there with rfl | old
                · exact keyTexts (key, v) member
                · exact keyTexts m' old
              · rcases mem_of_replaced there with rfl | old
                · exact parsed.legible
                · exact values m' old
            have keys' : ((first ++ (key, i) :: rest).map Prod.fst).Nodup := by
              simpa only [List.map_append, List.map_cons] using keys
            have forth := laws.symm_legible swapped ((jsonEqual_object_at keys around).mpr equal)
            exact (jsonEqual_object_at keys' around).mp forth
          · exact fun _ _ first second => jsonEqual_trans first second

end Json

end Payz
