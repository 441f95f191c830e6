import Payz.Json.Escape
import Payz.Json.Legible
import Payz.Json.Standard

/-! # What a written object says

The writer puts a field name between quotes as it is.  The text that comes out says what it
was written for exactly if no name needs an escape.
-/

namespace Payz

open Layout

/-- The key of a member is read as a name, and its value has some text. -/
structure SaysMember (m expected : Text × Json) : Prop where
  key : jsonEscapeUnescape m.1 = some expected.1
  value : m.2.jsonTokFull = expected.2.jsonTokFull

/-- A text is that of one valid object, with these members in this order. -/
def SaysMembers (Valid : Json → Prop) (text : Text) (expected : List (Text × Json)) : Prop :=
  ∃ members, jsonParseSimple text = some (.object text members) ∧
    Valid (.object text members) ∧ List.Forall₂ SaysMember members expected

/-- What can stand between quotes as it is. -/
def Quotable (t : Text) : Prop := ∀ c ∈ t, c ≠ '"' ∧ c ≠ '\\' ∧ c ≠ '\x00'

theorem StringText.quote_not_mem {t : Text} (text : StringText t) (plain : '\\' ∉ t) :
    '"' ∉ t := by
  induction text with
  | nil => simp
  | plain quote _ _ _ ih =>
      rw [List.mem_cons, not_or] at plain ⊢
      exact ⟨Ne.symm quote, ih plain.2⟩
  | escape | unicode => simp at plain

theorem quotable_iff {t : Text} : Quotable t ↔ StringText t ∧ '\\' ∉ t := by
  constructor
  · exact fun plain => ⟨.of_forall plain, fun member => (plain _ member).2.1 rfl⟩
  · rintro ⟨text, plain⟩ c member
    have same : Unescapes t t := .of_no_backslash plain
    refine ⟨?_, ?_, ?_⟩
    · rintro rfl
      exact text.quote_not_mem plain member
    · rintro rfl
      exact plain member
    · rintro rfl
      exact same.nul_not_mem text member

/-! ## Room for escapes -/

/-- Characters of a member without blanks, and of the comma behind it. -/
def memberWidth (m : Text × Json) : Nat := m.1.length + m.2.jsonTokFull.length + 3 + 1

theorem length_tightMember (m : Text × Json) : (tightMember m).length + 1 = memberWidth m := by
  simp only [tightMember, memberWidth, List.length_cons, List.length_append]
  omega

theorem length_tight {members : List (Text × Json)} (some : members ≠ []) :
    (Json.tight members).jsonTokFull.length = (members.map memberWidth).sum + 1 := by
  have nonempty : members.map tightMember ≠ [] := by simpa using some
  have written := length_commas nonempty
  rw [List.map_map] at written
  have widths : (members.map memberWidth).sum = (commas (members.map tightMember)).length + 1 := by
    rw [written]
    exact congrArg List.sum (List.map_congr_left fun m _ => (length_tightMember m).symm)
  simp only [Json.tight, Json.jsonTokFull, List.length_cons, List.length_append, List.length_nil,
    widths]

theorem width_le_of_wellFormed {text : Text} {members : List (Text × Json)}
    (wellFormed : (Json.object text members).WellFormed) :
    (members.map memberWidth).sum + 1 ≤ text.length := by
  cases wellFormed with
  | @object _ body _ _ sep =>
      have each : ∀ m ∈ members, ∀ s, MemberText m s →
          m.1.length + m.2.jsonTokFull.length + 3 ≤ s.length := by
        rintro m - s ⟨w, w', -, -, rfl⟩
        simp only [List.length_cons, List.length_append]
        omega
      have narrow : (members.map memberWidth).sum ≤ body.length + 1 := sep.length_le each
      simp only [List.length_cons, List.length_append, List.length_nil]
      omega

theorem SaysMember.width_le {m expected : Text × Json} (told : SaysMember m expected) :
    memberWidth expected ≤ memberWidth m := by
  have shorter := (unescapes_of_reads told.key).length_le
  have same := congrArg List.length told.value
  simp only [memberWidth]
  omega

theorem width_le_of_told {members expected : List (Text × Json)}
    (told : List.Forall₂ SaysMember members expected) :
    (expected.map memberWidth).sum ≤ (members.map memberWidth).sum := by
  induction told with
  | nil => exact le_rfl
  | cons first _ ih =>
      have here := first.width_le
      simp only [List.map_cons, List.sum_cons]
      omega

theorem keys_of_told {Key : Text → Prop} {members expected : List (Text × Json)}
    (told : List.Forall₂ SaysMember members expected)
    (narrow : (members.map memberWidth).sum ≤ (expected.map memberWidth).sum)
    (keys : ∀ m ∈ members, Key m.1) :
    ∀ m ∈ expected, Key m.1 ∧ '\\' ∉ m.1 := by
  induction told with
  | nil => simp
  | @cons m e members expected first rest ih =>
      rw [List.forall_mem_cons] at keys
      have here := first.width_le
      have later := width_le_of_told rest
      have same := congrArg List.length first.value
      simp only [List.map_cons, List.sum_cons, memberWidth] at narrow here later
      obtain ⟨equal, plain⟩ := (unescapes_of_reads first.key).eq_of_length (by omega)
      refine List.forall_mem_cons.mpr ⟨?_, ih (by omega) keys.2⟩
      rw [equal]
      exact ⟨keys.1, plain⟩

namespace SaysMembers

variable {text : Text} {expected : List (Text × Json)}

/-- A text that says something is no shorter than what the writer would write. -/
theorem length_le (said : SaysMembers Json.WellFormed text expected) (some : expected ≠ []) :
    (Json.tight expected).jsonTokFull.length ≤ text.length := by
  obtain ⟨members, -, wellFormed, told⟩ := said
  have wide := width_le_of_wellFormed wellFormed
  have least := width_le_of_told told
  rw [length_tight some]
  omega

theorem quotable (said : SaysMembers Json.WellFormed text expected) (some : expected ≠ [])
    (short : text.length ≤ (Json.tight expected).jsonTokFull.length) :
    ∀ m ∈ expected, Quotable m.1 := by
  obtain ⟨members, -, wellFormed, told⟩ := said
  have wide := width_le_of_wellFormed wellFormed
  rw [length_tight some] at short
  have keys : ∀ m ∈ members, StringText m.1 := by
    cases wellFormed with
    | object keys _ _ => exact keys
  exact fun m member => quotable_iff.mpr (keys_of_told told (by omega) keys m member)

/-- What the writer writes says what it is written for, if the names can be keys. -/
theorem tight (names : ∀ m ∈ expected, Quotable m.1) (values : ∀ m ∈ expected, m.2.WellFormed) :
    SaysMembers Json.WellFormed (Json.tight expected).jsonTokFull expected := by
  have wellFormed : (Json.tight expected).WellFormed :=
    .tight (fun m member => (quotable_iff.mp (names m member)).1) values
  refine ⟨expected, jsonParseSimple_wellFormed wellFormed, wellFormed, ?_⟩
  rw [List.forall₂_same]
  exact fun m member => ⟨unescapes_self_iff.mpr (quotable_iff.mp (names m member)).2, rfl⟩

end SaysMembers

/-! ## By the standard -/

/-- What can stand between quotes as it is, in JSON. -/
def StandardName (t : Text) : Prop := ∀ c ∈ t, c ≠ '"' ∧ c ≠ '\\' ∧ 32 ≤ c.toNat

theorem standardName_iff {t : Text} : StandardName t ↔ StandardString t ∧ '\\' ∉ t := by
  constructor
  · intro plain
    refine ⟨⟨.of_forall fun c member => ?_, fun c member => (plain c member).2.2⟩,
      fun member => (plain _ member).2.1 rfl⟩
    refine ⟨(plain c member).1, (plain c member).2.1, ?_⟩
    rintro rfl
    exact absurd (plain _ member).2.2 (by decide)
  · rintro ⟨standard, plain⟩ c member
    obtain ⟨quote, backslash, -⟩ := quotable_iff.mpr ⟨standard.text, plain⟩ c member
    exact ⟨quote, backslash, standard.controls c member⟩

theorem jsonTokFull_tight_congr {members expected : List (Text × Json)}
    (same : List.Forall₂ (fun m e => m.1 = e.1 ∧ m.2.jsonTokFull = e.2.jsonTokFull) members expected) :
    (Json.tight members).jsonTokFull = (Json.tight expected).jsonTokFull := by
  have written : members.map tightMember = expected.map tightMember := by
    induction same with
    | nil => rfl
    | cons first _ ih => rw [List.map_cons, List.map_cons, ih, tightMember, first.1, first.2]; rfl
  simp only [Json.tight, Json.jsonTokFull, written]

theorem exists_of_forall₂ {α β : Type} {R : α → β → Prop} {xs : List α} {ys : List β}
    (all : List.Forall₂ R xs ys) : ∀ x ∈ xs, ∃ y ∈ ys, R x y := by
  induction all with
  | nil => simp
  | @cons x y xs ys first _ ih =>
      refine List.forall_mem_cons.mpr ⟨⟨y, List.mem_cons_self, first⟩, fun x' member => ?_⟩
      obtain ⟨y', there, related⟩ := ih x' member
      exact ⟨y', List.mem_cons_of_mem _ there, related⟩

/-- By the standard, an object as the writer writes it says what it was written for exactly
    if its names can be keys and its values are JSON. -/
theorem saysMembers_standard_iff {expected : List (Text × Json)} (some : expected ≠ []) :
    SaysMembers Json.Standard (Json.tight expected).jsonTokFull expected ↔
      ∀ m ∈ expected, StandardName m.1 ∧ StandardText m.2.jsonTokFull := by
  constructor
  · rintro ⟨members, -, standard, told⟩
    have wide := width_le_of_wellFormed standard.wellFormed
    rw [length_tight some] at wide
    have names := keys_of_told told (by omega) fun m member => (standard.members m member).1
    intro m member
    obtain ⟨m', there, said⟩ := exists_of_forall₂ told.flip m member
    exact ⟨standardName_iff.mpr (names m member), m'.2, (standard.members m' there).2, said.value⟩
  · intro fit
    obtain ⟨members, same⟩ := Json.exists_forall₂ (R := fun m e : Text × Json =>
      (m.1 = e.1 ∧ m.2.jsonTokFull = e.2.jsonTokFull) ∧ StandardName m.1 ∧ m.2.Standard)
      fun e member => by
        obtain ⟨name, j, standard, text⟩ := fit e member
        exact ⟨(e.1, j), ⟨rfl, text⟩, name, standard⟩
    have each : ∀ m ∈ members, StandardName m.1 ∧ m.2.Standard := by
      intro m member
      obtain ⟨e, -, -, both⟩ := exists_of_forall₂ same m member
      exact both
    have standard : (Json.tight members).Standard :=
      .tight (fun m member => (standardName_iff.mp (each m member).1).1)
        fun m member => (each m member).2
    rw [← jsonTokFull_tight_congr (same.imp fun _ _ both => both.1)]
    refine ⟨members, jsonParseSimple_wellFormed standard.wellFormed, standard, ?_⟩
    refine same.imp fun m e both => ⟨?_, both.1.2⟩
    rw [← both.1.1]
    exact unescapes_self_iff.mpr (standardName_iff.mp both.2.1).2

end Payz
