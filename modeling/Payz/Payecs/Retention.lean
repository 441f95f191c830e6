import Mathlib.Data.List.DropRight
import Payz.Payecs.Systrace

/-! # How far back the trace goes

The list of entries is capped: once it is full, an entry has to go before the next one
is added.  The oldest entry goes as soon as the entity of a payload was read, and it is
only then that `payecs_systrace_add` looks for a `system`.
-/

namespace Payz

/-- A payload of `payecs_system_invoke`, and when it came in. -/
abbrev Arrival : Type := Timeabs × Json

/-- The entity that `payecs_systrace_add` reads in a payload. -/
def arrivalEntity (params : Json) : Option UInt32 :=
  ((params.jsonGetMember "entity".toList).bind fun entity =>
    entity.jsonGetMember "entity".toList).bind Json.jsonToU32

/-- The entry to be recorded for a payload: it has an entity, and a system. -/
def recordedEntry (arrival : Arrival) : Option (UInt32 × Json) :=
  match arrivalEntity arrival.2, arrival.2.jsonGetMember "system".toList,
      arrival.2.jsonGetMember "entity".toList with
  | some entity, some system, some entityObj =>
      some (entity, systraceObject arrival.1 system entityObj)
  | _, _, _ => none

/-- A payload with an entity and no system. -/
def LacksSystem (arrival : Arrival) : Prop :=
  (arrivalEntity arrival.2).isSome ∧ arrival.2.jsonGetMember "system".toList = none

def systracesAfter (history : List Arrival) : PayecsSystraces :=
  history.foldl (fun traces arrival => payecsSystraceAdd traces arrival.1 arrival.2) .init

/-- The entries recorded for these payloads, in the order of arrival. -/
def recorded (history : List Arrival) : List (UInt32 × Json) := history.filterMap recordedEntry

def PayecsSystraces.evict (traces : PayecsSystraces) : PayecsSystraces :=
  if traces.remaining = 0 then ⟨1, traces.entries.drop 1⟩ else traces

theorem payecsSystraceAdd_cases (traces : PayecsSystraces) (arrival : Arrival) :
    (∃ d, recordedEntry arrival = some d ∧ ¬ LacksSystem arrival ∧
      payecsSystraceAdd traces arrival.1 arrival.2 = ⟨traces.evict.remaining - 1,
        traces.evict.entries ++ [⟨d.1, d.2.jsonTokFull⟩]⟩) ∨
    (recordedEntry arrival = none ∧ LacksSystem arrival ∧
      payecsSystraceAdd traces arrival.1 arrival.2 = traces.evict) ∨
    (recordedEntry arrival = none ∧ ¬ LacksSystem arrival ∧
      payecsSystraceAdd traces arrival.1 arrival.2 = traces) := by
  cases read : arrivalEntity arrival.2 with
  | none =>
      have same : payecsSystraceAdd traces arrival.1 arrival.2 = traces := by
        rw [arrivalEntity] at read
        rw [payecsSystraceAdd, read]
      refine .inr (.inr ⟨by simp [recordedEntry, read], ?_, same⟩)
      rintro ⟨some, -⟩
      rw [read] at some
      cases some
  | some entity =>
      have obj : ∃ entityObj, arrival.2.jsonGetMember "entity".toList = some entityObj := by
        obtain ⟨tok, found, -⟩ := Option.bind_eq_some_iff.mp read
        obtain ⟨entityObj, there, -⟩ := Option.bind_eq_some_iff.mp found
        exact ⟨entityObj, there⟩
      obtain ⟨entityObj, there⟩ := obj
      have taken : ((arrival.2.jsonGetMember "entity".toList).bind fun entity =>
          entity.jsonGetMember "entity".toList).bind Json.jsonToU32 = some entity := read
      cases named : arrival.2.jsonGetMember "system".toList with
      | none =>
          have evicted : payecsSystraceAdd traces arrival.1 arrival.2 = traces.evict := by
            rw [payecsSystraceAdd, taken, named]
            rfl
          exact .inr (.inl
            ⟨by simp only [recordedEntry, read, named], ⟨by simp [read], named⟩, evicted⟩)
      | some system =>
          refine .inl ⟨(entity, systraceObject arrival.1 system entityObj), ?_, ?_, ?_⟩
          · simp only [recordedEntry, read, named, there]
          · rintro ⟨-, lacks⟩
            rw [named] at lacks
            cases lacks
          · rw [payecsSystraceAdd, taken, named, there]
            rfl

theorem systracesAfter_append (history : List Arrival) (arrival : Arrival) :
    systracesAfter (history ++ [arrival]) =
      payecsSystraceAdd (systracesAfter history) arrival.1 arrival.2 := by
  simp [systracesAfter]

theorem recorded_append (history : List Arrival) (arrival : Arrival) :
    recorded (history ++ [arrival]) = recorded history ++ (recordedEntry arrival).toList := by
  cases entry : recordedEntry arrival <;> simp [recorded, entry]

/-- Entries and what is left of the room for them make up the whole room. -/
theorem systraces_total (history : List Arrival) :
    (systracesAfter history).entries.length + (systracesAfter history).remaining = 100000 := by
  induction history using List.reverseRecOn with
  | nil => rfl
  | append_singleton history arrival ih =>
      have evicted : (systracesAfter history).evict.entries.length +
          (systracesAfter history).evict.remaining = 100000 ∧
            0 < (systracesAfter history).evict.remaining := by
        rw [PayecsSystraces.evict]
        split_ifs with full
        · rw [full] at ih
          simp only [List.length_drop]
          omega
        · exact ⟨ih, Nat.pos_of_ne_zero full⟩
      rw [systracesAfter_append]
      obtain ⟨d, -, -, added⟩ | ⟨-, -, added⟩ | ⟨-, -, added⟩ :=
        payecsSystraceAdd_cases (systracesAfter history) arrival
      · rw [added]
        simp only [List.length_append, List.length_singleton]
        omega
      · rw [added]
        exact evicted.1
      · rw [added]
        exact ih

theorem rtake_of_length_le {α : Type} {l : List α} {n : Nat} (short : l.length ≤ n) :
    l.rtake n = l := by
  rw [List.rtake, Nat.sub_eq_zero_of_le short, List.drop_zero]

theorem drop_rtake {α : Type} {l : List α} {n : Nat} (long : n < l.length) :
    (l.rtake (n + 1)).drop 1 = l.rtake n := by
  have shift : l.length - (n + 1) + 1 = l.length - n := by omega
  rw [List.rtake, List.rtake, List.drop_drop, shift]

theorem length_rtake {α : Type} (l : List α) (n : Nat) : (l.rtake n).length = min l.length n := by
  rw [List.rtake, List.length_drop]
  omega

/-- No payload without a system comes in when the trace may be full. -/
def ComesWithRoom (history : List Arrival) : Prop :=
  ∀ ⦃before arrival after⦄, history = before ++ arrival :: after → LacksSystem arrival →
    (recorded before).length < 100000

theorem ComesWithRoom.of_append {history more : List Arrival}
    (room : ComesWithRoom (history ++ more)) : ComesWithRoom history := by
  intro before arrival after split lacks
  refine @room before arrival (after ++ more) ?_ lacks
  rw [split, List.append_assoc, List.cons_append]

/-- With room for what is not recorded, the entries are the most recent ones. -/
theorem systraces_prints {history : List Arrival} (room : ComesWithRoom history) :
    (systracesAfter history).Prints ((recorded history).rtake 100000) := by
  induction history using List.reverseRecOn with
  | nil => rfl
  | append_singleton history arrival ih =>
      have prints := ih room.of_append
      have total := systraces_total history
      have stored : (systracesAfter history).entries.length =
          min (recorded history).length 100000 := by
        rw [prints, List.length_map, length_rtake]
      rw [systracesAfter_append, recorded_append]
      obtain ⟨d, entry, -, added⟩ | ⟨entry, lacks, added⟩ | ⟨entry, -, added⟩ :=
        payecsSystraceAdd_cases (systracesAfter history) arrival
      · have kept : (systracesAfter history).evict.Prints ((recorded history).rtake 99999) := by
          rw [PayecsSystraces.evict]
          split_ifs with full
          · rw [PayecsSystraces.Prints, prints, ← List.map_drop, drop_rtake (by omega)]
          · have few : (recorded history).length ≤ 99999 := by omega
            rw [rtake_of_length_le (by omega)] at prints
            rwa [rtake_of_length_le few]
        rw [added, entry, Option.toList_some, List.rtake_concat_succ, PayecsSystraces.Prints, kept,
          List.map_append]
        rfl
      · have few := room rfl lacks
        have left : (systracesAfter history).remaining ≠ 0 := by omega
        rw [added, entry, Option.toList_none, List.append_nil, PayecsSystraces.evict, if_neg left]
        exact prints
      · rw [added, entry, Option.toList_none, List.append_nil]
        exact prints

/-- What the trace is to keep, once these payloads have come in. -/
structure KeepsRecent (history : List Arrival) : Prop where
  lists : ∀ {params entity}, payecsSystraceArgs params = .ok entity →
    payecsSystrace (systracesAfter history) params = .ok (Json.tight [
      ("entity".toList, .primitive (formatU entity.toNat)),
      ("trace".toList, .tightArray ((((recorded history).rtake 100000).filter fun d =>
        d.1 = entity).map Prod.snd))]).jsonTokFull
  total : (systracesAfter history).entries.length + (systracesAfter history).remaining = 100000
  unrecorded : ∀ {before arrival}, history = before ++ [arrival] → recordedEntry arrival = none →
    systracesAfter history = systracesAfter before

theorem keepsRecent_of_room {history : List Arrival} (room : ComesWithRoom history) :
    KeepsRecent history where
  lists args := by
    rw [payecsSystrace, args]
    exact congrArg Except.ok ((systraces_prints room).text _)
  total := systraces_total history
  unrecorded := by
    rintro before arrival rfl unrecorded
    rw [systracesAfter_append]
    obtain ⟨d, entry, -⟩ | ⟨-, lacks, added⟩ | ⟨-, -, added⟩ :=
      payecsSystraceAdd_cases (systracesAfter before) arrival
    · rw [unrecorded] at entry
      cases entry
    · have few := room rfl lacks
      have total := systraces_total before
      have stored : (systracesAfter before).entries.length ≤ (recorded before).length := by
        rw [systraces_prints room.of_append, List.length_map, length_rtake]
        exact Nat.min_le_left _ _
      rw [added, PayecsSystraces.evict, if_neg (by omega)]
    · exact added

/-- A payload without a system costs a full trace its oldest entry. -/
theorem systracesAfter_lacksSystem {history : List Arrival} {arrival : Arrival}
    (room : ComesWithRoom history) (full : 100000 ≤ (recorded history).length)
    (lacks : LacksSystem arrival) :
    recordedEntry arrival = none ∧
      (systracesAfter history).remaining = 0 ∧
      systracesAfter (history ++ [arrival]) = ⟨1, (systracesAfter history).entries.drop 1⟩ := by
  have total := systraces_total history
  have stored : (systracesAfter history).entries.length = min (recorded history).length 100000 := by
    rw [systraces_prints room, List.length_map, length_rtake]
  have none_left : (systracesAfter history).remaining = 0 := by omega
  rw [systracesAfter_append]
  obtain ⟨d, -, complete, -⟩ | ⟨entry, -, added⟩ | ⟨-, complete, -⟩ :=
    payecsSystraceAdd_cases (systracesAfter history) arrival
  · exact absurd lacks complete
  · exact ⟨entry, none_left, by rw [added, PayecsSystraces.evict, if_pos none_left]⟩
  · exact absurd lacks complete

theorem exists_first_without_room {history : List Arrival} (short : ¬ ComesWithRoom history) :
    ∃ before arrival after, history = before ++ arrival :: after ∧ LacksSystem arrival ∧
      100000 ≤ (recorded before).length ∧ ComesWithRoom before := by
  induction history using List.reverseRecOn with
  | nil =>
      refine absurd ?_ short
      intro before arrival after split
      exact absurd split (by simp)
  | append_singleton history last ih =>
      by_cases room : ComesWithRoom history
      · have lacks : LacksSystem last ∧ 100000 ≤ (recorded history).length := by
          by_contra enough
          refine short ?_
          intro before arrival after split lacks
          induction after using List.reverseRecOn with
          | nil =>
              obtain ⟨rfl, same⟩ := List.append_inj' split rfl
              cases same
              exact Nat.not_le.mp fun full => enough ⟨lacks, full⟩
          | append_singleton after other _ =>
              rw [← List.cons_append, ← List.append_assoc] at split
              obtain ⟨rfl, -⟩ := List.append_inj' split rfl
              exact room rfl lacks
        exact ⟨history, last, [], rfl, lacks.1, lacks.2, room⟩
      · obtain ⟨before, arrival, after, rfl, lacks, full, earlier⟩ := ih room
        refine ⟨before, arrival, after ++ [last], ?_, lacks, full, earlier⟩
        rw [List.append_assoc, List.cons_append]

/-- At every time `payecs_systrace` lists the last 100000 entries, and what is not recorded
    changes nothing, exactly if no payload with an entity lacks a system once 100000 have been
    recorded. -/
theorem systrace_keeps_recent_iff (history : List Arrival) :
    (∀ past, past <+: history → KeepsRecent past) ↔
      ∀ before arrival after, history = before ++ arrival :: after → LacksSystem arrival →
        (recorded before).length < 100000 := by
  constructor
  · intro keeps
    by_contra short
    have crowded : ¬ ComesWithRoom history := fun room => short fun _ _ _ => @room _ _ _
    obtain ⟨before, arrival, after, rfl, lacks, full, room⟩ := exists_first_without_room crowded
    obtain ⟨entry, none_left, evicted⟩ := systracesAfter_lacksSystem room full lacks
    have past := keeps (before ++ [arrival]) ⟨after, by rw [List.append_assoc]; rfl⟩
    have same := past.unrecorded rfl entry
    rw [evicted] at same
    have remaining := congrArg PayecsSystraces.remaining same
    rw [none_left] at remaining
    cases remaining
  · rintro room past ⟨more, rfl⟩
    have rooms : ComesWithRoom (past ++ more) := fun before arrival after => room before arrival after
    exact keepsRecent_of_room rooms.of_append

/-- The payload for a system on entity 1. -/
def namedPayload : Json :=
  .tight [("system".toList, .string "x".toList), ("entity".toList, entityParams 1)]

/-- The same without the system. -/
def namelessPayload : Json := .tight [("entity".toList, entityParams 1)]

def newYear : Timeabs := ⟨2023, 1, 1, 0, 0, 0, 0, by decide⟩

theorem length_recorded_replicate {arrival : Arrival} {d : UInt32 × Json}
    (entry : recordedEntry arrival = some d) (n : Nat) :
    (recorded (List.replicate n arrival)).length = n := by
  rw [recorded, List.filterMap_replicate_of_some entry, List.length_replicate]

/-- After 100000 entries, a payload that is not recorded removes the oldest one. -/
theorem systrace_forgets :
    LacksSystem (newYear, namelessPayload) ∧
      ¬ KeepsRecent
        (List.replicate 100000 (newYear, namedPayload) ++ [(newYear, namelessPayload)]) := by
  have lacks : LacksSystem (newYear, namelessPayload) := ⟨rfl, rfl⟩
  have entry : recordedEntry (newYear, namedPayload) =
      some (1, systraceObject newYear (.string "x".toList) (entityParams 1)) := rfl
  have room : ComesWithRoom (List.replicate 100000 (newYear, namedPayload)) := by
    intro before arrival after split other
    have member : arrival ∈ List.replicate 100000 (newYear, namedPayload) := by
      rw [split]
      exact List.mem_append_right _ List.mem_cons_self
    rw [List.eq_of_mem_replicate member] at other
    cases other.2
  have full := (length_recorded_replicate entry 100000).ge
  obtain ⟨unrecorded, none_left, evicted⟩ := systracesAfter_lacksSystem room full lacks
  refine ⟨lacks, fun keeps => ?_⟩
  have remaining := congrArg PayecsSystraces.remaining (keeps.unrecorded rfl unrecorded)
  rw [evicted, none_left] at remaining
  cases remaining

end Payz
