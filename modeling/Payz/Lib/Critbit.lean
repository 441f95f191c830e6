import Mathlib.Data.List.Sort
import Mathlib.Data.Nat.Bitwise
import Mathlib.Order.Defs.LinearOrder

/-! # Crit-bit trees

A tree keeps its entries at the leaves.  A branch stands at the first position at which
the keys below it part, and a key goes to the side that its bit there names.  Keys are
of any type; a position is all that is asked of their bits.
-/

namespace Critbit

variable {P Q K V : Type}

/-- Entries at the leaves, positions at the branches. -/
inductive Trie (P K V : Type) where
  | leaf (key : K) (value : V)
  | node (position : P) (zero one : Trie P K V)
  deriving Repr, DecidableEq

namespace Trie

/-- The entries from the zero side to the one side. -/
def entries : Trie P K V → List (K × V)
  | .leaf key value => [(key, value)]
  | .node _ zero one => zero.entries ++ one.entries

/-- Put other marks on the branches. -/
def relabel (f : P → Q) : Trie P K V → Trie Q K V
  | .leaf key value => .leaf key value
  | .node position zero one => .node (f position) (zero.relabel f) (one.relabel f)

@[simp] theorem entries_leaf (key : K) (value : V) :
    (leaf key value : Trie P K V).entries = [(key, value)] := rfl

@[simp] theorem entries_node (position : P) (zero one : Trie P K V) :
    (node position zero one).entries = zero.entries ++ one.entries := rfl

@[simp] theorem entries_relabel (f : P → Q) (t : Trie P K V) :
    (t.relabel f).entries = t.entries := by
  induction t with
  | leaf => rfl
  | node position zero one ihz iho => simp only [relabel, entries_node, ihz, iho]

theorem entries_ne_nil (t : Trie P K V) : t.entries ≠ [] := by
  induction t with
  | leaf => simp
  | node position zero one ihz iho => simp [ihz]

theorem exists_mem_entries (t : Trie P K V) : ∃ e, e ∈ t.entries :=
  List.exists_mem_of_ne_nil _ t.entries_ne_nil

/-- The entry that the bits of a key lead to. -/
def closest (bit : K → P → Bool) (key : K) : Trie P K V → K × V
  | .leaf key' value => (key', value)
  | .node position zero one =>
      if bit key position then one.closest bit key else zero.closest bit key

/-- A branch with one side for a new key and the other for an old tree. -/
def fork (position : P) (side : Bool) (new old : Trie P K V) : Trie P K V :=
  if side then .node position old new else .node position new old

/-- Put a branch for a new key where the way to its closest entry passes a position. -/
def graft [LT P] [DecidableLT P] (bit : K → P → Bool) (position : P) (key : K) (value : V) :
    Trie P K V → Trie P K V
  | .leaf key' value' =>
      fork position (bit key position) (.leaf key value) (.leaf key' value')
  | .node position' zero one =>
      if position < position' then
        fork position (bit key position) (.leaf key value) (.node position' zero one)
      else if bit key position' then
        .node position' zero (one.graft bit position key value)
      else .node position' (zero.graft bit position key value) one

/-- Take the closest entry out; nothing is left of a leaf. -/
def prune (bit : K → P → Bool) (key : K) : Trie P K V → Option (Trie P K V)
  | .leaf _ _ => none
  | .node position zero one =>
      if bit key position then
        some ((one.prune bit key).elim zero fun one => .node position zero one)
      else some ((zero.prune bit key).elim one fun zero => .node position zero one)

/-- Put another value into the closest entry. -/
def revise (bit : K → P → Bool) (key : K) (value : V) : Trie P K V → Trie P K V
  | .leaf key' _ => .leaf key' value
  | .node position zero one =>
      if bit key position then .node position zero (one.revise bit key value)
      else .node position (zero.revise bit key value) one

/-- The entry at the end of the zero sides. -/
def first : Trie P K V → K × V
  | .leaf key value => (key, value)
  | .node _ zero _ => zero.first

/-- The entry at the end of the one sides. -/
def last : Trie P K V → K × V
  | .leaf key value => (key, value)
  | .node _ _ one => one.last

theorem head?_entries (t : Trie P K V) : t.entries.head? = some t.first := by
  induction t with
  | leaf => rfl
  | node position zero one ihz iho => simp [ihz, first]

theorem getLast?_entries (t : Trie P K V) : t.entries.getLast? = some t.last := by
  induction t with
  | leaf => rfl
  | node position zero one ihz iho => simp [iho, last]

theorem closest_relabel (f : P → Q) (bit : K → Q → Bool) (key : K) (t : Trie P K V) :
    (t.relabel f).closest bit key = t.closest (fun k p => bit k (f p)) key := by
  induction t with
  | leaf => rfl
  | node position zero one ihz iho => simp only [relabel, closest, ihz, iho]

theorem prune_relabel (f : P → Q) (bit : K → Q → Bool) (key : K) (t : Trie P K V) :
    (t.relabel f).prune bit key = (t.prune (fun k p => bit k (f p)) key).map (relabel f) := by
  induction t with
  | leaf => rfl
  | node position zero one ihz iho =>
      simp only [relabel, prune, ihz, iho]
      split_ifs
      · cases one.prune (fun k p => bit k (f p)) key <;> rfl
      · cases zero.prune (fun k p => bit k (f p)) key <;> rfl

theorem revise_relabel (f : P → Q) (bit : K → Q → Bool) (key : K) (value : V) (t : Trie P K V) :
    (t.relabel f).revise bit key value =
      (t.revise (fun k p => bit k (f p)) key value).relabel f := by
  induction t with
  | leaf => rfl
  | node position zero one ihz iho =>
      simp only [relabel, revise, ihz, iho]
      split_ifs <;> rfl

theorem keys_revise (bit : K → P → Bool) (key : K) (value : V) (t : Trie P K V) :
    (t.revise bit key value).entries.map Prod.fst = t.entries.map Prod.fst := by
  induction t with
  | leaf => rfl
  | node position zero one ihz iho =>
      rw [revise]
      split_ifs
      · rw [entries_node, List.map_append, iho, entries_node, List.map_append]
      · rw [entries_node, List.map_append, ihz, entries_node, List.map_append]

theorem exists_of_mem_revise {bit : K → P → Bool} {key : K} {value : V} {t : Trie P K V}
    {e : K × V} (member : e ∈ (t.revise bit key value).entries) :
    ∃ v, (e.1, v) ∈ t.entries := by
  have keys := List.mem_map_of_mem (f := Prod.fst) member
  rw [keys_revise, List.mem_map] at keys
  obtain ⟨old, there, same⟩ := keys
  exact ⟨old.2, by rwa [← same]⟩

theorem prune_subset {bit : K → P → Bool} {key : K} {t t' : Trie P K V}
    (left : t.prune bit key = some t') : t'.entries ⊆ t.entries := by
  induction t generalizing t' with
  | leaf => cases left
  | node position zero one ihz iho =>
      rw [prune] at left
      split_ifs at left <;> cases left
      · cases rest : one.prune bit key with
        | none => exact List.subset_append_left _ _
        | some one' =>
            exact List.append_subset.mpr ⟨List.subset_append_left _ _,
              List.subset_append_of_subset_right _ (iho rest)⟩
      · cases rest : zero.prune bit key with
        | none => exact List.subset_append_right _ _
        | some zero' =>
            exact List.append_subset.mpr ⟨List.subset_append_of_subset_left _ (ihz rest),
              List.subset_append_right _ _⟩

theorem relabel_fork (f : P → Q) (position : P) (side : Bool) (new old : Trie P K V) :
    (fork position side new old).relabel f =
      fork (f position) side (new.relabel f) (old.relabel f) := by
  cases side <;> rfl

theorem closest_mem (bit : K → P → Bool) (key : K) (t : Trie P K V) :
    t.closest bit key ∈ t.entries := by
  induction t with
  | leaf => simp [closest]
  | node position zero one ihz iho =>
      rw [closest, entries_node, List.mem_append]
      split_ifs
      · exact .inr iho
      · exact .inl ihz

theorem entries_fork {position : P} {side : Bool} {new old : Trie P K V} {e : K × V} :
    e ∈ (fork position side new old).entries ↔ e ∈ new.entries ∨ e ∈ old.entries := by
  cases side <;> simp [fork, or_comm]

end Trie

/-! ## The order of the keys -/

section Order

variable [LinearOrder P] {bit : K → P → Bool}

/-- Two keys with the same bits at all positions before one. -/
def Agree (bit : K → P → Bool) (position : P) (k l : K) : Prop :=
  ∀ q < position, bit k q = bit l q

/-- Two keys part at a position, the first one to the zero side. -/
structure Forks (bit : K → P → Bool) (position : P) (k l : K) : Prop where
  agree : Agree bit position k l
  zero : bit k position = false
  one : bit l position = true

/-- One key comes before another: the bits of both, compared from the first on. -/
def Before (bit : K → P → Bool) (k l : K) : Prop := ∃ position, Forks bit position k l

theorem Agree.refl (position : P) (k : K) : Agree bit position k k := fun _ _ => rfl

theorem Agree.symm {position : P} {k l : K} (agree : Agree bit position k l) :
    Agree bit position l k := fun q before => (agree q before).symm

theorem Agree.trans {position : P} {k l m : K} (first : Agree bit position k l)
    (second : Agree bit position l m) : Agree bit position k m :=
  fun q before => (first q before).trans (second q before)

theorem Agree.mono {position position' : P} {k l : K} (agree : Agree bit position k l)
    (le : position' ≤ position) : Agree bit position' k l :=
  fun q before => agree q (before.trans_le le)

/-- Two keys that agree before a position and differ there part at it. -/
theorem Agree.forks {position : P} {k l : K} (agree : Agree bit position k l)
    (differ : bit k position ≠ bit l position) :
    if bit k position then Forks bit position l k else Forks bit position k l := by
  cases here : bit k position with
  | true =>
      rw [here] at differ
      exact ⟨agree.symm, Bool.eq_false_iff.mpr differ.symm, here⟩
  | false =>
      rw [here] at differ
      exact ⟨agree, here, Bool.eq_true_of_not_eq_false differ.symm⟩

theorem Before.asymm {k l : K} (first : Before bit k l) : ¬ Before bit l k := by
  obtain ⟨p, parts⟩ := first
  rintro ⟨q, parts'⟩
  rcases lt_trichotomy p q with before | rfl | after
  · have same := parts'.agree p before
    rw [parts.zero, parts.one] at same
    cases same
  · have bits := parts.zero
    rw [parts'.one] at bits
    cases bits
  · have same := parts.agree q after
    rw [parts'.zero, parts'.one] at same
    cases same

theorem Before.trans {k l m : K} (first : Before bit k l) (second : Before bit l m) :
    Before bit k m := by
  obtain ⟨p, parts⟩ := first
  obtain ⟨q, parts'⟩ := second
  rcases lt_trichotomy p q with before | rfl | after
  · exact ⟨p, parts.agree.trans (parts'.agree.mono before.le), parts.zero,
      (parts'.agree p before).symm.trans parts.one⟩
  · have bits := parts.one
    rw [parts'.zero] at bits
    cases bits
  · exact ⟨q, (parts.agree.mono after.le).trans parts'.agree,
      (parts.agree q after).trans parts'.zero, parts'.one⟩

theorem Before.ne {k l : K} (before : Before bit k l) : k ≠ l := by
  rintro rfl
  exact before.asymm before

end Order

/-- Two numbers part at the highest bit of what is exclusively in one of them. -/
theorem testBit_log2_xor {x y : Nat} (differ : x ≠ y) :
    x.testBit (x ^^^ y).log2 ≠ y.testBit (x ^^^ y).log2 ∧
      ∀ j, (x ^^^ y).log2 < j → x.testBit j = y.testBit j := by
  have some : x ^^^ y ≠ 0 := by simpa [Nat.xor_eq_zero_iff] using differ
  constructor
  · have top := Nat.testBit_log2 some
    rw [Nat.testBit_xor] at top
    simpa using top
  · intro j above
    have small : x ^^^ y < 2 ^ j :=
      Nat.lt_log2_self.trans_le (Nat.pow_le_pow_right (by omega) above)
    have clear := Nat.testBit_lt_two_pow small
    rw [Nat.testBit_xor] at clear
    simpa using clear

/-- There is one bit only at which two numbers part from the top on. -/
theorem log2_xor_eq {x y c : Nat} (differ : x.testBit c ≠ y.testBit c)
    (above : ∀ j, c < j → x.testBit j = y.testBit j) : (x ^^^ y).log2 = c := by
  have apart : x ≠ y := fun same => differ (by rw [same])
  obtain ⟨here, higher⟩ := testBit_log2_xor apart
  rcases lt_trichotomy (x ^^^ y).log2 c with less | equal | greater
  · exact absurd (higher c less) differ
  · exact equal
  · exact absurd (above _ greater) here

/-! ## Trees whose branches part their keys -/

namespace Trie

variable [LinearOrder P] {bit : K → P → Bool}

/-- Each branch stands where the keys of its two sides part. -/
def Parted (bit : K → P → Bool) : Trie P K V → Prop
  | .leaf _ _ => True
  | .node position zero one =>
      zero.Parted bit ∧ one.Parted bit ∧
        ∀ a ∈ zero.entries, ∀ b ∈ one.entries, Forks bit position a.1 b.1

theorem Parted.ordered {t : Trie P K V} (parted : t.Parted bit) :
    t.entries.Pairwise fun a b => Before bit a.1 b.1 := by
  induction t with
  | leaf => simp
  | node position zero one ihz iho =>
      obtain ⟨partedZero, partedOne, forks⟩ := parted
      rw [entries_node, List.pairwise_append]
      exact ⟨ihz partedZero, iho partedOne, fun a ha b hb => ⟨position, forks a ha b hb⟩⟩

/-- All keys below a branch agree before its position. -/
theorem Parted.agree {position : P} {zero one : Trie P K V}
    (parted : (node position zero one).Parted bit) {a b : K × V}
    (ha : a ∈ (node position zero one).entries) (hb : b ∈ (node position zero one).entries) :
    Agree bit position a.1 b.1 := by
  obtain ⟨-, -, forks⟩ := parted
  obtain ⟨z, hz⟩ := zero.exists_mem_entries
  obtain ⟨o, ho⟩ := one.exists_mem_entries
  have toOne : ∀ e ∈ (node position zero one).entries, Agree bit position e.1 o.1 := by
    intro e member
    rcases List.mem_append.mp member with left | right
    · exact (forks e left o ho).agree
    · exact (forks z hz e right).agree.symm.trans (forks z hz o ho).agree
  exact (toOne a ha).trans (toOne b hb).symm

theorem Parted.closest_of_mem {t : Trie P K V} (parted : t.Parted bit) {e : K × V}
    (member : e ∈ t.entries) : t.closest bit e.1 = e := by
  induction t with
  | leaf key value => simpa [closest, eq_comm] using member
  | node position zero one ihz iho =>
      obtain ⟨partedZero, partedOne, forks⟩ := parted
      obtain ⟨z, hz⟩ := zero.exists_mem_entries
      obtain ⟨o, ho⟩ := one.exists_mem_entries
      rw [closest]
      rcases List.mem_append.mp member with left | right
      · rw [(forks e left o ho).zero, if_neg Bool.false_ne_true]
        exact ihz partedZero left
      · rw [(forks z hz e right).one, if_pos rfl]
        exact iho partedOne right

/-- A key is there exactly when its closest entry has it. -/
theorem Parted.mem_iff_closest {t : Trie P K V} (parted : t.Parted bit) (key : K) (value : V) :
    (key, value) ∈ t.entries ↔ t.closest bit key = (key, value) := by
  constructor
  · exact parted.closest_of_mem
  · intro closest
    rw [← closest]
    exact t.closest_mem bit key

theorem mem_entries_graft {position : P} {key : K} {value : V} {t : Trie P K V} {e : K × V} :
    e ∈ (t.graft bit position key value).entries ↔ e = (key, value) ∨ e ∈ t.entries := by
  induction t with
  | leaf => simp [graft, entries_fork]
  | node position' zero one ihz iho =>
      rw [graft]
      split_ifs
      · simp [entries_fork]
      · simp only [entries_node, List.mem_append, iho, or_left_comm]
      · simp only [entries_node, List.mem_append, ihz, or_assoc]

theorem Parted.fork {position : P} {key : K} {value : V} {old : Trie P K V}
    (parted : old.Parted bit) (agree : ∀ e ∈ old.entries, Agree bit position key e.1)
    (differ : ∀ e ∈ old.entries, bit key position ≠ bit e.1 position) :
    (fork position (bit key position) (leaf key value) old).Parted bit := by
  have parts := fun e member => (agree e member).forks (differ e member)
  unfold Trie.fork
  cases side : bit key position with
  | true =>
      refine ⟨parted, trivial, fun a ha b hb => ?_⟩
      rw [entries_leaf, List.mem_singleton] at hb
      simpa [side, hb] using parts a ha
  | false =>
      refine ⟨trivial, parted, fun a ha b hb => ?_⟩
      rw [entries_leaf, List.mem_singleton] at ha
      simpa [side, ha] using parts b hb

/-- The branch for a new key goes where the key parts from its closest entry. -/
theorem Parted.graft {t : Trie P K V} (parted : t.Parted bit) {position : P} {key : K}
    (value : V) (agree : Agree bit position key (t.closest bit key).1)
    (differ : bit key position ≠ bit (t.closest bit key).1 position) :
    (t.graft bit position key value).Parted bit := by
  induction t with
  | leaf key' value' =>
      refine Parted.fork parted ?_ ?_ <;>
      · intro e member
        rw [entries_leaf, List.mem_singleton] at member
        rw [member]
        assumption
  | node position' zero one ihz iho =>
      have near := (node position' zero one).closest_mem bit key
      have all := fun e member => parted.agree near (b := e) member
      rw [Trie.graft]
      split_ifs with above side
      · -- The branch comes first: everything below agrees past the new position.
        refine parted.fork (fun e member => agree.trans ((all e member).mono above.le)) ?_
        intro e member same
        exact differ (same.trans (all e member position above).symm)
      · rw [closest, if_pos side] at agree differ
        have later : position' < position := by
          refine lt_of_le_of_ne (not_lt.mp above) ?_
          rintro rfl
          obtain ⟨z, hz⟩ := zero.exists_mem_entries
          exact differ (side.trans (parted.2.2 z hz _ (one.closest_mem bit key)).one.symm)
        refine ⟨parted.1, iho parted.2.1 agree differ, fun a ha b hb => ?_⟩
        rcases mem_entries_graft.mp hb with rfl | old
        · have parts := parted.2.2 a ha _ (one.closest_mem bit key)
          exact ⟨parts.agree.trans (agree.symm.mono later.le), parts.zero, side⟩
        · exact parted.2.2 a ha b old
      · rw [closest, if_neg side] at agree differ
        rw [Bool.not_eq_true] at side
        have later : position' < position := by
          refine lt_of_le_of_ne (not_lt.mp above) ?_
          rintro rfl
          obtain ⟨o, ho⟩ := one.exists_mem_entries
          exact differ (side.trans (parted.2.2 _ (zero.closest_mem bit key) o ho).zero.symm)
        refine ⟨ihz parted.1 agree differ, parted.2.1, fun a ha b hb => ?_⟩
        rcases mem_entries_graft.mp ha with rfl | old
        · have parts := parted.2.2 _ (zero.closest_mem bit key) b hb
          exact ⟨(agree.mono later.le).trans parts.agree, side, parts.one⟩
        · exact parted.2.2 a old b hb

theorem mem_entries_prune {t : Trie P K V} (parted : t.Parted bit) (key : K) (e : K × V) :
    e ∈ (t.prune bit key).elim [] entries ↔
      e ∈ t.entries ∧ e.1 ≠ (t.closest bit key).1 := by
  induction t with
  | leaf key' value => simp +contextual [prune, closest]
  | node position zero one ihz iho =>
      obtain ⟨partedZero, partedOne, forks⟩ := parted
      have apart : ∀ a ∈ zero.entries, ∀ b ∈ one.entries, a.1 ≠ b.1 := fun a ha b hb =>
        Before.ne ⟨position, forks a ha b hb⟩
      rw [prune, closest, entries_node, List.mem_append, or_and_right]
      split_ifs
      · have kept : e ∈ zero.entries ↔ e ∈ zero.entries ∧ e.1 ≠ (one.closest bit key).1 :=
          ⟨fun member => ⟨member, apart e member _ (one.closest_mem bit key)⟩, And.left⟩
        rw [← kept, ← iho partedOne]
        cases one.prune bit key <;> simp
      · have kept : e ∈ one.entries ↔ e ∈ one.entries ∧ e.1 ≠ (zero.closest bit key).1 :=
          ⟨fun member => ⟨member, (apart _ (zero.closest_mem bit key) e member).symm⟩, And.left⟩
        rw [← kept, ← ihz partedZero]
        cases zero.prune bit key <;> simp

theorem Parted.prune {key : K} {t t' : Trie P K V} (parted : t.Parted bit)
    (left : t.prune bit key = some t') : t'.Parted bit := by
  induction t generalizing t' with
  | leaf => cases left
  | node position zero one ihz iho =>
      obtain ⟨partedZero, partedOne, forks⟩ := parted
      rw [Trie.prune] at left
      split_ifs at left <;> cases left
      · cases rest : one.prune bit key with
        | none => exact partedZero
        | some one' =>
            refine ⟨partedZero, iho partedOne rest, fun a ha b hb => forks a ha b ?_⟩
            have member := mem_entries_prune partedOne key b
            rw [rest] at member
            exact (member.mp hb).1
      · cases rest : zero.prune bit key with
        | none => exact partedOne
        | some zero' =>
            refine ⟨ihz partedZero rest, partedOne, fun a ha b hb => forks a ?_ b hb⟩
            have member := mem_entries_prune partedZero key a
            rw [rest] at member
            exact (member.mp ha).1

theorem Parted.revise {key : K} {value : V} {t : Trie P K V} (parted : t.Parted bit) :
    (t.revise bit key value).Parted bit := by
  induction t with
  | leaf => trivial
  | node position zero one ihz iho =>
      obtain ⟨partedZero, partedOne, forks⟩ := parted
      rw [Trie.revise]
      split_ifs
      · refine ⟨partedZero, iho partedOne, fun a ha b hb => ?_⟩
        obtain ⟨v, there⟩ := exists_of_mem_revise hb
        exact forks a ha (b.1, v) there
      · refine ⟨ihz partedZero, partedOne, fun a ha b hb => ?_⟩
        obtain ⟨v, there⟩ := exists_of_mem_revise ha
        exact forks (a.1, v) there b hb

theorem mem_entries_revise {key : K} {value : V} {t : Trie P K V} (parted : t.Parted bit)
    {e : K × V} : e ∈ (t.revise bit key value).entries ↔
      e = ((t.closest bit key).1, value) ∨ e ∈ t.entries ∧ e.1 ≠ (t.closest bit key).1 := by
  induction t with
  | leaf key' value' => simp +contextual [Trie.revise, closest]
  | node position zero one ihz iho =>
      obtain ⟨partedZero, partedOne, forks⟩ := parted
      have apart : ∀ a ∈ zero.entries, ∀ b ∈ one.entries, a.1 ≠ b.1 := fun a ha b hb =>
        Before.ne ⟨position, forks a ha b hb⟩
      rw [Trie.revise, closest]
      split_ifs
      · have kept : e ∈ zero.entries ↔ e ∈ zero.entries ∧ e.1 ≠ (one.closest bit key).1 :=
          ⟨fun member => ⟨member, apart e member _ (one.closest_mem bit key)⟩, And.left⟩
        rw [entries_node, entries_node, List.mem_append, List.mem_append, iho partedOne,
          or_and_right, ← kept, or_left_comm]
      · have kept : e ∈ one.entries ↔ e ∈ one.entries ∧ e.1 ≠ (zero.closest bit key).1 :=
          ⟨fun member => ⟨member, (apart _ (zero.closest_mem bit key) e member).symm⟩, And.left⟩
        rw [entries_node, entries_node, List.mem_append, List.mem_append, ihz partedZero,
          or_and_right, ← kept, or_assoc]

/-- A tree whose branch, if it has one, stands after a position. -/
def Past (position : P) : Trie P K V → Prop
  | .leaf _ _ => True
  | .node position' _ _ => position < position'

theorem Parted.past {position : P} {t : Trie P K V} (parted : t.Parted bit) (side : Bool)
    (agree : ∀ a ∈ t.entries, ∀ b ∈ t.entries, Agree bit position a.1 b.1)
    (same : ∀ e ∈ t.entries, bit e.1 position = side) : t.Past position := by
  cases t with
  | leaf => trivial
  | node position' zero one =>
      obtain ⟨z, hz⟩ := zero.exists_mem_entries
      obtain ⟨o, ho⟩ := one.exists_mem_entries
      have parts := parted.2.2 z hz o ho
      have left : z ∈ (node position' zero one).entries := List.mem_append_left _ hz
      have right : o ∈ (node position' zero one).entries := List.mem_append_right _ ho
      by_contra above
      rcases (not_lt.mp above).lt_or_eq with before | rfl
      · have equal := agree z left o right position' before
        rw [parts.zero, parts.one] at equal
        cases equal
      · have equal := (same z left).trans (same o right).symm
        rw [parts.zero, parts.one] at equal
        cases equal

theorem Parted.sides_past {position : P} {zero one : Trie P K V}
    (parted : (node position zero one).Parted bit) : zero.Past position ∧ one.Past position := by
  obtain ⟨z, hz⟩ := zero.exists_mem_entries
  obtain ⟨o, ho⟩ := one.exists_mem_entries
  constructor
  · refine parted.1.past false ?_ fun e member => (parted.2.2 e member o ho).zero
    exact fun a ha b hb =>
      parted.agree (List.mem_append_left _ ha) (List.mem_append_left _ hb)
  · refine parted.2.1.past true ?_ fun e member => (parted.2.2 z hz e member).one
    exact fun a ha b hb =>
      parted.agree (List.mem_append_right _ ha) (List.mem_append_right _ hb)

end Trie

/-- Entries in the order of their keys are known by which ones they are. -/
theorem ordered_ext [LinearOrder P] {bit : K → P → Bool} {l m : List (K × V)}
    (orderedL : l.Pairwise fun a b => Before bit a.1 b.1)
    (orderedM : m.Pairwise fun a b => Before bit a.1 b.1)
    (same : ∀ e, e ∈ l ↔ e ∈ m) : l = m := by
  have distinct : ∀ {l : List (K × V)}, (l.Pairwise fun a b => Before bit a.1 b.1) → l.Nodup :=
    fun ordered => ordered.imp fun before equal => before.ne (congrArg Prod.fst equal)
  have perm : l.Perm m :=
    (List.perm_ext_iff_of_nodup (distinct orderedL) (distinct orderedM)).mpr same
  exact perm.eq_of_pairwise (fun a b _ _ before after => absurd after before.asymm)
    orderedL orderedM

/-! ## The keys that begin like another -/

namespace Trie

variable [LinearOrder P] {bit : K → P → Bool} {inside : P → Bool}

/-- The part of a tree below the positions that a key's way must pass. -/
def top (bit : K → P → Bool) (inside : P → Bool) (key : K) : Trie P K V → Trie P K V
  | .leaf key' value => .leaf key' value
  | .node position zero one =>
      if inside position then
        if bit key position then one.top bit inside key else zero.top bit inside key
      else .node position zero one

/-- Two keys with the same bits at all positions inside. -/
def Alike (bit : K → P → Bool) (inside : P → Bool) (k l : K) : Prop :=
  ∀ position, inside position → bit k position = bit l position

theorem Parted.top {t : Trie P K V} (parted : t.Parted bit) (key : K) :
    (t.top bit inside key).Parted bit := by
  induction t with
  | leaf => trivial
  | node position zero one ihz iho =>
      rw [Trie.top]
      split_ifs
      · exact iho parted.2.1
      · exact ihz parted.1
      · exact parted

/-- The top holds what begins like the key, provided that the closest entry does. -/
theorem Parted.mem_top {t : Trie P K V} (parted : t.Parted bit) (key : K)
    (initial : ∀ p q, p ≤ q → inside q → inside p) (e : K × V) :
    e ∈ (t.top bit inside key).entries ∧ Alike bit inside key (t.closest bit key).1 ↔
      e ∈ t.entries ∧ Alike bit inside key e.1 := by
  induction t with
  | leaf key' value =>
      simp only [Trie.top, closest, entries_leaf, List.mem_singleton]
      exact and_congr_right fun same => by rw [same]
  | node position zero one ihz iho =>
      have near := (node position zero one).closest_mem bit key
      obtain ⟨z, hz⟩ := zero.exists_mem_entries
      obtain ⟨o, ho⟩ := one.exists_mem_entries
      by_cases within : inside position
      · rw [Trie.top, if_pos within, closest, entries_node, List.mem_append]
        by_cases side : bit key position
        · rw [if_pos side, if_pos side, iho parted.2.1]
          refine ⟨fun ⟨member, alike⟩ => ⟨.inr member, alike⟩, fun ⟨member, alike⟩ =>
            ⟨member.resolve_left fun left => ?_, alike⟩⟩
          have bits := alike position within
          rw [side, (parted.2.2 e left o ho).zero] at bits
          cases bits
        · rw [if_neg side, if_neg side, ihz parted.1]
          refine ⟨fun ⟨member, alike⟩ => ⟨.inl member, alike⟩, fun ⟨member, alike⟩ =>
            ⟨member.resolve_right fun right => ?_, alike⟩⟩
          have bits := alike position within
          rw [(parted.2.2 z hz e right).one] at bits
          exact side bits
      · have before : ∀ q, inside q → q < position := fun q inside =>
          lt_of_not_ge fun above => within (initial position q above inside)
        rw [Trie.top, if_neg within]
        refine and_congr_right fun member => forall₂_congr fun q inside => ?_
        rw [parted.agree near member q (before q inside)]

end Trie

/-! ## Trees as finite maps -/

/-- The entries below a root, which may be empty. -/
def entriesOf (root : Option (Trie P K V)) : List (K × V) := root.elim [] Trie.entries

@[simp] theorem entriesOf_none : entriesOf (none : Option (Trie P K V)) = [] := rfl

@[simp] theorem entriesOf_some (t : Trie P K V) : entriesOf (some t) = t.entries := rfl

/-- The value under a key. -/
def find [DecidableEq K] (bit : K → P → Bool) (root : Option (Trie P K V)) (key : K) : Option V :=
  root.bind fun t =>
    if key = (t.closest bit key).1 then some (t.closest bit key).2 else none

/-- A root keeps a finite map: its branches part their keys and its entries are the map's. -/
structure Keeps [LinearOrder P] (bit : K → P → Bool) (root : Option (Trie P K V))
    (f : K → Option V) : Prop where
  parted : ∀ t, root = some t → t.Parted bit
  entries : ∀ k v, (k, v) ∈ entriesOf root ↔ f k = some v

section Maps

variable [LinearOrder P] {bit : K → P → Bool} {root : Option (Trie P K V)} {f : K → Option V}

theorem keeps_none : Keeps bit (none : Option (Trie P K V)) fun _ => none := by
  refine ⟨fun t equal => (nomatch equal), fun k v => ?_⟩
  simp

theorem Keeps.ordered (keeps : Keeps bit root f) :
    (entriesOf root).Pairwise fun a b => Before bit a.1 b.1 := by
  cases root with
  | none => exact List.Pairwise.nil
  | some t => exact (keeps.parted t rfl).ordered

/-- A root that keeps a map has its entries in one order only. -/
theorem Keeps.entries_eq (keeps : Keeps bit root f) {l : List (K × V)}
    (ordered : l.Pairwise fun a b => Before bit a.1 b.1)
    (same : ∀ k v, (k, v) ∈ l ↔ f k = some v) : entriesOf root = l := by
  refine ordered_ext keeps.ordered ordered fun e => ?_
  rw [keeps.entries e.1 e.2, same]

theorem Keeps.congr (keeps : Keeps bit root f) {g : K → Option V} (same : ∀ k, f k = g k) :
    Keeps bit root g := by
  rwa [← funext same]

variable [DecidableEq K]

theorem Keeps.find (keeps : Keeps bit root f) (key : K) : find bit root key = f key := by
  refine Option.ext fun value => ?_
  rw [← keeps.entries key value]
  cases root with
  | none => simp [Critbit.find]
  | some t =>
      have closest := (keeps.parted t rfl).mem_iff_closest key value
      rw [entriesOf_some, closest, Critbit.find, Option.bind_some, Option.ite_none_right_eq_some,
        Option.some.injEq, Prod.ext_iff]
      exact and_congr_left' eq_comm

theorem Keeps.leaf (keeps : Keeps bit (none : Option (Trie P K V)) f) (key : K) (value : V) :
    Keeps bit (some (.leaf key value : Trie P K V)) (Function.update f key (some value)) := by
  refine ⟨fun t equal => ?_, fun k v => ?_⟩
  · cases equal
    trivial
  · have empty : f k = none := Option.eq_none_iff_forall_ne_some.mpr fun v there =>
      nomatch (keeps.entries k v).mpr there
    by_cases same : k = key
    · simp [same, eq_comm]
    · simp [same, empty]

theorem Keeps.graft {t : Trie P K V} (keeps : Keeps bit (some t) f) (position : P) (key : K)
    (value : V) (agree : Agree bit position key (t.closest bit key).1)
    (differ : bit key position ≠ bit (t.closest bit key).1 position) :
    Keeps bit (some (t.graft bit position key value)) (Function.update f key (some value)) := by
  have parted := keeps.parted t rfl
  have fresh : ∀ v, (key, v) ∉ t.entries := fun v there => by
    rw [parted.closest_of_mem there] at differ
    exact differ rfl
  refine ⟨fun t' equal => ?_, fun k v => ?_⟩
  · cases equal
    exact parted.graft value agree differ
  · rw [entriesOf_some, Trie.mem_entries_graft, Prod.mk.injEq]
    by_cases same : k = key
    · subst same
      simp [fresh, eq_comm]
    · simpa [same] using keeps.entries k v

theorem Keeps.prune {t : Trie P K V} (keeps : Keeps bit (some t) f) (key : K)
    (there : (t.closest bit key).1 = key) :
    Keeps bit (t.prune bit key) (Function.update f key none) := by
  have parted := keeps.parted t rfl
  refine ⟨fun t' left => parted.prune left, fun k v => ?_⟩
  rw [entriesOf, Trie.mem_entries_prune parted key, there, ← entriesOf_some, keeps.entries]
  by_cases same : k = key <;> simp [same]

theorem Keeps.revise {t : Trie P K V} (keeps : Keeps bit (some t) f) (key : K) (value : V)
    (there : (t.closest bit key).1 = key) :
    Keeps bit (some (t.revise bit key value)) (Function.update f key (some value)) := by
  have parted := keeps.parted t rfl
  refine ⟨fun t' equal => ?_, fun k v => ?_⟩
  · cases equal
    exact parted.revise
  · rw [entriesOf_some, Trie.mem_entries_revise parted, there, Prod.mk.injEq, ← entriesOf_some,
      keeps.entries]
    by_cases same : k = key
    · simp [same, eq_comm]
    · simp [same]

end Maps

section Tables

variable [DecidableEq K] [Ord K] [Std.TransOrd K] [Std.LawfulEqOrd K]

theorem update_insertIfNew (m : Std.ExtTreeMap K V) (key : K) (value : V) (k : K) :
    Function.update (fun k => m[k]?) key (some (m[key]?.getD value)) k =
      (m.insertIfNew key value)[k]? := by
  rw [Std.ExtTreeMap.getElem?_insertIfNew]
  by_cases same : k = key
  · subst same
    have there : k ∈ m ↔ m[k]?.isSome := Std.ExtTreeMap.mem_iff_isSome_getElem?
    cases found : m[k]? with
    | none =>
        rw [found] at there
        simp [there]
    | some v =>
        rw [found] at there
        simp [there]
  · have other : ¬ key = k := fun equal => same equal.symm
    simp [same, other]

theorem update_erase (m : Std.ExtTreeMap K V) (key k : K) :
    Function.update (fun k => m[k]?) key none k = (m.erase key)[k]? := by
  rw [Std.ExtTreeMap.getElem?_erase]
  by_cases same : k = key
  · simp [same]
  · have other : ¬ key = k := fun equal => same equal.symm
    simp [same, other]

end Tables

/-! ## Visiting the entries -/

/-- Handle entries one after the other, until the handler says to stop. -/
def visit {σ : Type} (handle : K → V → σ → Bool × σ) : List (K × V) → σ → Bool × σ
  | [], s => (true, s)
  | e :: rest, s =>
      match handle e.1 e.2 s with
      | (true, s) => visit handle rest s
      | (false, s) => (false, s)

theorem visit_append {σ : Type} (handle : K → V → σ → Bool × σ) (l m : List (K × V)) (s : σ) :
    visit handle (l ++ m) s =
      match visit handle l s with
      | (true, s) => visit handle m s
      | (false, s) => (false, s) := by
  induction l generalizing s with
  | nil => rfl
  | cons e l ih =>
      rw [List.cons_append, visit, visit]
      cases handle e.1 e.2 s with
      | mk more s => cases more <;> simp [ih]

/-- The visit of a tree: its zero side first. -/
def Trie.walk {σ : Type} (handle : K → V → σ → Bool × σ) : Trie P K V → σ → Bool × σ
  | .leaf key value, s => handle key value s
  | .node _ zero one, s =>
      match zero.walk handle s with
      | (true, s) => one.walk handle s
      | (false, s) => (false, s)

theorem Trie.walk_eq_visit {σ : Type} (handle : K → V → σ → Bool × σ) (t : Trie P K V) (s : σ) :
    t.walk handle s = visit handle t.entries s := by
  induction t generalizing s with
  | leaf key value =>
      rw [walk, entries_leaf, visit]
      cases handle key value s with
      | mk more s => cases more <;> rfl
  | node position zero one ihz iho =>
      rw [walk, entries_node, visit_append, ihz]
      cases visit handle zero.entries s with
      | mk more s => cases more <;> simp [iho]

/-- A handler that never stops folds over all entries. -/
theorem visit_eq_foldl {σ : Type} {handle : K → V → σ → Bool × σ} {f : σ → K × V → σ}
    (always : ∀ k v s, handle k v s = (true, f s (k, v))) (l : List (K × V)) (s : σ) :
    visit handle l s = (true, l.foldl f s) := by
  induction l generalizing s with
  | nil => rfl
  | cons e l ih => rw [visit, always, List.foldl_cons]; exact ih _

end Critbit
