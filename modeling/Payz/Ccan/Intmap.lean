import Mathlib.Order.OrderDual
import Payz.Ccan.Strmap

/-! # The integer map

`ccan/intmap/intmap.c`, after the string map.  A node keeps the bits that its indices have
in common together with the bit at which they part, in one word.
-/

namespace Payz

open Critbit

/-- `intmap_index_t`. -/
abbrev IntmapIndex : Type := BitVec 64

/-- `struct intmap`; the position of a node is its `prefix_and_critbit`. -/
abbrev Intmap (V : Type) : Type := Option (Trie IntmapIndex IntmapIndex V)

/-- `bitops_ls64`: the lowest set bit. -/
def bitopsLs64 (u : BitVec 64) : Nat := ((List.range 64).find? fun i => u.getLsbD i).getD 0

/-- `bitops_hs64`: the highest set bit. -/
def bitopsHs64 (u : BitVec 64) : Nat := u.toNat.log2

/-- `critbit`, of the word of a node. -/
def intmapCritbit (prefixAndCritbit : IntmapIndex) : Nat := bitopsLs64 prefixAndCritbit

/-- `prefix_mask`: the bits above the critbit. -/
def prefixMask (critbit : Nat) : IntmapIndex := (-2#64) <<< critbit

/-- `prefix_and_critbit`: 1 is appended to the bits above. -/
def prefixAndCritbit (v : IntmapIndex) (n : Nat) : IntmapIndex :=
  let critbit := 1#64 <<< n
  (v &&& ~~~(critbit - 1)) ||| critbit

/-- The direction of an index at a node. -/
def intmapDirection (index prefixAndCritbit : IntmapIndex) : Bool :=
  index.getLsbD (intmapCritbit prefixAndCritbit)

/-- `intmap_get_`: `none` for `NULL`. -/
def intmapGet {V : Type} (map : Intmap V) (index : IntmapIndex) : Option V :=
  match map with
  | none => none
  | some n =>
      let n := n.closest intmapDirection index
      if index = n.1 then some n.2 else none

def splitNode {V : Type} (n : Trie IntmapIndex IntmapIndex V) (nodeindex index : IntmapIndex)
    (value : V) : Trie IntmapIndex IntmapIndex V :=
  let critbit := bitopsHs64 (nodeindex ^^^ index)
  let newDir := index.getLsbD critbit
  .fork (prefixAndCritbit index critbit) newDir (.leaf index value) n

/-- The loop of `intmap_add_`: `none` for an index that is there (`EEXIST`). -/
def intmapAddLoop {V : Type} (index : IntmapIndex) (value : V) :
    Trie IntmapIndex IntmapIndex V → Option (Trie IntmapIndex IntmapIndex V)
  | .leaf i v => if index = i then none else some (splitNode (.leaf i v) i index value)
  | .node word child0 child1 =>
      let crit := intmapCritbit word
      let mask := prefixMask crit
      if index &&& mask ≠ word &&& mask then
        some (splitNode (.node word child0 child1) (word &&& mask) index value)
      else if index.getLsbD crit then
        (intmapAddLoop index value child1).map fun child1 => .node word child0 child1
      else (intmapAddLoop index value child0).map fun child0 => .node word child0 child1

def intmapAdd {V : Type} (map : Intmap V) (index : IntmapIndex) (value : V) : Bool × Intmap V :=
  match map with
  | none => (true, some (.leaf index value))
  | some n =>
      match intmapAddLoop index value n with
      | none => (false, map)
      | some n => (true, some n)

/-- `intmap_del_`: the value, `none` for `NULL`. -/
def intmapDel {V : Type} (map : Intmap V) (index : IntmapIndex) : Option V × Intmap V :=
  match map with
  | none => (none, map)
  | some tree =>
      let n := tree.closest intmapDirection index
      if index = n.1 then (some n.2, tree.prune intmapDirection index) else (none, map)

/-- `intmap_first_`: the index and the value, `none` for `NULL`. -/
def intmapFirst {V : Type} (map : Intmap V) : Option (IntmapIndex × V) := map.map Trie.first

def intmapLast {V : Type} (map : Intmap V) : Option (IntmapIndex × V) := map.map Trie.last

/-- The loop of `intmap_after_`.  What is remembered of `prev` is its greater child. -/
def intmapAfterLoop {V : Type} (index : IntmapIndex) :
    Trie IntmapIndex IntmapIndex V → Intmap V → Option (IntmapIndex × V)
  | .leaf i v, prev => if index ≤ i then some (i, v) else intmapFirst prev
  | .node word child0 child1, prev =>
      let crit := intmapCritbit word
      let idx := index >>> crit
      let direction := idx.getLsbD 0
      let idx := idx ||| 1#64
      let bits := word >>> crit
      if idx < bits then some (Trie.node word child0 child1).first
      else if bits < idx then intmapFirst prev
      else if direction then intmapAfterLoop index child1 prev
      else intmapAfterLoop index child0 (some child1)

def intmapAfter {V : Type} (map : Intmap V) (indexp : IntmapIndex) : Option (IntmapIndex × V) :=
  let index := indexp + 1#64
  if index = 0#64 then none
  else
    match map with
    | none => none
    | some n => intmapAfterLoop index n none

/-- The loop of `intmap_before_`.  What is remembered of `prev` is its lesser child. -/
def intmapBeforeLoop {V : Type} (index : IntmapIndex) :
    Trie IntmapIndex IntmapIndex V → Intmap V → Option (IntmapIndex × V)
  | .leaf i v, prev => if i ≤ index then some (i, v) else intmapLast prev
  | .node word child0 child1, prev =>
      let crit := intmapCritbit word
      let idx := index >>> crit
      let direction := idx.getLsbD 0
      let idx := idx ||| 1#64
      let bits := word >>> crit
      if bits < idx then some (Trie.node word child0 child1).last
      else if idx < bits then intmapLast prev
      else if direction then intmapBeforeLoop index child1 (some child0)
      else intmapBeforeLoop index child0 prev

def intmapBefore {V : Type} (map : Intmap V) (indexp : IntmapIndex) : Option (IntmapIndex × V) :=
  let index := indexp - 1#64
  if index = -1#64 then none
  else
    match map with
    | none => none
    | some n => intmapBeforeLoop index n none

def intmapClear {V : Type} (_ : Intmap V) : Intmap V := none

def intmapEmpty {V : Type} (map : Intmap V) : Bool := map.isNone

/-- `intmap_iterate_`, for a handler that changes a state. -/
def intmapIterate {V σ : Type} (map : Intmap V) (handle : IntmapIndex → V → σ → Bool × σ)
    (offset : IntmapIndex) (s : σ) : Bool × σ :=
  match map with
  | none => (true, s)
  | some n => n.walk (fun i v s => handle (i - offset) v s) s

/-! ## The bits of the words -/

theorem bitopsHs64_xor {x y : BitVec 64} (differ : x ≠ y) :
    x.getLsbD (bitopsHs64 (x ^^^ y)) ≠ y.getLsbD (bitopsHs64 (x ^^^ y)) ∧
      ∀ j, bitopsHs64 (x ^^^ y) < j → x.getLsbD j = y.getLsbD j := by
  have apart : x.toNat ≠ y.toNat := fun same => differ (BitVec.eq_of_toNat_eq same)
  simpa only [bitopsHs64, BitVec.toNat_xor, BitVec.testBit_toNat] using testBit_log2_xor apart

theorem bitopsHs64_xor_eq {x y : BitVec 64} {c : Nat} (differ : x.getLsbD c ≠ y.getLsbD c)
    (above : ∀ j, c < j → x.getLsbD j = y.getLsbD j) : bitopsHs64 (x ^^^ y) = c := by
  rw [bitopsHs64, BitVec.toNat_xor]
  refine log2_xor_eq ?_ fun j higher => ?_
  · simpa only [BitVec.testBit_toNat] using differ
  · simpa only [BitVec.testBit_toNat] using above j higher

theorem lt_of_bits {x y : BitVec 64} {c : Nat} (above : ∀ j, c < j → x.getLsbD j = y.getLsbD j)
    (zero : x.getLsbD c = false) (one : y.getLsbD c = true) : x < y := by
  rw [BitVec.lt_def]
  refine Nat.lt_of_testBit c ?_ ?_ fun j higher => ?_
  · rwa [BitVec.testBit_toNat]
  · rwa [BitVec.testBit_toNat]
  · rw [BitVec.testBit_toNat, BitVec.testBit_toNat, above j higher]

theorem getLsbD_prefixMask (c i : Nat) : (prefixMask c).getLsbD i = decide (c < i ∧ i < 64) := by
  have two : ∀ j, (-2#64).getLsbD j = decide (0 < j ∧ j < 64) := by
    intro j
    by_cases inside : j < 64
    · revert j
      decide
    · rw [BitVec.getLsbD_of_ge _ _ (not_lt.mp inside)]
      simp [inside]
  rw [prefixMask, BitVec.getLsbD_shiftLeft, two, Bool.eq_iff_iff]
  simp only [Bool.and_eq_true, Bool.not_eq_true', decide_eq_true_eq, decide_eq_false_iff_not]
  omega

theorem getLsbD_prefixAndCritbit (v : IntmapIndex) {n : Nat} (inside : n < 64) (i : Nat) :
    (prefixAndCritbit v n).getLsbD i = (decide (i = n) || decide (n < i) && v.getLsbD i) := by
  have small : 2 ^ n < 2 ^ 64 := Nat.pow_lt_pow_right (by omega) inside
  have one : (1#64 <<< n).toNat = 2 ^ n := by
    rw [BitVec.toNat_shiftLeft, Nat.shiftLeft_eq, show (1#64).toNat = 1 from rfl, Nat.one_mul,
      Nat.mod_eq_of_lt small]
  have below : (1#64 <<< n - 1).toNat = 2 ^ n - 1 := by
    have positive : 0 < 2 ^ n := Nat.two_pow_pos n
    rw [BitVec.toNat_sub, one, show (1 : BitVec 64).toNat = 1 from rfl]
    omega
  by_cases within : i < 64
  · rw [prefixAndCritbit, BitVec.getLsbD_or, BitVec.getLsbD_and, BitVec.getLsbD_not,
      ← BitVec.testBit_toNat (1#64 <<< n), ← BitVec.testBit_toNat (1#64 <<< n - 1), one, below,
      Nat.testBit_two_pow_sub_one, Nat.testBit_two_pow]
    rcases lt_trichotomy i n with less | equal | greater
    · simp [within, less, not_lt_of_gt less, less.ne, less.ne']
    · simp [equal]
    · simp [within, greater, not_lt_of_gt greater, greater.ne, greater.ne']
  · rw [BitVec.getLsbD_of_ge _ _ (not_lt.mp within), BitVec.getLsbD_of_ge v _ (not_lt.mp within)]
    have other : i ≠ n := by omega
    simp [other]

theorem bitopsLs64_eq {u : BitVec 64} {n : Nat} (inside : n < 64) (here : u.getLsbD n = true)
    (below : ∀ i < n, u.getLsbD i = false) : bitopsLs64 u = n := by
  have found : (List.range 64).find? (fun i => u.getLsbD i) = some n := by
    rw [List.find?_range_eq_some]
    exact ⟨here, List.mem_range.mpr inside, fun j less => by simp [below j less]⟩
  rw [bitopsLs64, found, Option.getD_some]

theorem intmapCritbit_prefixAndCritbit (v : IntmapIndex) {n : Nat} (inside : n < 64) :
    intmapCritbit (prefixAndCritbit v n) = n := by
  refine bitopsLs64_eq inside ?_ fun i less => ?_
  · simp [getLsbD_prefixAndCritbit v inside]
  · simp [getLsbD_prefixAndCritbit v inside, less.ne, not_lt_of_gt less]

def AgreeAbove (c : Nat) (x y : BitVec 64) : Prop := ∀ j, c < j → x.getLsbD j = y.getLsbD j

theorem and_prefixMask_iff {c : Nat} {x y : IntmapIndex} :
    x &&& prefixMask c = y &&& prefixMask c ↔ AgreeAbove c x y := by
  constructor
  · intro same j above
    have bits := congrArg (fun w => w.getLsbD j) same
    simp only [BitVec.getLsbD_and, getLsbD_prefixMask, above, true_and] at bits
    by_cases inside : j < 64
    · simpa [inside] using bits
    · rw [BitVec.getLsbD_of_ge _ _ (not_lt.mp inside), BitVec.getLsbD_of_ge _ _ (not_lt.mp inside)]
  · intro agree
    refine BitVec.eq_of_getLsbD_eq fun j inside => ?_
    rw [BitVec.getLsbD_and, BitVec.getLsbD_and, getLsbD_prefixMask]
    by_cases above : c < j
    · rw [agree j above]
    · simp [above]

theorem prefixAndCritbit_congr {c : Nat} {x y : IntmapIndex} (inside : c < 64)
    (agree : AgreeAbove c x y) : prefixAndCritbit x c = prefixAndCritbit y c := by
  refine BitVec.eq_of_getLsbD_eq fun j _ => ?_
  rw [getLsbD_prefixAndCritbit x inside, getLsbD_prefixAndCritbit y inside]
  by_cases above : c < j
  · rw [agree j above]
  · simp [above]

theorem prefixAndCritbit_above {c : Nat} (v : IntmapIndex) (inside : c < 64) :
    AgreeAbove c (prefixAndCritbit v c) v := by
  intro j above
  simp [getLsbD_prefixAndCritbit v inside, above, above.ne']

theorem AgreeAbove.symm {c : Nat} {x y : BitVec 64} (agree : AgreeAbove c x y) :
    AgreeAbove c y x := fun j above => (agree j above).symm

theorem AgreeAbove.trans {c : Nat} {x y z : BitVec 64} (first : AgreeAbove c x y)
    (second : AgreeAbove c y z) : AgreeAbove c x z :=
  fun j above => (first j above).trans (second j above)

theorem AgreeAbove.mono {c d : Nat} {x y : BitVec 64} (agree : AgreeAbove c x y) (le : c ≤ d) :
    AgreeAbove d x y := fun j above => agree j (le.trans_lt above)

/-! ## The words of a tree -/

/-- The position of a node: the critbits go down on the way down. -/
def intmapPosition (word : IntmapIndex) : ℕᵒᵈ := OrderDual.toDual (intmapCritbit word)

def intmapBit (index : IntmapIndex) (position : ℕᵒᵈ) : Bool :=
  index.getLsbD (OrderDual.ofDual position)

theorem agree_toDual {c : Nat} {x y : IntmapIndex} :
    Agree intmapBit (OrderDual.toDual c) x y ↔ AgreeAbove c x y :=
  ⟨fun agree j above => agree (OrderDual.toDual j) above, fun agree _ before => agree _ before⟩

theorem intmap_before_iff_lt {x y : IntmapIndex} : Before intmapBit x y ↔ x < y := by
  constructor
  · rintro ⟨position, parts⟩
    exact lt_of_bits (agree_toDual.mp parts.agree) parts.zero parts.one
  · intro less
    have differ : x ≠ y := fun same => absurd less (same ▸ BitVec.lt_irrefl x)
    obtain ⟨here, above⟩ := bitopsHs64_xor differ
    have agree : Agree intmapBit (OrderDual.toDual (bitopsHs64 (x ^^^ y))) x y :=
      agree_toDual.mpr above
    have parts := agree.forks here
    split_ifs at parts
    · exact absurd (lt_of_bits (agree_toDual.mp parts.agree) parts.zero parts.one)
        (BitVec.not_lt.mpr (BitVec.le_of_lt less))
    · exact ⟨_, parts⟩

/-- Each node has the word that all indices below it have there. -/
def Labelled {V : Type} : Trie IntmapIndex IntmapIndex V → Prop
  | .leaf _ _ => True
  | .node word child0 child1 =>
      Labelled child0 ∧ Labelled child1 ∧
        ∃ n < 64, ∀ e ∈ (Trie.node word child0 child1).entries, prefixAndCritbit e.1 n = word

section Words

variable {V : Type} {word : IntmapIndex} {child0 child1 t : Trie IntmapIndex IntmapIndex V}

theorem Labelled.words (labelled : Labelled (.node word child0 child1)) :
    intmapCritbit word < 64 ∧ ∀ e ∈ (Trie.node word child0 child1).entries,
      prefixAndCritbit e.1 (intmapCritbit word) = word := by
  obtain ⟨-, -, n, inside, words⟩ := labelled
  obtain ⟨e, member⟩ := (Trie.node word child0 child1).exists_mem_entries
  have same : intmapCritbit word = n := by
    rw [← words e member, intmapCritbit_prefixAndCritbit e.1 inside]
  rw [same]
  exact ⟨inside, words⟩

theorem Labelled.above (labelled : Labelled (.node word child0 child1)) {e : IntmapIndex × V}
    (member : e ∈ (Trie.node word child0 child1).entries) :
    AgreeAbove (intmapCritbit word) e.1 word := by
  obtain ⟨inside, words⟩ := labelled.words
  have agree := prefixAndCritbit_above e.1 inside
  rw [words e member] at agree
  exact agree.symm

/-- A new node above all bits at which the indices below it part. -/
theorem splitNode_eq (near nodeindex index : IntmapIndex) {c : Nat} (value : V)
    (labelled : Labelled t) (same : AgreeAbove c nodeindex near)
    (all : ∀ e ∈ t.entries, AgreeAbove c e.1 near) (differ : near.getLsbD c ≠ index.getLsbD c)
    (nodeDiffer : nodeindex.getLsbD c = near.getLsbD c) (above : AgreeAbove c near index) :
    Labelled (splitNode t nodeindex index value) ∧
      (splitNode t nodeindex index value).relabel intmapPosition =
        .fork (OrderDual.toDual c) (intmapBit index (OrderDual.toDual c)) (.leaf index value)
          (t.relabel intmapPosition) := by
  have inside : c < 64 := by
    by_contra outside
    refine differ ?_
    rw [BitVec.getLsbD_of_ge _ _ (not_lt.mp outside), BitVec.getLsbD_of_ge _ _ (not_lt.mp outside)]
  have critbit : bitopsHs64 (nodeindex ^^^ index) = c :=
    bitopsHs64_xor_eq (nodeDiffer ▸ differ) (same.trans above)
  have words : ∀ e ∈ t.entries, prefixAndCritbit e.1 c = prefixAndCritbit index c := fun e member =>
    prefixAndCritbit_congr inside ((all e member).trans above)
  rw [splitNode, critbit]
  constructor
  · cases side : index.getLsbD c with
    | true =>
        refine ⟨labelled, trivial, c, inside, fun e member => ?_⟩
        rcases List.mem_append.mp member with old | new
        · exact words e old
        · rw [Trie.entries_leaf, List.mem_singleton] at new
          rw [new]
    | false =>
        refine ⟨trivial, labelled, c, inside, fun e member => ?_⟩
        rcases List.mem_append.mp member with new | old
        · rw [Trie.entries_leaf, List.mem_singleton] at new
          rw [new]
        · exact words e old
  · rw [Trie.relabel_fork, intmapPosition, intmapCritbit_prefixAndCritbit index inside]
    rfl

theorem closest_eq (t : Trie IntmapIndex IntmapIndex V) (index : IntmapIndex) :
    (t.relabel intmapPosition).closest intmapBit index = t.closest intmapDirection index :=
  Trie.closest_relabel intmapPosition intmapBit index t

theorem intmapAddLoop_there {index : IntmapIndex} {value : V} (labelled : Labelled t)
    (there : index = (t.closest intmapDirection index).1) : intmapAddLoop index value t = none := by
  induction t with
  | leaf i v => exact if_pos there
  | node word child0 child1 ih0 ih1 =>
      have member := (Trie.node word child0 child1).closest_mem intmapDirection index
      have agree := labelled.above member
      rw [← there] at agree
      rw [Trie.closest] at there
      rw [intmapAddLoop, if_neg (not_not.mpr (and_prefixMask_iff.mpr agree))]
      by_cases side : index.getLsbD (intmapCritbit word)
      · have direction : intmapDirection index word = true := side
        rw [if_pos direction] at there
        rw [if_pos side, ih1 labelled.2.1 there, Option.map_none]
      · have direction : ¬ intmapDirection index word = true := side
        rw [if_neg direction] at there
        rw [if_neg side, ih0 labelled.1 there, Option.map_none]

/-- `intmap_add_` puts the node where the graft goes, and gives it its word. -/
theorem intmapAddLoop_eq (labelled : Labelled t) {index : IntmapIndex} (value : V)
    (fresh : index ≠ (t.closest intmapDirection index).1) :
    ∃ t', intmapAddLoop index value t = some t' ∧ Labelled t' ∧
      t'.relabel intmapPosition = (t.relabel intmapPosition).graft intmapBit
        (OrderDual.toDual (bitopsHs64 ((t.closest intmapDirection index).1 ^^^ index)))
        index value := by
  obtain ⟨differ, above⟩ := bitopsHs64_xor fresh.symm
  induction t with
  | leaf i v =>
      rw [Trie.closest] at fresh differ above
      rw [intmapAddLoop, if_neg fresh, Trie.closest]
      have split := splitNode_eq i i index value labelled
        (fun _ _ => rfl) (fun e member => ?_) differ rfl above
      · exact ⟨_, rfl, split⟩
      · rw [Trie.entries_leaf, List.mem_singleton] at member
        rw [member]
        exact fun _ _ => rfl
  | node word child0 child1 ih0 ih1 =>
      have member := (Trie.node word child0 child1).closest_mem intmapDirection index
      have nearWord := labelled.above member
      have nearWords := labelled.words.2 _ member
      generalize closest : ((Trie.node word child0 child1).closest intmapDirection index).1 = near
        at fresh differ above nearWord nearWords ⊢
      rw [Trie.relabel, Trie.graft, intmapAddLoop]
      by_cases apart : AgreeAbove (intmapCritbit word) index word
      · -- The index agrees with the word, so it parts from the closest one further down.
        have below : ¬ OrderDual.toDual (bitopsHs64 (near ^^^ index)) < intmapPosition word :=
          fun higher => differ ((nearWord.trans apart.symm) _ higher)
        have joins : ∀ e, e = (index, value) ∨ e ∈ (Trie.node word child0 child1).entries →
            prefixAndCritbit e.1 (intmapCritbit word) = word := by
          rintro e (rfl | old)
          · rwa [prefixAndCritbit_congr labelled.words.1 (apart.trans nearWord.symm)]
          · exact labelled.words.2 e old
        rw [if_neg below, if_neg (not_not.mpr (and_prefixMask_iff.mpr apart))]
        by_cases side : index.getLsbD (intmapCritbit word)
        · have direction : intmapDirection index word = true := side
          have bit : intmapBit index (intmapPosition word) = true := side
          have way : (child1.closest intmapDirection index).1 = near := by
            rw [← closest, Trie.closest, if_pos direction]
          subst way
          obtain ⟨t', added, labelled', grafted⟩ := ih1 labelled.2.1 fresh differ above
          rw [if_pos side, if_pos bit, added, ← grafted]
          refine ⟨_, rfl, ⟨labelled.1, labelled', _, labelled.words.1, fun e member => joins e ?_⟩,
            rfl⟩
          rw [Trie.entries_node, List.mem_append, ← Trie.entries_relabel intmapPosition t', grafted,
            Trie.mem_entries_graft, Trie.entries_relabel, or_left_comm] at member
          exact member.imp_right List.mem_append.mpr
        · have direction : ¬ intmapDirection index word = true := side
          have bit : ¬ intmapBit index (intmapPosition word) = true := side
          have way : (child0.closest intmapDirection index).1 = near := by
            rw [← closest, Trie.closest, if_neg direction]
          subst way
          obtain ⟨t', added, labelled', grafted⟩ := ih0 labelled.1 fresh differ above
          rw [if_neg side, if_neg bit, added, ← grafted]
          refine ⟨_, rfl, ⟨labelled', labelled.2.1, _, labelled.words.1, fun e member => joins e ?_⟩,
            rfl⟩
          rw [Trie.entries_node, List.mem_append, ← Trie.entries_relabel intmapPosition t', grafted,
            Trie.mem_entries_graft, Trie.entries_relabel, or_assoc] at member
          exact member.imp_right List.mem_append.mpr
      · -- The index parts from the whole tree here.
        have higher : OrderDual.toDual (bitopsHs64 (near ^^^ index)) < intmapPosition word := by
          by_contra lower
          exact apart ((AgreeAbove.mono above (not_lt.mp lower)).symm.trans nearWord)
        have masked : AgreeAbove (intmapCritbit word) (word &&& prefixMask (intmapCritbit word))
            near := by
          refine AgreeAbove.trans (and_prefixMask_iff.mp ?_) nearWord.symm
          rw [BitVec.and_assoc, BitVec.and_self]
        rw [if_pos higher, if_pos fun same => apart (and_prefixMask_iff.mp same)]
        refine ⟨_, rfl, splitNode_eq _ _ index value labelled (masked.mono (le_of_lt higher))
          (fun e member => ?_) differ (masked _ higher) above⟩
        exact ((labelled.above member).trans nearWord.symm).mono (le_of_lt higher)

theorem Labelled.prune {bit : IntmapIndex → IntmapIndex → Bool} {index : IntmapIndex}
    {t' : Trie IntmapIndex IntmapIndex V} (labelled : Labelled t)
    (left : t.prune bit index = some t') : Labelled t' := by
  induction t generalizing t' with
  | leaf => cases left
  | node word child0 child1 ih0 ih1 =>
      obtain ⟨labelled0, labelled1, n, inside, words⟩ := labelled
      rw [Trie.prune] at left
      split_ifs at left <;> cases left
      · cases rest : child1.prune bit index with
        | none => exact labelled0
        | some child1' =>
            refine ⟨labelled0, ih1 labelled1 rest, n, inside, fun e member => words e ?_⟩
            exact (List.mem_append.mp member).elim (List.mem_append_left _) fun right =>
              List.mem_append_right _ (Trie.prune_subset rest right)
      · cases rest : child0.prune bit index with
        | none => exact labelled1
        | some child0' =>
            refine ⟨ih0 labelled0 rest, labelled1, n, inside, fun e member => words e ?_⟩
            exact (List.mem_append.mp member).elim
              (fun left => List.mem_append_left _ (Trie.prune_subset rest left))
              (List.mem_append_right _)

end Words

/-! ## The neighbours of an index -/

theorem or_one_lt {x y : BitVec 64} (less : x ||| 1#64 < y ||| 1#64) : x < y := by
  have odd : ∀ n : Nat, n ||| 1 = 2 * (n / 2) + 1 := by
    intro n
    refine Nat.eq_of_testBit_eq fun j => ?_
    cases j with
    | zero => simp
    | succ j => simp [Nat.testBit_succ, Nat.or_div_two, Nat.mul_add_div]
  rw [BitVec.lt_def, BitVec.toNat_or, BitVec.toNat_or, show (1#64).toNat = 1 from rfl, odd,
    odd] at less
  rw [BitVec.lt_def]
  omega

theorem ushiftRight_lt {x y : BitVec 64} {c : Nat} (less : x >>> c < y >>> c) : x < y := by
  rw [BitVec.lt_def, BitVec.toNat_ushiftRight, BitVec.toNat_ushiftRight, Nat.shiftRight_eq_div_pow,
    Nat.shiftRight_eq_div_pow] at less
  exact Nat.lt_of_div_lt_div less

theorem agreeAbove_of_or_one {x y : BitVec 64} {c : Nat}
    (same : (x >>> c) ||| 1#64 = (y >>> c) ||| 1#64) : AgreeAbove c x y := by
  intro j above
  have bits := congrArg (fun w => w.getLsbD (j - c)) same
  have high : j - c ≠ 0 := by omega
  have back : c + (j - c) = j := by omega
  simpa [BitVec.getLsbD_or, BitVec.getLsbD_ushiftRight, BitVec.getLsbD_one, high, back] using bits

section Neighbours

variable {V : Type} {word index : IntmapIndex} {child0 child1 t : Trie IntmapIndex IntmapIndex V}

/-- The bits of a word from the critbit on are those of the indices below. -/
theorem Labelled.shift (labelled : Labelled (.node word child0 child1)) {e : IntmapIndex × V}
    (member : e ∈ (Trie.node word child0 child1).entries) :
    word >>> intmapCritbit word = (e.1 >>> intmapCritbit word) ||| 1#64 := by
  obtain ⟨inside, words⟩ := labelled.words
  have bits := getLsbD_prefixAndCritbit e.1 inside
  rw [words e member] at bits
  refine BitVec.eq_of_getLsbD_eq fun j _ => ?_
  rw [BitVec.getLsbD_ushiftRight, bits, BitVec.getLsbD_or, BitVec.getLsbD_ushiftRight,
    BitVec.getLsbD_one]
  cases j with
  | zero => simp
  | succ j => simp

/-- A node's word compared with an index compares the whole tree with it, or the index has
    the bits above the critbit. -/
theorem Labelled.compare (labelled : Labelled (.node word child0 child1)) (index : IntmapIndex)
    {e : IntmapIndex × V} (member : e ∈ (Trie.node word child0 child1).entries) :
    ((index >>> intmapCritbit word) ||| 1#64 < word >>> intmapCritbit word → index < e.1) ∧
      (word >>> intmapCritbit word < (index >>> intmapCritbit word) ||| 1#64 → e.1 < index) ∧
      ((index >>> intmapCritbit word) ||| 1#64 = word >>> intmapCritbit word →
        AgreeAbove (intmapCritbit word) index e.1) := by
  rw [labelled.shift member]
  exact ⟨fun less => ushiftRight_lt (or_one_lt less), fun less => ushiftRight_lt (or_one_lt less),
    agreeAbove_of_or_one⟩

/-- The sides of a node about an index that agrees with it above the critbit. -/
theorem sides_of_agree (parted : ((Trie.node word child0 child1).relabel intmapPosition).Parted
      intmapBit)
    (agree : ∀ e ∈ (Trie.node word child0 child1).entries,
      AgreeAbove (intmapCritbit word) index e.1) :
    (index.getLsbD (intmapCritbit word) = true → ∀ e ∈ child0.entries, e.1 < index) ∧
      (index.getLsbD (intmapCritbit word) = false → ∀ e ∈ child1.entries, index < e.1) := by
  obtain ⟨-, -, forks⟩ := parted
  simp only [Trie.entries_relabel] at forks
  obtain ⟨z, hz⟩ := child0.exists_mem_entries
  obtain ⟨o, ho⟩ := child1.exists_mem_entries
  constructor
  · intro side e member
    exact lt_of_bits (agree e (List.mem_append_left _ member)).symm (forks e member o ho).zero side
  · intro side e member
    exact lt_of_bits (agree e (List.mem_append_right _ member)) side (forks z hz e member).one

theorem find?_of_all {α : Type} {p : α → Bool} {l : List α} (all : ∀ e ∈ l, p e) :
    l.find? p = l.head? := by
  rw [← List.head?_filter, List.filter_eq_self.mpr all]

/-- The walk of `intmap_after_` ends at the first entry from an index on. -/
theorem intmapAfterLoop_eq (labelled : Labelled t)
    (parted : (t.relabel intmapPosition).Parted intmapBit) (prev : Intmap V) :
    intmapAfterLoop index t prev =
      (t.entries.find? fun e => index ≤ e.1).or (intmapFirst prev) := by
  induction t generalizing prev with
  | leaf i v =>
      rw [intmapAfterLoop, Trie.entries_leaf]
      split_ifs with here <;> simp [here]
  | node word child0 child1 ih0 ih1 =>
      have compare := fun e member => labelled.compare index (e := e) member
      rw [intmapAfterLoop, BitVec.getLsbD_ushiftRight, Nat.add_zero]
      split_ifs with less greater side
      · have all : ∀ e ∈ (Trie.node word child0 child1).entries, decide (index ≤ e.1) = true :=
          fun e member => decide_eq_true (BitVec.le_of_lt ((compare e member).1 less))
        rw [find?_of_all all, Trie.head?_entries, Option.some_or]
      · have none : ∀ e ∈ (Trie.node word child0 child1).entries, ¬ decide (index ≤ e.1) = true :=
          fun e member there => absurd (of_decide_eq_true there)
            (BitVec.not_le.mpr ((compare e member).2.1 greater))
        rw [List.find?_eq_none.mpr none, Option.none_or]
      all_goals
        have equal := BitVec.le_antisymm (BitVec.not_lt.mp greater) (BitVec.not_lt.mp less)
        have sides := sides_of_agree parted fun e member => (compare e member).2.2 equal
        rw [Trie.entries_node, List.find?_append]
      · have none : ∀ e ∈ child0.entries, ¬ decide (index ≤ e.1) = true := fun e member there =>
          absurd (of_decide_eq_true there) (BitVec.not_le.mpr (sides.1 side e member))
        rw [ih1 labelled.2.1 parted.2.1, List.find?_eq_none.mpr none, Option.none_or]
      · have all : ∀ e ∈ child1.entries, decide (index ≤ e.1) = true := fun e member =>
          decide_eq_true (BitVec.le_of_lt (sides.2 (Bool.eq_false_iff.mpr side) e member))
        rw [ih0 labelled.1 parted.1, find?_of_all all, Trie.head?_entries, Option.or_assoc]
        rfl

theorem intmapBeforeLoop_eq (labelled : Labelled t)
    (parted : (t.relabel intmapPosition).Parted intmapBit) (prev : Intmap V) :
    intmapBeforeLoop index t prev =
      (t.entries.reverse.find? fun e => e.1 ≤ index).or (intmapLast prev) := by
  induction t generalizing prev with
  | leaf i v =>
      rw [intmapBeforeLoop, Trie.entries_leaf]
      split_ifs with here <;> simp [here]
  | node word child0 child1 ih0 ih1 =>
      have compare := fun e member => labelled.compare index (e := e) member
      rw [intmapBeforeLoop, BitVec.getLsbD_ushiftRight, Nat.add_zero]
      split_ifs with greater less side
      · have all : ∀ e ∈ (Trie.node word child0 child1).entries.reverse,
            decide (e.1 ≤ index) = true := fun e member =>
          decide_eq_true (BitVec.le_of_lt ((compare e (List.mem_reverse.mp member)).2.1 greater))
        rw [find?_of_all all, List.head?_reverse, Trie.getLast?_entries, Option.some_or]
      · have none : ∀ e ∈ (Trie.node word child0 child1).entries.reverse,
            ¬ decide (e.1 ≤ index) = true := fun e member there =>
          absurd (of_decide_eq_true there)
            (BitVec.not_le.mpr ((compare e (List.mem_reverse.mp member)).1 less))
        rw [List.find?_eq_none.mpr none, Option.none_or]
      all_goals
        have equal := BitVec.le_antisymm (BitVec.not_lt.mp greater) (BitVec.not_lt.mp less)
        have sides := sides_of_agree parted fun e member => (compare e member).2.2 equal
        rw [Trie.entries_node, List.reverse_append, List.find?_append]
      · have all : ∀ e ∈ child0.entries.reverse, decide (e.1 ≤ index) = true := fun e member =>
          decide_eq_true (BitVec.le_of_lt (sides.1 side e (List.mem_reverse.mp member)))
        rw [ih1 labelled.2.1 parted.2.1, find?_of_all all, List.head?_reverse,
          Trie.getLast?_entries, Option.or_assoc]
        rfl
      · have none : ∀ e ∈ child1.entries.reverse, ¬ decide (e.1 ≤ index) = true :=
          fun e member there => absurd (of_decide_eq_true there)
            (BitVec.not_le.mpr
              (sides.2 (Bool.eq_false_iff.mpr side) e (List.mem_reverse.mp member)))
        rw [ih0 labelled.1 parted.1, List.find?_eq_none.mpr none, Option.none_or]

end Neighbours

/-! ## What the calls do to the entries -/

/-- An integer map keeps entries: as a tree, and in its words. -/
structure IntmapKeeps {V : Type} (map : Intmap V) (f : IntmapIndex → Option V) : Prop where
  labelled : ∀ t, map = some t → Labelled t
  tree : Critbit.Keeps intmapBit (map.map (Trie.relabel intmapPosition)) f

section Calls

variable {V : Type} {map : Intmap V} {f : IntmapIndex → Option V}

theorem intmapKeeps_none : IntmapKeeps (none : Intmap V) fun _ => none :=
  ⟨fun _ equal => (nomatch equal), Critbit.keeps_none⟩

theorem IntmapKeeps.congr {g : IntmapIndex → Option V} (keeps : IntmapKeeps map f)
    (same : ∀ i, f i = g i) : IntmapKeeps map g := ⟨keeps.labelled, keeps.tree.congr same⟩

theorem IntmapKeeps.parted {t : Trie IntmapIndex IntmapIndex V} (keeps : IntmapKeeps (some t) f) :
    (t.relabel intmapPosition).Parted intmapBit := keeps.tree.parted _ rfl

theorem entriesOf_relabel (map : Intmap V) :
    entriesOf (map.map (Trie.relabel intmapPosition)) = entriesOf map := by
  cases map with
  | none => rfl
  | some t => exact t.entries_relabel intmapPosition

theorem IntmapKeeps.entries_eq (keeps : IntmapKeeps map f) {l : List (IntmapIndex × V)}
    (ordered : l.Pairwise fun a b => a.1 < b.1) (same : ∀ i v, (i, v) ∈ l ↔ f i = some v) :
    entriesOf map = l := by
  rw [← entriesOf_relabel]
  exact keeps.tree.entries_eq (ordered.imp fun less => intmap_before_iff_lt.mpr less) same

theorem intmapGet_eq (keeps : IntmapKeeps map f) (index : IntmapIndex) :
    intmapGet map index = f index := by
  rw [← keeps.tree.find index]
  cases map with
  | none => rfl
  | some n => rw [Option.map_some, find, Option.bind_some, closest_eq]; rfl

theorem intmapEmpty_eq (map : Intmap V) : intmapEmpty map = (entriesOf map).isEmpty := by
  cases map with
  | none => rfl
  | some tree => exact (List.isEmpty_eq_false_iff.mpr tree.entries_ne_nil).symm

theorem intmapFirst_eq (map : Intmap V) : intmapFirst map = (entriesOf map).head? := by
  cases map with
  | none => rfl
  | some t => exact t.head?_entries.symm

theorem intmapLast_eq (map : Intmap V) : intmapLast map = (entriesOf map).getLast? := by
  cases map with
  | none => rfl
  | some t => exact t.getLast?_entries.symm

theorem intmapAdd_keeps (keeps : IntmapKeeps map f) (index : IntmapIndex) (value : V) :
    (intmapAdd map index value).1 = (f index).isNone ∧
      IntmapKeeps (intmapAdd map index value).2
        (Function.update f index (some ((f index).getD value))) := by
  have get := intmapGet_eq keeps index
  cases map with
  | none =>
      have fresh : f index = none := get.symm
      rw [fresh]
      refine ⟨rfl, fun t equal => ?_, keeps.tree.leaf index value⟩
      cases equal
      trivial
  | some n =>
      have labelled := keeps.labelled n rfl
      rw [intmapGet] at get
      rw [intmapAdd]
      by_cases there : index = (n.closest intmapDirection index).1
      · rw [if_pos there] at get
        rw [intmapAddLoop_there labelled there, ← get, Option.getD_some, get,
          Function.update_eq_self]
        exact ⟨by rw [← get]; rfl, keeps⟩
      · obtain ⟨t', added, labelled', grafted⟩ := intmapAddLoop_eq labelled value there
        obtain ⟨differ, above⟩ := bitopsHs64_xor (Ne.symm there)
        rw [if_neg there] at get
        rw [added, ← get]
        refine ⟨rfl, fun t equal => ?_, ?_⟩
        · cases equal
          exact labelled'
        · have graft := keeps.tree.graft
            (OrderDual.toDual (bitopsHs64 ((n.closest intmapDirection index).1 ^^^ index)))
            index value ?_ ?_
          · rwa [← grafted] at graft
          · rw [closest_eq]
            exact agree_toDual.mpr (AgreeAbove.symm above)
          · rw [closest_eq]
            exact differ.symm

theorem intmapDel_keeps (keeps : IntmapKeeps map f) (index : IntmapIndex) :
    (intmapDel map index).1 = f index ∧
      IntmapKeeps (intmapDel map index).2 (Function.update f index none) := by
  have get := intmapGet_eq keeps index
  cases map with
  | none =>
      have absent : f index = none := get.symm
      rw [← absent, Function.update_eq_self, absent]
      exact ⟨rfl, keeps⟩
  | some tree =>
      rw [intmapGet] at get
      rw [intmapDel]
      split_ifs at get ⊢ with same
      · refine ⟨get, fun t left => (keeps.labelled tree rfl).prune left, ?_⟩
        have pruned := keeps.tree.prune index (by rw [closest_eq]; exact same.symm)
        rwa [Trie.prune_relabel] at pruned
      · rw [get, Function.update_eq_self]
        exact ⟨rfl, keeps⟩

/-- The entry after an index, none after the greatest index of all. -/
theorem intmapAfter_eq (keeps : IntmapKeeps map f) (index : IntmapIndex) :
    intmapAfter map index = (entriesOf map).find? fun e => index < e.1 := by
  unfold intmapAfter
  dsimp only
  split_ifs with wraps
  · refine (List.find?_eq_none.mpr fun e _ above => ?_).symm
    have above := of_decide_eq_true above
    bv_omega
  · have next : ∀ x : IntmapIndex, index + 1#64 ≤ x ↔ index < x := fun x => by bv_omega
    cases map with
    | none => rfl
    | some t =>
        dsimp only
        rw [intmapAfterLoop_eq (keeps.labelled t rfl) keeps.parted, entriesOf_some]
        simp only [next, intmapFirst, Option.map_none, Option.or_none]

theorem intmapBefore_eq (keeps : IntmapKeeps map f) (index : IntmapIndex) :
    intmapBefore map index = (entriesOf map).reverse.find? fun e => e.1 < index := by
  unfold intmapBefore
  dsimp only
  split_ifs with wraps
  · refine (List.find?_eq_none.mpr fun e _ below => ?_).symm
    have below := of_decide_eq_true below
    bv_omega
  · have next : ∀ x : IntmapIndex, x ≤ index - 1#64 ↔ x < index := fun x => by bv_omega
    cases map with
    | none => rfl
    | some t =>
        dsimp only
        rw [intmapBeforeLoop_eq (keeps.labelled t rfl) keeps.parted, entriesOf_some]
        simp only [next, intmapLast, Option.map_none, Option.or_none]

end Calls

/-! ## The finite map it keeps -/

/-- How a kind of map codes its indices: the type they are cast to and `SINTMAP_OFFSET`. -/
structure IntmapCode (κ : Type) [Ord κ] where
  toBits : κ → IntmapIndex
  ofBits : IntmapIndex → κ
  offset : IntmapIndex
  ofBits_toBits : ∀ i, ofBits (toBits i) = i
  toBits_ofBits : ∀ b, toBits (ofBits b) = b
  lt_iff : ∀ i j, compare i j = .lt ↔ toBits i + offset < toBits j + offset

namespace IntmapCode

variable {κ : Type} [Ord κ] (code : IntmapCode κ)

/-- `SINTMAP_OFF`; nothing is added for a `UINTMAP`. -/
def off (i : κ) : IntmapIndex := code.toBits i + code.offset

/-- `SINTMAP_UNOFF`. -/
def unoff (i : IntmapIndex) : κ := code.ofBits (i - code.offset)

@[simp] theorem unoff_off (i : κ) : code.unoff (code.off i) = i := by
  rw [unoff, off, BitVec.add_sub_cancel, code.ofBits_toBits]

@[simp] theorem off_unoff (i : IntmapIndex) : code.off (code.unoff i) = i := by
  rw [unoff, off, code.toBits_ofBits, BitVec.sub_add_cancel]

theorem off_lt_off {i j : κ} : code.off i < code.off j ↔ compare i j = .lt := (code.lt_iff i j).symm

end IntmapCode

/-- `UINTMAP`. -/
def uintmapCode : IntmapCode UInt64 where
  toBits := UInt64.toBitVec
  ofBits := UInt64.ofBitVec
  offset := 0#64
  ofBits_toBits _ := rfl
  toBits_ofBits _ := rfl
  lt_iff i j := by
    rw [BitVec.add_zero, BitVec.add_zero, ← UInt64.lt_iff_toBitVec_lt]
    exact Std.compare_eq_lt

/-- The offset takes the order of signed numbers to that of unsigned ones. -/
theorem add_offset_lt_iff (x y : BitVec 64) :
    x + 1#64 <<< 63 < y + 1#64 <<< 63 ↔ x.toInt < y.toInt := by
  have offset : (1#64 <<< 63).toNat = 2 ^ 63 := rfl
  have first := x.isLt
  have second := y.isLt
  rw [BitVec.lt_def, BitVec.toNat_add, BitVec.toNat_add, offset, BitVec.toInt_eq_toNat_cond,
    BitVec.toInt_eq_toNat_cond]
  split_ifs <;> omega

/-- `SINTMAP`. -/
def sintmapCode : IntmapCode Int64 where
  toBits := Int64.toBitVec
  ofBits := Int64.ofBitVec
  offset := 1#64 <<< 63
  ofBits_toBits _ := rfl
  toBits_ofBits _ := rfl
  lt_iff i j := by
    rw [add_offset_lt_iff]
    exact Std.compare_eq_lt.trans Int64.lt_iff_toInt_lt

/-- An integer map keeps a finite map under the codes of its indices. -/
abbrev Intmap.Keeps {κ V : Type} [Ord κ] [Std.TransOrd κ] [Std.LawfulEqOrd κ]
    (code : IntmapCode κ) (map : Intmap V) (m : Std.ExtTreeMap κ V) : Prop :=
  IntmapKeeps map fun i => m[code.unoff i]?

namespace Intmap

variable {κ V : Type} [Ord κ] [Std.TransOrd κ] [Std.LawfulEqOrd κ] {code : IntmapCode κ}
  {map : Intmap V} {m : Std.ExtTreeMap κ V}

theorem keeps_empty : Keeps code (none : Intmap V) ∅ := by
  simpa [Intmap.Keeps] using intmapKeeps_none (V := V)

theorem Keeps.toList_eq (keeps : Keeps code map m) :
    entriesOf map = m.toList.map fun e => (code.off e.1, e.2) := by
  have ordered : (m.toList.map fun e => (code.off e.1, e.2)).Pairwise fun a b => a.1 < b.1 := by
    rw [List.pairwise_map]
    exact Std.ExtTreeMap.ordered_keys_toList.imp fun less => code.off_lt_off.mpr less
  refine IntmapKeeps.entries_eq keeps ordered fun i v => ?_
  rw [List.mem_map]
  constructor
  · rintro ⟨e, member, equal⟩
    cases equal
    rw [code.unoff_off]
    exact Std.ExtTreeMap.mem_toList_iff_getElem?_eq_some.mp member
  · intro found
    exact ⟨(code.unoff i, v), Std.ExtTreeMap.mem_toList_iff_getElem?_eq_some.mpr found, by simp⟩

theorem Keeps.get (keeps : Keeps code map m) (i : κ) : intmapGet map (code.off i) = m[i]? := by
  rw [intmapGet_eq keeps, code.unoff_off]

section Updates

variable [DecidableEq κ]

omit [Std.TransOrd κ] [Std.LawfulEqOrd κ] in
theorem update_unoff (f : κ → Option V) (key : κ) (value : Option V) (i : IntmapIndex) :
    Function.update (fun i => f (code.unoff i)) (code.off key) value i =
      Function.update f key value (code.unoff i) := by
  by_cases same : i = code.off key
  · simp [same]
  · have other : code.unoff i ≠ key := fun equal => same (by rw [← equal, code.off_unoff])
    simp [same, other]

theorem Keeps.add (keeps : Keeps code map m) (i : κ) (value : V) :
    (intmapAdd map (code.off i) value).1 = !m.contains i ∧
      Keeps code (intmapAdd map (code.off i) value).2 (m.insertIfNew i value) := by
  obtain ⟨flag, next⟩ := intmapAdd_keeps keeps (code.off i) value
  rw [flag, Std.ExtTreeMap.contains_eq_isSome_getElem?, Option.not_isSome, code.unoff_off]
  rw [code.unoff_off] at next
  exact ⟨rfl, next.congr fun k => (update_unoff (fun i => m[i]?) i _ k).trans
    (update_insertIfNew m i value (code.unoff k))⟩

theorem Keeps.del (keeps : Keeps code map m) (i : κ) :
    (intmapDel map (code.off i)).1 = m[i]? ∧ Keeps code (intmapDel map (code.off i)).2 (m.erase i) := by
  obtain ⟨value, next⟩ := intmapDel_keeps keeps (code.off i)
  rw [code.unoff_off] at value
  exact ⟨value, next.congr fun k => (update_unoff (fun i => m[i]?) i none k).trans
    (update_erase m i (code.unoff k))⟩

end Updates

/-! ## Neighbours and visits -/

/-- An index and its value as the caller of a coded map sees them. -/
def uncode (code : IntmapCode κ) (found : Option (IntmapIndex × V)) : Option (κ × V) :=
  found.map fun e => (code.unoff e.1, e.2)

omit [Std.TransOrd κ] [Std.LawfulEqOrd κ] in
theorem uncode_map (found : Option (κ × V)) :
    uncode code (found.map fun e => (code.off e.1, e.2)) = found := by
  cases found <;> simp [uncode]

theorem Keeps.empty (keeps : Keeps code map m) : intmapEmpty map = m.isEmpty := by
  rw [intmapEmpty_eq, keeps.toList_eq, List.isEmpty_map, Std.ExtTreeMap.isEmpty_toList]

theorem Keeps.first (keeps : Keeps code map m) :
    uncode code (intmapFirst map) = m.toList.head? := by
  rw [intmapFirst_eq, keeps.toList_eq, List.head?_map, uncode_map]

theorem Keeps.last (keeps : Keeps code map m) :
    uncode code (intmapLast map) = m.toList.getLast? := by
  rw [intmapLast_eq, keeps.toList_eq, List.getLast?_map, uncode_map]

theorem Keeps.after (keeps : Keeps code map m) (i : κ) :
    uncode code (intmapAfter map (code.off i)) = m.toList.find? fun e => compare i e.1 = .lt := by
  rw [intmapAfter_eq keeps, keeps.toList_eq, List.find?_map]
  simp only [Function.comp_def, code.off_lt_off, uncode_map]

theorem Keeps.before (keeps : Keeps code map m) (i : κ) :
    uncode code (intmapBefore map (code.off i)) =
      m.toList.reverse.find? fun e => compare e.1 i = .lt := by
  rw [intmapBefore_eq keeps, keeps.toList_eq, ← List.map_reverse, List.find?_map]
  simp only [Function.comp_def, code.off_lt_off, uncode_map]

omit [Std.TransOrd κ] [Std.LawfulEqOrd κ] in
theorem visit_map (code : IntmapCode κ) {σ : Type} (handle : κ → V → σ → Bool × σ) (l : List (κ × V)) (s : σ) :
    visit (fun i v s => handle (code.ofBits (i - code.offset)) v s)
      (l.map fun e => (code.off e.1, e.2)) s = visit handle l s := by
  induction l generalizing s with
  | nil => rfl
  | cons e l ih =>
      rw [List.map_cons, visit, visit]
      dsimp only
      rw [← IntmapCode.unoff, code.unoff_off]
      cases handle e.1 e.2 s with
      | mk more s => cases more <;> simp [ih]

theorem Keeps.iterate {σ : Type} (keeps : Keeps code map m) (handle : κ → V → σ → Bool × σ) (s : σ) :
    intmapIterate map (fun i v s => handle (code.ofBits i) v s) code.offset s =
      visit handle m.toList s := by
  rw [← visit_map code, ← keeps.toList_eq]
  cases map with
  | none => rfl
  | some n => rw [intmapIterate, Trie.walk_eq_visit, entriesOf_some]

/-! ## Any calls in any order -/

/-- A call on an integer map.  A handler decides by what it has been handed so far. -/
inductive Call (κ V : Type) where
  | get (i : κ)
  | add (i : κ) (value : V)
  | del (i : κ)
  | clear
  | empty
  | first
  | last
  | after (i : κ)
  | before (i : κ)
  | iterate (handle : List (κ × V) → κ → V → Bool)

inductive Answer (κ V : Type) where
  | value (found : Option V)
  | flag (yes : Bool)
  | entry (found : Option (κ × V))
  | entries (all : Bool) (handed : List (κ × V))
  | nothing

/-- A handler that also writes down what it is handed. -/
def noting (handle : List (κ × V) → κ → V → Bool) (i : κ) (value : V) (handed : List (κ × V)) :
    Bool × List (κ × V) :=
  (handle handed i value, handed ++ [(i, value)])

/-- A call on the tree, through the macros of a `UINTMAP` or of a `SINTMAP`. -/
def call (code : IntmapCode κ) (map : Intmap V) : Call κ V → Answer κ V × Intmap V
  | .get i => (.value (intmapGet map (code.off i)), map)
  | .add i value => (intmapAdd map (code.off i) value).map .flag id
  | .del i => (intmapDel map (code.off i)).map .value id
  | .clear => (.nothing, intmapClear map)
  | .empty => (.flag (intmapEmpty map), map)
  | .first => (.entry (uncode code (intmapFirst map)), map)
  | .last => (.entry (uncode code (intmapLast map)), map)
  | .after i => (.entry (uncode code (intmapAfter map (code.off i))), map)
  | .before i => (.entry (uncode code (intmapBefore map (code.off i))), map)
  | .iterate handle =>
      let (all, handed) :=
        intmapIterate map (fun i v s => noting handle (code.ofBits i) v s) code.offset []
      (.entries all handed, map)

/-- The same call on a finite map in the order of the indices. -/
def tableCall (m : Std.ExtTreeMap κ V) : Call κ V → Answer κ V × Std.ExtTreeMap κ V
  | .get i => (.value m[i]?, m)
  | .add i value => (.flag !m.contains i, m.insertIfNew i value)
  | .del i => (.value m[i]?, m.erase i)
  | .clear => (.nothing, ∅)
  | .empty => (.flag m.isEmpty, m)
  | .first => (.entry m.toList.head?, m)
  | .last => (.entry m.toList.getLast?, m)
  | .after i => (.entry (m.toList.find? fun e => compare i e.1 = .lt), m)
  | .before i => (.entry (m.toList.reverse.find? fun e => compare e.1 i = .lt), m)
  | .iterate handle =>
      let (all, handed) := visit (noting handle) m.toList []
      (.entries all handed, m)

theorem Keeps.call [DecidableEq κ] (keeps : Keeps code map m) (c : Call κ V) :
    (call code map c).1 = (tableCall m c).1 ∧ Keeps code (call code map c).2 (tableCall m c).2 := by
  cases c with
  | get i => exact ⟨congrArg Answer.value (keeps.get i), keeps⟩
  | add i value =>
      obtain ⟨flag, next⟩ := keeps.add i value
      exact ⟨congrArg Answer.flag flag, next⟩
  | del i =>
      obtain ⟨value, next⟩ := keeps.del i
      exact ⟨congrArg Answer.value value, next⟩
  | clear => exact ⟨rfl, keeps_empty⟩
  | empty => exact ⟨congrArg Answer.flag keeps.empty, keeps⟩
  | first => exact ⟨congrArg Answer.entry keeps.first, keeps⟩
  | last => exact ⟨congrArg Answer.entry keeps.last, keeps⟩
  | after i => exact ⟨congrArg Answer.entry (keeps.after i), keeps⟩
  | before i => exact ⟨congrArg Answer.entry (keeps.before i), keeps⟩
  | iterate handle =>
      refine ⟨?_, keeps⟩
      simp only [Intmap.call, tableCall, keeps.iterate]

end Intmap

/-- From an empty map on, any calls answer as on a finite map, and the entries stand in the
    order of the indices, signed or not. -/
theorem intmap_calls_as_table {V : Type} :
    (∀ cs : List (Intmap.Call UInt64 V),
      (Runs.calls (Intmap.call uintmapCode) none cs).1 = (Runs.calls Intmap.tableCall ∅ cs).1 ∧
        entriesOf (Runs.calls (Intmap.call uintmapCode) none cs).2 =
          (Runs.calls Intmap.tableCall ∅ cs).2.toList.map fun e => (uintmapCode.off e.1, e.2)) ∧
      ∀ cs : List (Intmap.Call Int64 V),
        (Runs.calls (Intmap.call sintmapCode) none cs).1 = (Runs.calls Intmap.tableCall ∅ cs).1 ∧
          entriesOf (Runs.calls (Intmap.call sintmapCode) none cs).2 =
            (Runs.calls Intmap.tableCall ∅ cs).2.toList.map fun e => (sintmapCode.off e.1, e.2) := by
  constructor
  · intro cs
    obtain ⟨answers, last⟩ := Runs.calls_alike (R := Intmap.Keeps uintmapCode)
      (fun _ _ c keeps => keeps.call c) Intmap.keeps_empty cs
    exact ⟨answers, last.toList_eq⟩
  · intro cs
    obtain ⟨answers, last⟩ := Runs.calls_alike (R := Intmap.Keeps sintmapCode)
      (fun _ _ c keeps => keeps.call c) Intmap.keeps_empty cs
    exact ⟨answers, last.toList_eq⟩

end Payz
