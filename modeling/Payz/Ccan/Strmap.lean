import Mathlib.Data.Prod.Lex
import Mathlib.Data.Nat.Bitwise
import Payz.Lib.Critbit
import Payz.Lib.Runs

/-! # The string map

`ccan/strmap/strmap.c`.  A map is a crit-bit tree over the bytes of C strings; `none` is
the map whose pointer is `NULL`.  An allocation never fails here.
-/

namespace Payz

open Critbit

/-- A C string: the bytes before its terminator. -/
structure CStr where
  bytes : List UInt8
  noNul : 0 ∉ bytes
  deriving DecidableEq, Repr

/-- Reading at an index no greater than the length. -/
def CStr.byte (s : CStr) (i : Nat) : UInt8 := s.bytes[i]?.getD 0

/-- What a `struct node` has beside its children. -/
structure StrmapNode where
  byteNum : Nat
  bitNum : Nat
  deriving DecidableEq, Repr

/-- Nodes by byte; bit numbers are backwards for comparison. -/
instance : LinearOrder StrmapNode :=
  LinearOrder.lift' (fun n => toLex (n.byteNum, OrderDual.toDual n.bitNum)) fun n m same => by
    cases n
    cases m
    simpa using same

theorem StrmapNode.lt_iff {n m : StrmapNode} :
    n < m ↔ n.byteNum < m.byteNum ∨ n.byteNum = m.byteNum ∧ m.bitNum < n.bitNum :=
  Prod.Lex.toLex_lt_toLex

abbrev Strmap (V : Type) : Type := Option (Trie StrmapNode CStr V)

/-- The direction taken at a node: to the zero side past the end of the string. -/
def strmapDirection (member : CStr) (n : StrmapNode) : Bool :=
  if n.byteNum < member.bytes.length then (member.byte n.byteNum).toNat.testBit n.bitNum
  else false

/-- `closest`. -/
def strmapClosest {V : Type} (n : Trie StrmapNode CStr V) (member : CStr) : CStr × V :=
  n.closest strmapDirection member

/-- `strmap_get_`: `none` for `NULL`. -/
def strmapGet {V : Type} (map : Strmap V) (member : CStr) : Option V :=
  match map with
  | none => none
  | some n =>
      let n := strmapClosest n member
      if member = n.1 then some n.2 else none

/-- The first loop of `strmap_add_`: where two strings differ, if they do. -/
def strmapByteNum : List UInt8 → List UInt8 → Option Nat
  | [], [] => none
  | a :: s, b :: member => if a = b then (strmapByteNum s member).map (· + 1) else some 0
  | _, _ => some 0

def ilog32Nz (v : Nat) : Nat := v.log2 + 1

/-- `strmap_add_`: nothing is added where the member is there (`EEXIST`).  The second
    loop stops at the first node past the new one. -/
def strmapAdd {V : Type} (map : Strmap V) (member : CStr) (value : V) : Bool × Strmap V :=
  match map with
  | none => (true, some (.leaf member value))
  | some tree =>
      let n := strmapClosest tree member
      match strmapByteNum n.1.bytes member.bytes with
      | none => (false, map)
      | some byteNum =>
          let bitNum := ilog32Nz (n.1.byte byteNum ^^^ member.byte byteNum).toNat - 1
          (true, some (tree.graft strmapDirection ⟨byteNum, bitNum⟩ member value))

/-- `strmap_del_`: the stored string and the value, `none` for `NULL`.  The sibling of the
    leaf is raised to their parent. -/
def strmapDel {V : Type} (map : Strmap V) (member : CStr) : Option (CStr × V) × Strmap V :=
  match map with
  | none => (none, map)
  | some tree =>
      let n := strmapClosest tree member
      if member = n.1 then (some n, tree.prune strmapDirection member) else (none, map)

/-- `strmap_iterate_`, for a handler that changes a state. -/
def strmapIterate {V σ : Type} (map : Strmap V) (handle : CStr → V → σ → Bool × σ) (s : σ) : σ :=
  match map with
  | none => s
  | some n => (n.walk handle s).2

/-- The loop of `strmap_prefix_`: the top, and the entry at the end of the walk. -/
def strmapPrefixLoop {V : Type} (bytes : CStr) :
    Trie StrmapNode CStr V → Trie StrmapNode CStr V → Trie StrmapNode CStr V × CStr
  | top, .leaf s _ => (top, s)
  | top, .node n child0 child1 =>
      let c := if n.byteNum < bytes.bytes.length then bytes.byte n.byteNum else 0
      if c.toNat.testBit n.bitNum then
        strmapPrefixLoop bytes (if c ≠ 0 then child1 else top) child1
      else strmapPrefixLoop bytes (if c ≠ 0 then child0 else top) child0

def strmapPrefix {V : Type} (map : Strmap V) (bytes : CStr) : Strmap V :=
  match map with
  | none => none
  | some n =>
      let (top, s) := strmapPrefixLoop bytes n n
      if bytes.bytes <+: s.bytes then some top else none

def strmapClear {V : Type} (_ : Strmap V) : Strmap V := none

def strmapEmpty {V : Type} (map : Strmap V) : Bool := map.isNone

/-! ## The order of strings -/

theorem CStr.byte_past {s : CStr} {i : Nat} (past : s.bytes.length ≤ i) : s.byte i = 0 := by
  simp [CStr.byte, List.getElem?_eq_none past]

theorem strmapDirection_eq (member : CStr) (n : StrmapNode) :
    strmapDirection member n = (member.byte n.byteNum).toNat.testBit n.bitNum := by
  rw [strmapDirection]
  split_ifs with inside
  · rfl
  · rw [CStr.byte_past (not_lt.mp inside)]
    simp

theorem strmapByteNum_eq_none {s member : List UInt8} :
    strmapByteNum s member = none ↔ s = member := by
  induction s generalizing member with
  | nil => cases member <;> simp [strmapByteNum]
  | cons a s ih =>
      cases member with
      | nil => simp [strmapByteNum]
      | cons b member =>
          rw [strmapByteNum]
          split_ifs with same <;> simp [same, ih]

theorem strmapByteNum_eq_some {s member : List UInt8} (nulS : 0 ∉ s) (nulM : 0 ∉ member)
    {byteNum : Nat} (differ : strmapByteNum s member = some byteNum) :
    (∀ j < byteNum, s[j]?.getD 0 = member[j]?.getD 0) ∧
      s[byteNum]?.getD 0 ≠ member[byteNum]?.getD 0 := by
  induction s generalizing member byteNum with
  | nil =>
      cases member with
      | nil => cases differ
      | cons b member =>
          cases differ
          simp only [List.mem_cons, not_or] at nulM
          simpa using nulM.1
  | cons a s ih =>
      simp only [List.mem_cons, not_or] at nulS
      cases member with
      | nil =>
          cases differ
          simpa [eq_comm] using nulS.1
      | cons b member =>
          simp only [List.mem_cons, not_or] at nulM
          rw [strmapByteNum] at differ
          split_ifs at differ with same
          · obtain ⟨later, found, rfl⟩ := Option.map_eq_some_iff.mp differ
            obtain ⟨agree, parts⟩ := ih nulS.2 nulM.2 found
            refine ⟨fun j before => ?_, by simpa using parts⟩
            cases j with
            | zero => simp [same]
            | succ j => simpa using agree j (by omega)
          · cases differ
            simpa using same

/-- Strings that agree before a byte and are smaller and greater at it are ordered so. -/
theorem lt_of_bytes {s t : List UInt8} (nulS : 0 ∉ s) (nulT : 0 ∉ t) {b : Nat}
    (agree : ∀ j < b, s[j]?.getD 0 = t[j]?.getD 0) (less : s[b]?.getD 0 < t[b]?.getD 0) :
    s < t := by
  induction b generalizing s t with
  | zero =>
      cases t with
      | nil => simp at less
      | cons y t =>
          cases s with
          | nil => exact List.nil_lt_cons y t
          | cons x s => exact List.cons_lt_cons_iff.mpr (.inl (by simpa using less))
  | succ b ih =>
      have head := agree 0 (by omega)
      have tail : ∀ j < b, s.tail[j]?.getD 0 = t.tail[j]?.getD 0 := fun j before => by
        simpa using agree (j + 1) (by omega)
      cases s with
      | nil =>
          cases t with
          | nil => simp at less
          | cons y t =>
              simp only [List.mem_cons, not_or] at nulT
              exact absurd (by simpa using head) nulT.1
      | cons x s =>
          simp only [List.mem_cons, not_or] at nulS
          cases t with
          | nil => exact absurd (by simpa [eq_comm] using head) nulS.1
          | cons y t =>
              simp only [List.mem_cons, not_or] at nulT
              have rest := ih nulS.2 nulT.2 (by simpa using tail) (by simpa using less)
              exact List.cons_lt_cons_iff.mpr (.inr ⟨by simpa using head, rest⟩)

/-- Strings that agree at all nodes before one have the same bytes before its byte. -/
theorem byte_eq_of_agree {s t : CStr} {n : StrmapNode} (agree : Agree strmapDirection n s t)
    {j : Nat} (before : j < n.byteNum) : s.byte j = t.byte j := by
  refine UInt8.toNat_inj.mp (Nat.eq_of_testBit_eq fun i => ?_)
  have same := agree ⟨j, i⟩ (StrmapNode.lt_iff.mpr (.inl before))
  simpa only [strmapDirection_eq] using same

theorem lt_of_before {s t : CStr} (before : Before strmapDirection s t) : s.bytes < t.bytes := by
  obtain ⟨n, parts⟩ := before
  refine lt_of_bytes s.noNul t.noNul (fun j earlier => byte_eq_of_agree parts.agree earlier) ?_
  rw [← CStr.byte, ← CStr.byte, UInt8.lt_iff_toNat_lt]
  refine Nat.lt_of_testBit n.bitNum ?_ ?_ fun i above => ?_
  · simpa only [strmapDirection_eq] using parts.zero
  · simpa only [strmapDirection_eq] using parts.one
  · have same := parts.agree ⟨n.byteNum, i⟩ (StrmapNode.lt_iff.mpr (.inr ⟨rfl, above⟩))
    simpa only [strmapDirection_eq] using same

/-- The node that `strmap_add_` makes stands where the two strings part. -/
theorem strmapByteNum_parts {s member : CStr} {byteNum : Nat}
    (differ : strmapByteNum s.bytes member.bytes = some byteNum) :
    let newn : StrmapNode :=
      ⟨byteNum, ilog32Nz (s.byte byteNum ^^^ member.byte byteNum).toNat - 1⟩
    Agree strmapDirection newn member s ∧
      strmapDirection member newn ≠ strmapDirection s newn := by
  intro newn
  obtain ⟨agree, parts⟩ := strmapByteNum_eq_some s.noNul member.noNul differ
  have apart : (s.byte byteNum).toNat ≠ (member.byte byteNum).toNat :=
    fun same => parts (UInt8.toNat_inj.mp same)
  obtain ⟨here, above⟩ := testBit_log2_xor apart
  rw [← UInt8.toNat_xor] at here above
  constructor
  · intro q before
    rw [strmapDirection_eq, strmapDirection_eq]
    rcases StrmapNode.lt_iff.mp before with earlier | ⟨same, higher⟩
    · rw [show member.byte q.byteNum = s.byte q.byteNum from (agree q.byteNum earlier).symm]
    · rw [same]
      exact (above q.bitNum higher).symm
  · rw [strmapDirection_eq, strmapDirection_eq]
    exact here.symm

theorem strmapAdd_bitNum_lt (x y : UInt8) : ilog32Nz (x ^^^ y).toNat - 1 < 8 := by
  rw [ilog32Nz, Nat.add_sub_cancel]
  by_cases zero : (x ^^^ y).toNat = 0
  · rw [zero]
    decide
  · exact (Nat.log2_lt zero).mpr (UInt8.toNat_lt _)

theorem before_iff_lt {s t : CStr} : Before strmapDirection s t ↔ s.bytes < t.bytes := by
  refine ⟨lt_of_before, fun less => ?_⟩
  cases differ : strmapByteNum s.bytes t.bytes with
  | none =>
      rw [strmapByteNum_eq_none.mp differ] at less
      exact absurd less (List.lt_irrefl _)
  | some byteNum =>
      obtain ⟨agree, apart⟩ := strmapByteNum_parts differ
      have parts := agree.forks apart
      split_ifs at parts
      · exact ⟨_, parts⟩
      · exact absurd (lt_of_before ⟨_, parts⟩) (List.lt_asymm less)

/-! ## The strings with a prefix -/

/-- The nodes whose byte lies inside a string. -/
def CStr.inside (s : CStr) (n : StrmapNode) : Bool := n.byteNum < s.bytes.length

theorem CStr.inside_initial (s : CStr) (p q : StrmapNode) (le : p ≤ q) (inside : s.inside q) :
    s.inside p := by
  simp only [CStr.inside, decide_eq_true_eq] at inside ⊢
  rcases le.lt_or_eq with less | rfl
  · have bytes := StrmapNode.lt_iff.mp less
    omega
  · exact inside

theorem CStr.byte_ne_zero {s : CStr} {i : Nat} (inside : i < s.bytes.length) : s.byte i ≠ 0 := by
  intro zero
  rw [CStr.byte, List.getElem?_eq_getElem inside, Option.getD_some] at zero
  exact s.noNul (zero ▸ List.getElem_mem inside)

/-- A string begins like another exactly when it has its bits at the bytes inside. -/
theorem alike_iff_starts {s t : CStr} :
    Trie.Alike strmapDirection s.inside s t ↔ s.bytes <+: t.bytes := by
  rw [List.prefix_iff_getElem?]
  constructor
  · intro alike i inside
    have same : s.byte i = t.byte i := by
      refine UInt8.toNat_inj.mp (Nat.eq_of_testBit_eq fun j => ?_)
      have bits := alike ⟨i, j⟩ (by simpa [CStr.inside] using inside)
      simpa only [strmapDirection_eq] using bits
    have inT : i < t.bytes.length := by
      by_contra past
      exact CStr.byte_ne_zero inside (same.trans (CStr.byte_past (not_lt.mp past)))
    simp only [CStr.byte, List.getElem?_eq_getElem inside, List.getElem?_eq_getElem inT,
      Option.getD_some] at same
    rw [List.getElem?_eq_getElem inT, same]
  · intro begins n inside
    simp only [CStr.inside, decide_eq_true_eq] at inside
    have same : t.byte n.byteNum = s.byte n.byteNum := by
      rw [CStr.byte, CStr.byte, begins n.byteNum inside, List.getElem?_eq_getElem inside]
    rw [strmapDirection_eq, strmapDirection_eq, same]

section Prefix

variable {V : Type} {bytes : CStr}

theorem strmapPrefixLoop_node (top : Trie StrmapNode CStr V) (n : StrmapNode)
    (child0 child1 : Trie StrmapNode CStr V) :
    strmapPrefixLoop bytes top (.node n child0 child1) =
      let child := if strmapDirection bytes n then child1 else child0
      strmapPrefixLoop bytes (if bytes.inside n then child else top) child := by
  rw [strmapPrefixLoop, strmapDirection, CStr.inside]
  by_cases inside : n.byteNum < bytes.bytes.length
  · have some := CStr.byte_ne_zero inside
    simp only [inside, if_true, some, ne_eq, not_false_eq_true, decide_true]
    split_ifs <;> rfl
  · simp [inside]

/-- Below a node outside of the prefix nothing is outside no more. -/
theorem strmapPrefixLoop_outside {p : StrmapNode} {top t : Trie StrmapNode CStr V}
    (outside : ¬ bytes.inside p) (parted : t.Parted strmapDirection) (past : t.Past p) :
    strmapPrefixLoop bytes top t = (top, (strmapClosest t bytes).1) := by
  induction t generalizing p with
  | leaf => rfl
  | node n child0 child1 ih0 ih1 =>
      have outside' : ¬ bytes.inside n := fun inside =>
        outside (bytes.inside_initial p n (le_of_lt past) inside)
      obtain ⟨past0, past1⟩ := parted.sides_past
      rw [strmapPrefixLoop_node, strmapClosest, Trie.closest]
      dsimp only
      rw [if_neg outside']
      split_ifs
      · exact ih1 outside' parted.2.1 past1
      · exact ih0 outside' parted.1 past0

theorem strmapPrefixLoop_eq (bytes : CStr) {t : Trie StrmapNode CStr V} (parted : t.Parted strmapDirection) :
    strmapPrefixLoop bytes t t =
      (t.top strmapDirection bytes.inside bytes, (strmapClosest t bytes).1) := by
  induction t with
  | leaf => rfl
  | node n child0 child1 ih0 ih1 =>
      obtain ⟨past0, past1⟩ := parted.sides_past
      rw [strmapPrefixLoop_node, strmapClosest, Trie.closest, Trie.top]
      by_cases inside : bytes.inside n
      · dsimp only
        rw [if_pos inside, if_pos inside]
        split_ifs
        · exact ih1 parted.2.1
        · exact ih0 parted.1
      · dsimp only
        rw [if_neg inside, if_neg inside]
        split_ifs
        · exact strmapPrefixLoop_outside inside parted.2.1 past1
        · exact strmapPrefixLoop_outside inside parted.1 past0

end Prefix

/-! ## What the calls do to the entries -/

section Calls

variable {V : Type} {map : Strmap V} {f : CStr → Option V}

theorem strmapGet_eq (keeps : Critbit.Keeps strmapDirection map f) (member : CStr) :
    strmapGet map member = f member := by
  rw [← keeps.find member]
  cases map <;> rfl

theorem strmapEmpty_eq (map : Strmap V) : strmapEmpty map = (entriesOf map).isEmpty := by
  cases map with
  | none => rfl
  | some tree => exact (List.isEmpty_eq_false_iff.mpr tree.entries_ne_nil).symm

theorem strmapByteNum_eq_none_iff {s t : CStr} :
    strmapByteNum s.bytes t.bytes = none ↔ t = s := by
  rw [strmapByteNum_eq_none]
  constructor
  · intro same
    cases s
    cases t
    simpa [eq_comm] using same
  · rintro rfl
    rfl

theorem strmapAdd_keeps (keeps : Critbit.Keeps strmapDirection map f) (member : CStr) (value : V) :
    (strmapAdd map member value).1 = (f member).isNone ∧
      Critbit.Keeps strmapDirection (strmapAdd map member value).2
        (Function.update f member (some ((f member).getD value))) := by
  have get := strmapGet_eq keeps member
  cases map with
  | none =>
      have fresh : f member = none := get.symm
      rw [fresh]
      exact ⟨rfl, keeps.leaf member value⟩
  | some tree =>
      rw [strmapGet] at get
      rw [strmapAdd]
      dsimp only
      cases differ : strmapByteNum (strmapClosest tree member).1.bytes member.bytes with
      | none =>
          have same := strmapByteNum_eq_none_iff.mp differ
          rw [if_pos same] at get
          rw [← get, Option.getD_some, get, Function.update_eq_self]
          exact ⟨by rw [← get]; rfl, keeps⟩
      | some byteNum =>
          have other : member ≠ (strmapClosest tree member).1 := fun same => by
            rw [strmapByteNum_eq_none_iff.mpr same] at differ
            cases differ
          rw [if_neg other] at get
          obtain ⟨agree, apart⟩ := strmapByteNum_parts differ
          rw [← get]
          exact ⟨rfl, keeps.graft _ _ value agree apart⟩

theorem strmapDel_keeps (keeps : Critbit.Keeps strmapDirection map f) (member : CStr) :
    (strmapDel map member).1 = (f member).map (Prod.mk member) ∧
      Critbit.Keeps strmapDirection (strmapDel map member).2 (Function.update f member none) := by
  have get := strmapGet_eq keeps member
  cases map with
  | none =>
      have absent : f member = none := get.symm
      rw [← absent, Function.update_eq_self, absent]
      exact ⟨rfl, keeps⟩
  | some tree =>
      rw [strmapGet] at get
      rw [strmapDel]
      split_ifs at get ⊢ with same
      · rw [← get]
        exact ⟨congrArg some (Prod.ext same.symm rfl), keeps.prune member same.symm⟩
      · rw [get, Function.update_eq_self, ← get]
        exact ⟨rfl, keeps⟩

end Calls

/-! ## The finite map it keeps -/

instance : Ord CStr := ⟨compareOn CStr.bytes⟩

instance : Std.TransOrd CStr := inferInstanceAs (Std.TransCmp (compareOn CStr.bytes))

instance : Std.LawfulEqOrd CStr where
  eq_of_compare {s t} same := by
    cases s
    cases t
    congr
    exact Std.LawfulEqOrd.eq_of_compare (α := List UInt8) same

theorem compare_eq_lt_iff {α : Type} [Ord α] [LT α] [Std.LawfulLTOrd α] [Std.LawfulEqOrd α]
    {s t : List α} : compare s t = .lt ↔ s < t := by
  induction s generalizing t with
  | nil => cases t <;> simp [List.compare_nil_cons]
  | cons a s ih =>
      cases t with
      | nil => simp [List.compare_cons_nil]
      | cons b t =>
          rw [List.compare_cons_cons, Ordering.then_eq_lt, List.cons_lt_cons_iff, ih,
            Std.LawfulEqCmp.compare_eq_iff_eq, Std.LawfulLTCmp.eq_lt_iff_lt]

/-- The entries of a string map in the order of its tree are those of a finite map. -/
abbrev Strmap.Keeps {V : Type} (map : Strmap V) (m : Std.ExtTreeMap CStr V) : Prop :=
  Critbit.Keeps strmapDirection map fun member => m[member]?

namespace Strmap

variable {V : Type} {map : Strmap V} {m : Std.ExtTreeMap CStr V}

theorem keeps_empty : Keeps (none : Strmap V) ∅ := by
  simpa [Strmap.Keeps] using @Critbit.keeps_none StrmapNode CStr V _ strmapDirection

/-- Whatever the history of a map, its entries stand in the order of their bytes. -/
theorem Keeps.toList_eq (keeps : Keeps map m) : entriesOf map = m.toList := by
  have ordered : m.toList.Pairwise fun a b => Before strmapDirection a.1 b.1 :=
    Std.ExtTreeMap.ordered_keys_toList.imp fun {a b} less =>
      before_iff_lt.mpr (compare_eq_lt_iff (s := a.1.bytes) (t := b.1.bytes).mp less)
  exact Critbit.Keeps.entries_eq keeps ordered fun k v =>
    Std.ExtTreeMap.mem_toList_iff_getElem?_eq_some

theorem Keeps.get (keeps : Keeps map m) (member : CStr) : strmapGet map member = m[member]? :=
  strmapGet_eq keeps member

theorem Keeps.add (keeps : Keeps map m) (member : CStr) (value : V) :
    (strmapAdd map member value).1 = !m.contains member ∧
      Keeps (strmapAdd map member value).2 (m.insertIfNew member value) := by
  obtain ⟨flag, next⟩ := strmapAdd_keeps keeps member value
  rw [flag, Std.ExtTreeMap.contains_eq_isSome_getElem?, Option.not_isSome]
  exact ⟨rfl, next.congr (update_insertIfNew m member value)⟩

theorem Keeps.del (keeps : Keeps map m) (member : CStr) :
    (strmapDel map member).1 = m[member]?.map (Prod.mk member) ∧
      Keeps (strmapDel map member).2 (m.erase member) := by
  obtain ⟨removed, next⟩ := strmapDel_keeps keeps member
  exact ⟨removed, next.congr (update_erase m member)⟩

theorem Keeps.empty (keeps : Keeps map m) : strmapEmpty map = m.isEmpty := by
  rw [strmapEmpty_eq, keeps.toList_eq, Std.ExtTreeMap.isEmpty_toList]

theorem Keeps.iterate {σ : Type} (keeps : Keeps map m) (handle : CStr → V → σ → Bool × σ) (s : σ) :
    strmapIterate map handle s = (visit handle m.toList s).2 := by
  rw [← keeps.toList_eq]
  cases map with
  | none => rfl
  | some tree => rw [strmapIterate, Trie.walk_eq_visit, entriesOf_some]

theorem Keeps.beginning (keeps : Keeps map m) (bytes : CStr) :
    Keeps (strmapPrefix map bytes) (m.filter fun member _ => bytes.bytes <+: member.bytes) := by
  cases map with
  | none =>
      refine ⟨fun t equal => (nomatch equal), fun k v => ?_⟩
      have empty := keeps.get k
      rw [strmapGet] at empty
      rw [Std.ExtTreeMap.getElem?_filter', ← empty]
      simp [strmapPrefix]
  | some tree =>
      have parted := keeps.parted tree rfl
      have closest := strmapPrefixLoop_eq bytes parted
      refine ⟨fun t equal => ?_, fun k v => ?_⟩
      · rw [strmapPrefix, closest] at equal
        dsimp only at equal
        split_ifs at equal
        cases equal
        exact parted.top bytes
      · have top := parted.mem_top bytes bytes.inside_initial (k, v)
        rw [alike_iff_starts, alike_iff_starts, ← entriesOf_some tree, keeps.entries] at top
        rw [Std.ExtTreeMap.getElem?_filter', Option.filter_eq_some_iff, decide_eq_true_eq, ← top,
          strmapPrefix, closest]
        dsimp only
        split_ifs with begins
        · exact (and_iff_left begins).symm
        · exact iff_of_false List.not_mem_nil fun both => begins both.2

/-! ## Any calls in any order -/

/-- A call on a string map.  A handler decides by what it has been handed so far. -/
inductive Call (V : Type) where
  | get (member : CStr)
  | add (member : CStr) (value : V)
  | del (member : CStr)
  | clear
  | empty
  | iterate (handle : List (CStr × V) → CStr → V → Bool)
  | iteratePrefix (bytes : CStr) (handle : List (CStr × V) → CStr → V → Bool)

inductive Answer (V : Type) where
  | value (found : Option V)
  | flag (yes : Bool)
  | entry (removed : Option (CStr × V))
  | entries (handed : List (CStr × V))
  | nothing

/-- A handler that also writes down what it is handed. -/
def noting (handle : List (CStr × V) → CStr → V → Bool) (member : CStr) (value : V)
    (handed : List (CStr × V)) : Bool × List (CStr × V) :=
  (handle handed member value, handed ++ [(member, value)])

def call (map : Strmap V) : Call V → Answer V × Strmap V
  | .get member => (.value (strmapGet map member), map)
  | .add member value => ((strmapAdd map member value).map .flag id)
  | .del member => ((strmapDel map member).map .entry id)
  | .clear => (.nothing, strmapClear map)
  | .empty => (.flag (strmapEmpty map), map)
  | .iterate handle => (.entries (strmapIterate map (noting handle) []), map)
  | .iteratePrefix bytes handle =>
      (.entries (strmapIterate (strmapPrefix map bytes) (noting handle) []), map)

/-- The same call on a finite map with the strings in byte order. -/
def tableCall (m : Std.ExtTreeMap CStr V) : Call V → Answer V × Std.ExtTreeMap CStr V
  | .get member => (.value m[member]?, m)
  | .add member value => (.flag !m.contains member, m.insertIfNew member value)
  | .del member => (.entry (m[member]?.map (Prod.mk member)), m.erase member)
  | .clear => (.nothing, ∅)
  | .empty => (.flag m.isEmpty, m)
  | .iterate handle => (.entries (visit (noting handle) m.toList []).2, m)
  | .iteratePrefix bytes handle =>
      (.entries (visit (noting handle)
        (m.toList.filter fun e => bytes.bytes <+: e.1.bytes) []).2, m)

theorem Keeps.call (keeps : Keeps map m) (c : Call V) :
    (call map c).1 = (tableCall m c).1 ∧ Keeps (call map c).2 (tableCall m c).2 := by
  cases c with
  | get member => exact ⟨congrArg Answer.value (keeps.get member), keeps⟩
  | add member value =>
      obtain ⟨flag, next⟩ := keeps.add member value
      exact ⟨congrArg Answer.flag flag, next⟩
  | del member =>
      obtain ⟨removed, next⟩ := keeps.del member
      exact ⟨congrArg Answer.entry removed, next⟩
  | clear => exact ⟨rfl, keeps_empty⟩
  | empty => exact ⟨congrArg Answer.flag keeps.empty, keeps⟩
  | iterate handle => exact ⟨congrArg Answer.entries (keeps.iterate _ []), keeps⟩
  | iteratePrefix bytes handle =>
      refine ⟨congrArg Answer.entries ?_, keeps⟩
      rw [(keeps.beginning bytes).iterate, Std.ExtTreeMap.toList_filter]

/-- From an empty map on, any calls answer as on a finite map, and the entries stand in the
    order of their bytes. -/
theorem strmap_calls_as_table (cs : List (Call V)) :
    (Runs.calls call none cs).1 = (Runs.calls tableCall ∅ cs).1 ∧
      entriesOf (Runs.calls call none cs).2 = (Runs.calls tableCall ∅ cs).2.toList := by
  obtain ⟨answers, last⟩ := Runs.calls_alike (R := Keeps (V := V))
    (fun _ _ c keeps => keeps.call c) keeps_empty cs
  exact ⟨answers, last.toList_eq⟩

end Strmap

end Payz
