import Payz.Lib.Cells

/-! # Buffers that grow

`ccan/membuf`: a queue in one stretch of memory, with a cursor at either end.  An assertion
that does not hold and a store outside the memory are `none`.  The build has an expand function
that never fails, and no buffer comes near the limits of `size_t`.
-/

namespace Payz

open Cells

/-- `struct membuf`.  `max_elems` is the length of `elems`, and `end` is a keyword here. -/
structure Membuf (α : Type) where
  start : Nat
  stop : Nat
  elems : List (Option α)
  ordered : start ≤ stop
  inside : stop ≤ elems.length

variable {α : Type}

def membufInit (elems : List (Option α)) : Membuf α := ⟨0, 0, elems, le_rfl, Nat.zero_le _⟩

def membufNumElems (mb : Membuf α) : Nat := mb.stop - mb.start

def membufNumSpace (mb : Membuf α) : Nat := mb.elems.length - mb.stop

/-- `membuf_consume`, without the pointer to what is consumed. -/
def membufConsume (mb : Membuf α) (num : Nat) : Option (Membuf α) :=
  if within : num ≤ membufNumElems mb then
    some { mb with
      start := mb.start + num
      ordered := by
        have := mb.ordered
        rw [membufNumElems] at within
        omega }
  else none

def membufAdded (mb : Membuf α) (num : Nat) : Option (Membuf α) :=
  if within : num ≤ membufNumSpace mb then
    some { mb with
      stop := mb.stop + num
      ordered := le_trans mb.ordered (Nat.le_add_right _ _)
      inside := by
        have := mb.inside
        rw [membufNumSpace] at within
        omega }
  else none

/-- The trivial empty case of `membuf_prepare_space`. -/
def membufReset (mb : Membuf α) : Membuf α :=
  if mb.start = mb.stop then membufInit mb.elems else mb

/-- The two ways of `membuf_prepare_space` to make space: move down what is queued if that is
    less than half of the buffer, and enlarge the buffer otherwise. -/
def membufMakeSpace (mb : Membuf α) (numExtra : Nat) : Membuf α :=
  if numExtra ≤ membufNumSpace mb then mb
  else if membufNumElems mb ≤ mb.elems.length / 2 ∧
      membufNumElems mb + numExtra ≤ mb.elems.length then
    { start := 0
      stop := mb.stop - mb.start
      elems := moveDown mb.elems mb.start (mb.stop - mb.start)
      ordered := Nat.zero_le _
      inside := by
        have := mb.ordered
        have := mb.inside
        rw [length_moveDown (by omega)]
        omega }
  else
    let numExtra := if numExtra < mb.elems.length then mb.elems.length else numExtra
    { mb with
      elems := mb.elems ++ List.replicate numExtra none
      inside := by
        have := mb.inside
        rw [List.length_append]
        omega }

/-- `membuf_prepare_space`, without the difference of the addresses. -/
def membufPrepareSpace (mb : Membuf α) (numExtra : Nat) : Membuf α :=
  membufMakeSpace (membufReset mb) numExtra

/-- What goes through a pointer into the memory. -/
def Membuf.write (mb : Membuf α) (pos : Nat) (items : List α) : Option (Membuf α) :=
  match stored : store mb.elems pos items with
  | none => none
  | some elems => some { mb with
      elems
      inside := by
        rw [length_of_store stored]
        exact mb.inside }

/-! ## The queue in the buffer -/

section

variable {mb : Membuf α} {q items : List α} {n pos : Nat}

/-- The queue holds `q`, and behind it, from `pos` on, `n` cells are the caller's to fill. -/
structure Membuf.Reserved (mb : Membuf α) (q : List α) (n pos : Nat) : Prop where
  holds : Holds mb.elems mb.start q
  dest : pos = mb.start + q.length
  last : mb.stop = pos + n

/-- The queue holds `q`, and nothing else. -/
def Membuf.Queued (mb : Membuf α) (q : List α) : Prop := mb.Reserved q 0 mb.stop

theorem membufInit_queued (elems : List (Option α)) : (membufInit elems).Queued [] :=
  ⟨holds_nil, rfl, rfl⟩

theorem Membuf.Queued.stop (queued : mb.Queued q) : mb.stop = mb.start + q.length := queued.dest

theorem Membuf.Queued.numElems (queued : mb.Queued q) : membufNumElems mb = q.length := by
  rw [membufNumElems, queued.stop]
  omega

theorem Membuf.Queued.load (queued : mb.Queued q) : load mb.elems mb.start q.length = some q := by
  have := mb.inside
  have := queued.stop
  exact queued.holds.load (by omega)

theorem Membuf.Queued.reset (queued : mb.Queued q) : (membufReset mb).Queued q := by
  rw [membufReset]
  split_ifs with empty
  · have none : q = [] := List.length_eq_zero_iff.mp (by
      have := queued.stop
      omega)
    rw [none]
    exact membufInit_queued _
  · exact queued

theorem Membuf.Queued.makeSpace (queued : mb.Queued q) (n : Nat) :
    (membufMakeSpace mb n).Queued q ∧ n ≤ membufNumSpace (membufMakeSpace mb n) := by
  have ends := queued.stop
  have inside := mb.inside
  rw [membufMakeSpace]
  split_ifs with room low larger
  · exact ⟨queued, room⟩
  · have size : mb.stop - mb.start = q.length := by omega
    refine ⟨⟨?_, ?_, rfl⟩, ?_⟩
    · dsimp only
      rw [size]
      exact queued.holds.moved
    · dsimp only
      omega
    · have same : (moveDown mb.elems mb.start (mb.stop - mb.start)).length = mb.elems.length :=
        length_moveDown (by omega)
      rw [membufNumElems] at low
      rw [membufNumSpace]
      dsimp only
      omega
  -- The buffer grows by what is asked for, or by more.
  all_goals
    have enough : n ≤ if n < mb.elems.length then mb.elems.length else n := by
      split_ifs
      omega
    refine ⟨⟨queued.holds.grown _, ends, rfl⟩, ?_⟩
    rw [membufNumSpace]
    dsimp only
    rw [List.length_append, List.length_replicate]
    omega

/-- There is room for what was asked for, and the queue is the same. -/
theorem Membuf.Queued.prepareSpace (queued : mb.Queued q) (n : Nat) :
    (membufPrepareSpace mb n).Queued q ∧ n ≤ membufNumSpace (membufPrepareSpace mb n) :=
  queued.reset.makeSpace n

theorem Membuf.Queued.consume (queued : mb.Queued q) (within : n ≤ q.length) :
    ∃ mb', membufConsume mb n = some mb' ∧ mb'.Queued (q.drop n) := by
  refine ⟨_, dif_pos (by rwa [queued.numElems]), queued.holds.drop n, ?_, rfl⟩
  have := queued.stop
  rw [List.length_drop]
  dsimp only
  omega

theorem Membuf.write_inside (mb : Membuf α) (pos : Nat) (items : List α)
    (inside : pos + items.length ≤ mb.elems.length) :
    ∃ mb', mb.write pos items = some mb' ∧ mb'.start = mb.start ∧ mb'.stop = mb.stop ∧
      Stored mb.elems pos items mb'.elems := by
  obtain ⟨elems, same, stored⟩ := store_inside inside
  refine ⟨{ mb with
    elems
    inside := by
      rw [stored.length]
      exact mb.inside }, ?_, rfl, rfl, stored⟩
  rw [Membuf.write]
  split
  · next failed =>
      rw [same] at failed
      cases failed
  · next elems' stores =>
      rw [same] at stores
      cases stores
      rfl

theorem Membuf.Queued.write (queued : mb.Queued q) (pos : Nat) (items : List α)
    (behind : mb.stop ≤ pos) (inside : pos + items.length ≤ mb.elems.length) :
    ∃ mb', mb.write pos items = some mb' ∧ mb'.Queued q ∧ mb'.stop = mb.stop ∧
      Stored mb.elems pos items mb'.elems := by
  obtain ⟨mb', wrote, start, stop, stored⟩ := mb.write_inside pos items inside
  have ends := queued.stop
  refine ⟨mb', wrote, ⟨?_, ?_, rfl⟩, stop, stored⟩
  · rw [start]
    exact stored.elsewhere _ _ queued.holds (.inl (by omega))
  · rw [start, stop, ends]

/-- Behind the queue `q` some items have been written, and `n` more cells are free there. -/
structure Membuf.Filled (mb : Membuf α) (q items : List α) (n : Nat) : Prop where
  queued : mb.Queued q
  here : Holds mb.elems mb.stop items
  room : items.length + n ≤ membufNumSpace mb

theorem Membuf.Queued.filled (queued : mb.Queued q) (room : n ≤ membufNumSpace mb) :
    mb.Filled q [] n :=
  ⟨queued, holds_nil, by rwa [List.length_nil, Nat.zero_add]⟩

theorem Membuf.Filled.write {more : List α} (filled : mb.Filled q items (more.length + n)) :
    ∃ mb', mb.write (mb.stop + items.length) more = some mb' ∧ mb'.stop = mb.stop ∧
      mb'.Filled q (items ++ more) n := by
  have room := filled.room
  have inside := mb.inside
  rw [membufNumSpace] at room
  obtain ⟨mb', wrote, queued, stop, stored⟩ :=
    filled.queued.write (mb.stop + items.length) more (by omega) (by omega)
  refine ⟨mb', wrote, stop, queued, ?_, ?_⟩
  · rw [stop]
    exact holds_append.mpr ⟨stored.elsewhere _ _ filled.here (.inl le_rfl), stored.here⟩
  · rw [membufNumSpace, stop, stored.length, List.length_append]
    omega

/-- Cells that have been filled before they are added belong to the queue, the others are
    reserved. -/
theorem Membuf.Filled.added (filled : mb.Filled q items n) :
    ∃ mb', membufAdded mb (items.length + n) = some mb' ∧
      mb'.Reserved (q ++ items) n (mb.stop + items.length) := by
  have stop := filled.queued.stop
  refine ⟨_, dif_pos filled.room, holds_append.mpr ⟨filled.queued.holds, ?_⟩, ?_, ?_⟩
  · rw [← stop]
    exact filled.here
  · dsimp only
    rw [List.length_append, stop]
    omega
  · dsimp only
    omega

theorem Membuf.Reserved.write (reserved : mb.Reserved q (items.length + n) pos) :
    ∃ mb', mb.write pos items = some mb' ∧
      mb'.Reserved (q ++ items) n (pos + items.length) := by
  have stop := reserved.last
  have dest := reserved.dest
  have := mb.inside
  obtain ⟨mb', wrote, start, stop', stored⟩ := mb.write_inside pos items (by omega)
  refine ⟨mb', wrote, ?_, ?_, ?_⟩
  · rw [start]
    refine holds_append.mpr ⟨stored.elsewhere _ _ reserved.holds (.inl (by omega)), ?_⟩
    rw [← dest]
    exact stored.here
  · rw [start, List.length_append]
    omega
  · rw [stop', stop]
    omega

theorem Membuf.Reserved.store (reserved : mb.Reserved q n pos) (k : Nat) (items : List α)
    (within : k + items.length ≤ n) :
    ∃ mb', mb.write (pos + k) items = some mb' ∧ mb'.Reserved q n pos ∧
      Stored mb.elems (pos + k) items mb'.elems := by
  have last := reserved.last
  have dest := reserved.dest
  have := mb.inside
  obtain ⟨mb', wrote, start, stop, stored⟩ := mb.write_inside (pos + k) items (by omega)
  refine ⟨mb', wrote, ⟨?_, by rw [start, dest], by rw [stop, last]⟩, stored⟩
  rw [start]
  exact stored.elsewhere _ _ reserved.holds (.inl (by omega))

theorem Membuf.Reserved.filled (reserved : mb.Reserved q items.length pos)
    (here : Holds mb.elems pos items) : mb.Queued (q ++ items) := by
  refine ⟨holds_append.mpr ⟨reserved.holds, ?_⟩, ?_, rfl⟩
  · rw [← reserved.dest]
    exact here
  · rw [reserved.last, reserved.dest, List.length_append, Nat.add_assoc]

theorem Membuf.Reserved.queued (reserved : mb.Reserved q 0 pos) : mb.Queued q := by
  have stop := reserved.last
  rw [Nat.add_zero] at stop
  rwa [Membuf.Queued, stop]

end

end Payz
