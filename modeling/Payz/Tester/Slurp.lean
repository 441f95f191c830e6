import Mathlib.Algebra.Order.Ring.Nat
import Mathlib.Data.List.Basic
import Mathlib.Logic.Relation

/-! # The loop that reads a connection

`payz_tester_rpc_fd` of `plugins/payz/tester/rpc.c`, up to the call of
`payz_tester_rpc_conn_feed`.  The socket is what can be read of it by now, and whether
the other end is closed; an interrupted call is made again and not seen here.
-/

namespace Payz

/-- A socket in blocking mode. -/
structure Socket where
  available : List UInt8
  closed : Bool
  deriving Repr, DecidableEq

/-- With nothing there to read and the other end open, `read` waits. -/
def Socket.WouldBlock (socket : Socket) : Prop := socket.available = [] ∧ socket.closed = false

instance (socket : Socket) : Decidable socket.WouldBlock := by
  unfold Socket.WouldBlock
  infer_instance

/-- `read`; `none` where it waits. -/
def Socket.read (socket : Socket) (count : Nat) : Option (List UInt8 × Socket) :=
  if socket.WouldBlock then none
  else some (socket.available.take count,
    { socket with available := socket.available.drop count })

def pollin : UInt16 := 1

structure Pollfd where
  events : UInt16
  revents : UInt16
  deriving Repr, DecidableEq

/-- `poll` of one socket, without a timeout. -/
def Socket.poll (socket : Socket) (pfd : Pollfd) : Pollfd :=
  { pfd with revents := if socket.WouldBlock then 0 else pfd.events &&& pollin }

/-- `tal_arr`, and what `tal_resize` adds: a byte that was not written yet is `none`. -/
def unwritten (count : Nat) : List (Option UInt8) := List.replicate count none

/-- The variables of the loop in `payz_tester_rpc_fd`, with the socket. -/
structure Slurp where
  socket : Socket
  buffer : List (Option UInt8)
  offset : Nat
  readable : Bool
  revents : UInt16

/-- The bytes that `read` puts into the buffer. -/
def storeBytes (buffer : List (Option UInt8)) (offset : Nat) (bytes : List UInt8) :
    List (Option UInt8) :=
  buffer.take offset ++ bytes.map some ++ buffer.drop (offset + bytes.length)

/-- Before the first turn.  What stands in `pfd.revents` is anything. -/
def Slurp.start (socket : Socket) (revents : UInt16) : Slurp :=
  ⟨socket, unwritten 4096, 0, true, revents⟩

/-- One turn of the loop; `none` where its `read` waits.  Behind `poll` it looks at what it
    asked for, not at what it got. -/
def Slurp.turn (s : Slurp) : Option Slurp :=
  let toRead := s.buffer.length - s.offset
  match s.socket.read toRead with
  | none => none
  | some (bytes, socket) =>
      let buffer := storeBytes s.buffer s.offset bytes
      let offset := s.offset + bytes.length
      let buffer := if offset = buffer.length then buffer ++ unwritten 4096 else buffer
      if bytes.length = toRead then
        let pfd := socket.poll ⟨pollin, s.revents⟩
        some ⟨socket, buffer, offset, pfd.events != 0, pfd.revents⟩
      else some ⟨socket, buffer, offset, false, s.revents⟩

/-- What comes after the loop: the end of the connection, or bytes to feed. -/
inductive Slurped where
  | closes
  | feeds (buffer : List (Option UInt8))
  deriving Repr, DecidableEq

/-- `payz_tester_rpc_fd` behind its loop. -/
def Slurp.finish (s : Slurp) : Slurped :=
  if s.offset = 0 then .closes else .feeds (s.buffer.take s.offset)

/-! ## The states of the loop -/

def Slurp.Turn (s s' : Slurp) : Prop := s.readable = true ∧ s.turn = some s'

def Slurp.Reaches : Slurp → Slurp → Prop := Relation.ReflTransGen Slurp.Turn

/-- What is said of the loop on a socket: it ends with all bytes in order, its offset stays
    within the buffer and it does not read where that would wait. -/
structure SlurpsAll (socket : Socket) (revents : UInt16) : Prop where
  ends : ∃ last, (Slurp.start socket revents).Reaches last ∧ last.readable = false ∧
    last.finish = .feeds (socket.available.map some)
  offset : ∀ s, (Slurp.start socket revents).Reaches s → s.offset ≤ s.buffer.length
  reads : ∀ s, (Slurp.start socket revents).Reaches s → s.readable = true → ¬ s.socket.WouldBlock

/-- What holds between two turns: the bytes read and those to come are the bytes there
    were, and the buffer has room. -/
structure Slurp.Inv (socket : Socket) (s : Slurp) : Prop where
  closed : s.socket.closed = socket.closed
  bytes : s.buffer.take s.offset ++ s.socket.available.map some = socket.available.map some
  room : s.offset < s.buffer.length
  step : s.readable = true → s.buffer.length = s.offset + 4096 ∧ 4096 ∣ s.offset
  all : s.readable = false → s.socket.available = []

theorem take_storeBytes {buffer : List (Option UInt8)} {offset : Nat} {bytes : List UInt8}
    (inside : offset ≤ buffer.length) :
    (storeBytes buffer offset bytes).take (offset + bytes.length) =
      buffer.take offset ++ bytes.map some := by
  have length : (buffer.take offset ++ bytes.map some).length = offset + bytes.length := by
    simp [inside]
  rw [storeBytes, List.take_left' length]

theorem length_storeBytes {buffer : List (Option UInt8)} {offset : Nat} {bytes : List UInt8}
    (fits : offset + bytes.length ≤ buffer.length) :
    (storeBytes buffer offset bytes).length = buffer.length := by
  simp only [storeBytes, List.length_append, List.length_take, List.length_map, List.length_drop]
  omega

theorem length_unwritten (count : Nat) : (unwritten count).length = count :=
  List.length_replicate

theorem Slurp.inv_start (socket : Socket) (revents : UInt16) :
    (Slurp.start socket revents).Inv socket where
  closed := rfl
  bytes := rfl
  room := (length_unwritten 4096).symm ▸ Nat.succ_pos 4095
  step _ := ⟨length_unwritten 4096, Nat.dvd_zero _⟩
  all finished := by cases finished

variable {socket : Socket} {s s' : Slurp}

/-- What a turn makes of what it reads: whether it goes on depends on the count alone. -/
theorem Slurp.turn_eq {bytes : List UInt8} {rest : Socket}
    (read : s.socket.read (s.buffer.length - s.offset) = some (bytes, rest)) :
    ∃ revents, s.turn = some {
      socket := rest
      buffer :=
        if s.offset + bytes.length = (storeBytes s.buffer s.offset bytes).length then
          storeBytes s.buffer s.offset bytes ++ unwritten 4096
        else storeBytes s.buffer s.offset bytes
      offset := s.offset + bytes.length
      readable := decide (bytes.length = s.buffer.length - s.offset)
      revents := revents } := by
  rw [Slurp.turn, read]
  dsimp only
  by_cases full : bytes.length = s.buffer.length - s.offset
  · refine ⟨(rest.poll ⟨pollin, s.revents⟩).revents, ?_⟩
    rw [if_pos full, decide_eq_true full]
    rfl
  · refine ⟨s.revents, ?_⟩
    rw [if_neg full, decide_eq_false full]

/-- A turn that does not wait takes up to 4096 bytes, and goes on after as many. -/
theorem Slurp.Inv.turn (inv : s.Inv socket) (readable : s.readable = true)
    (ready : ¬ s.socket.WouldBlock) :
    ∃ s', s.turn = some s' ∧ s'.Inv socket ∧
      s'.socket.available = s.socket.available.drop 4096 ∧
      (s'.readable = true ↔ 4096 ≤ s.socket.available.length) := by
  obtain ⟨length, dvd⟩ := inv.step readable
  have room : s.buffer.length - s.offset = 4096 := by omega
  have taken : (s.socket.available.take 4096).length = min 4096 s.socket.available.length :=
    List.length_take
  have stored : (storeBytes s.buffer s.offset (s.socket.available.take 4096)).length =
      s.buffer.length := length_storeBytes (by omega)
  have bytes : (storeBytes s.buffer s.offset (s.socket.available.take 4096)).take
      (s.offset + (s.socket.available.take 4096).length) ++
        (s.socket.available.drop 4096).map some = socket.available.map some := by
    rw [take_storeBytes inv.room.le, List.append_assoc, ← List.map_append, List.take_append_drop,
      inv.bytes]
  obtain ⟨revents, turn⟩ := Slurp.turn_eq (s := s) (if_neg ready)
  rw [room] at turn
  refine ⟨_, turn, ?_, rfl, ?_⟩
  · by_cases full : 4096 ≤ s.socket.available.length
    · rw [if_pos (by omega)]
      constructor
      case closed => exact inv.closed
      case bytes =>
        dsimp only
        rwa [List.take_append_of_le_length (by omega)]
      case room =>
        dsimp only
        rw [List.length_append, length_unwritten]
        omega
      case step =>
        intro _
        dsimp only
        rw [List.length_append, length_unwritten]
        exact ⟨by omega, by omega⟩
      case all =>
        intro finished
        have short := of_decide_eq_false finished
        omega
    · rw [if_neg (by omega)]
      constructor
      case closed => exact inv.closed
      case bytes => exact bytes
      case room => dsimp only; omega
      case step =>
        intro again
        have full := of_decide_eq_true again
        omega
      case all => exact fun _ => List.drop_eq_nil_of_le (by omega)
  · rw [decide_eq_true_iff]
    omega

/-- The condition under which the loop stays out of a `read` that waits. -/
def Socket.EndsShort (socket : Socket) : Prop :=
  socket.closed = true ∨ ¬ 4096 ∣ socket.available.length

theorem Socket.EndsShort.ready (short : socket.EndsShort) : ¬ socket.WouldBlock := by
  rintro ⟨empty, opened⟩
  rcases short with closed | uneven
  · rw [closed] at opened
    cases opened
  · exact uneven (by rw [empty]; exact Nat.dvd_zero _)

theorem dvd_length_drop {available : List UInt8} (full : 4096 ≤ available.length) :
    4096 ∣ (available.drop 4096).length ↔ 4096 ∣ available.length := by
  rw [List.length_drop]
  omega

theorem Slurp.Inv.short (inv : s.Inv socket) (turn : s.Turn s')
    (short : s.socket.EndsShort) : s'.Inv socket ∧ (s'.readable = true → s'.socket.EndsShort) := by
  obtain ⟨next, same, inv', available, again⟩ := inv.turn turn.1 short.ready
  obtain rfl : next = s' := Option.some.inj (same.symm.trans turn.2)
  refine ⟨inv', fun readable => ?_⟩
  refine short.imp (fun closed => ?_) (fun uneven => ?_)
  · rw [inv'.closed, ← inv.closed, closed]
  · rwa [available, dvd_length_drop (again.mp readable)]

theorem Slurp.Reaches.short {revents : UInt16} (short : socket.EndsShort)
    (run : (Slurp.start socket revents).Reaches s) :
    s.Inv socket ∧ (s.readable = true → s.socket.EndsShort) := by
  induction run with
  | refl => exact ⟨Slurp.inv_start socket revents, fun _ => short⟩
  | tail _ turn ih => exact ih.1.short turn (ih.2 turn.1)

/-- The loop ends, each turn having less to read than the one before. -/
theorem Slurp.Inv.ends (inv : s.Inv socket) (readable : s.readable = true)
    (short : s.socket.EndsShort) : ∃ last, s.Reaches last ∧ last.readable = false ∧ last.Inv socket := by
  induction count : s.socket.available.length using Nat.strong_induction_on generalizing s with
  | _ size ih =>
      obtain ⟨next, turn, inv', available, again⟩ := inv.turn readable short.ready
      have step : s.Turn next := ⟨readable, turn⟩
      cases goesOn : next.readable with
      | false => exact ⟨next, .single step, goesOn, inv'⟩
      | true =>
          have full := again.mp goesOn
          have less : next.socket.available.length < size := by
            rw [available, List.length_drop]
            omega
          obtain ⟨last, run, finished, kept⟩ :=
            ih _ less inv' goesOn ((inv.short step short).2 goesOn) rfl
          exact ⟨last, .head step run, finished, kept⟩

/-- Without the condition it comes to wait, having read everything. -/
theorem Slurp.Inv.waits (inv : s.Inv socket) (readable : s.readable = true)
    (opened : socket.closed = false) (even : 4096 ∣ s.socket.available.length) :
    ∃ last, s.Reaches last ∧ last.readable = true ∧ last.socket.WouldBlock := by
  induction count : s.socket.available.length using Nat.strong_induction_on generalizing s with
  | _ size ih =>
      by_cases waits : s.socket.WouldBlock
      · exact ⟨s, .refl, readable, waits⟩
      · obtain ⟨next, turn, inv', available, again⟩ := inv.turn readable waits
        have some : s.socket.available ≠ [] := fun empty =>
          waits ⟨empty, inv.closed.trans opened⟩
        have positive : 0 < s.socket.available.length := List.length_pos_iff.mpr some
        have full : 4096 ≤ s.socket.available.length := Nat.le_of_dvd positive even
        have less : next.socket.available.length < size := by
          rw [available, List.length_drop]
          omega
        obtain ⟨last, run, there⟩ := ih _ less inv' (again.mpr full)
          (by rwa [available, dvd_length_drop full]) rfl
        exact ⟨last, .head ⟨readable, turn⟩ run, there⟩

theorem Slurp.Inv.finish (inv : s.Inv socket) (nonempty : socket.available ≠ [])
    (finished : s.readable = false) : s.finish = .feeds (socket.available.map some) := by
  have bytes := inv.bytes
  rw [inv.all finished, List.map_nil, List.append_nil] at bytes
  have read : s.offset ≠ 0 := by
    intro none
    rw [none, List.take_zero, eq_comm, List.map_eq_nil_iff] at bytes
    exact nonempty bytes
  rw [Slurp.finish, if_neg read, bytes]

theorem SlurpsAll.of_endsShort {revents : UInt16} (nonempty : socket.available ≠ [])
    (short : socket.EndsShort) : SlurpsAll socket revents where
  ends := by
    obtain ⟨last, run, finished, inv⟩ := (Slurp.inv_start socket revents).ends rfl short
    exact ⟨last, run, finished, inv.finish nonempty finished⟩
  offset s run := (Slurp.Reaches.short short run).1.room.le
  reads s run readable := ((Slurp.Reaches.short short run).2 readable).ready

theorem not_slurpsAll {revents : UInt16} (opened : socket.closed = false)
    (even : 4096 ∣ socket.available.length) : ¬ SlurpsAll socket revents := by
  intro all
  obtain ⟨last, run, readable, waits⟩ :=
    (Slurp.inv_start socket revents).waits rfl opened even
  exact all.reads last run readable waits

/-- The loop reads all there is without waiting, but for a multiple of 4096 bytes on a
    connection that is open. -/
theorem slurpsAll_iff (socket : Socket) (revents : UInt16) (nonempty : socket.available ≠ []) :
    SlurpsAll socket revents ↔ socket.closed = true ∨ ¬ 4096 ∣ socket.available.length := by
  refine ⟨fun all => ?_, SlurpsAll.of_endsShort nonempty⟩
  by_contra neither
  rw [not_or, Bool.not_eq_true, not_not] at neither
  exact not_slurpsAll neither.1 neither.2 all

/-- More than one turn is needed for 5000 bytes. -/
theorem slurpsAll_iff_long : SlurpsAll ⟨List.replicate 5000 10, false⟩ 0 := by
  have length : (List.replicate 5000 (10 : UInt8)).length = 5000 := List.length_replicate
  refine (slurpsAll_iff ⟨List.replicate 5000 10, false⟩ 0 ?_).mpr (.inr ?_)
  · exact List.ne_nil_of_length_pos (by rw [length]; decide)
  · rw [length]
    decide

/-- Behind a message of 4096 bytes it waits for more. -/
theorem not_slurpsAll_page : (⟨List.replicate 4096 32, false⟩ : Socket).available ≠ [] ∧
    ¬ SlurpsAll ⟨List.replicate 4096 32, false⟩ 0 := by
  have length : (List.replicate 4096 (32 : UInt8)).length = 4096 := List.length_replicate
  refine ⟨List.ne_nil_of_length_pos (by rw [length]; decide), not_slurpsAll rfl ?_⟩
  exact ⟨1, length⟩

end Payz
