import Payz.Json.Jsmn

/-! # The check of strings for UTF-8

`utf8_check` in `common/utils.c` over `utf8_decode` in `ccan/utf8/utf8.c`, and
`json_parse_input` with it.  A text is a sequence of bytes here: a `Char` stands for the byte
of its number.
-/

namespace Payz

/-- What `utf8_decode` leaves in `errno`. -/
inductive Utf8Errno where
  | zero
  | inval
  | fbig
  | range
  deriving Repr, DecidableEq

structure Utf8State where
  totalLen : Nat
  usedLen : Nat
  c : Nat
  deriving Repr, DecidableEq

/-- The label `finished_decoding` of `utf8_decode`. -/
def utf8Finished (state : Utf8State) : Utf8Errno :=
  if state.c = 0 ∨ 0x10FFFF < state.c then .range
  else if state.totalLen = 3 ∧ state.c &&& 0xFFFFF800 = 0x0000D800 then .range
  else
    let minBits :=
      match state.totalLen with
      | 1 => 0
      | 2 => 7
      | 3 => 11
      | _ => 16
    if state.c >>> minBits = 0 then .fbig else .zero

/-- `utf8_decode`; no `errno` where it needs another byte. -/
def utf8Decode (state : Utf8State) (c : Nat) : Utf8State × Option Utf8Errno :=
  if state.usedLen = state.totalLen then
    if c &&& 0x80 = 0 then
      if c = 0 then ({ state with usedLen := 1, totalLen := 1 }, some .inval)
      else (⟨1, 1, c⟩, some (utf8Finished ⟨1, 1, c⟩))
    else if c &&& 0xE0 = 0xC0 then (⟨2, 1, c &&& 0x1F⟩, none)
    else if c &&& 0xF0 = 0xE0 then (⟨3, 1, c &&& 0x0F⟩, none)
    else if c &&& 0xF8 = 0xF0 then (⟨4, 1, c &&& 0x07⟩, none)
    else ({ state with usedLen := 1, totalLen := 1 }, some .inval)
  else if c &&& 0xC0 ≠ 0x80 then ({ state with totalLen := state.usedLen }, some .inval)
  else
    let next : Utf8State :=
      ⟨state.totalLen, state.usedLen + 1, (state.c <<< 6) ||| (c &&& 0x3F)⟩
    if next.usedLen = next.totalLen then (next, some (utf8Finished next)) else (next, none)

def utf8CheckLoop : Utf8State → Bool → Text → Bool
  | _, needMore, [] => !needMore
  | state, _, b :: buf =>
      match utf8Decode state b.toNat with
      | (state, none) => utf8CheckLoop state true buf
      | (state, some .zero) => utf8CheckLoop state false buf
      | (_, some _) => false

def utf8Check (buf : Text) : Bool := utf8CheckLoop ⟨0, 0, 0⟩ false buf

mutual
def Json.strings : Json → List Text
  | .primitive _ => []
  | .string raw => [raw]
  | .array _ elems => elemStrings elems
  | .object _ members => memberStrings members

def elemStrings : List Json → List Text
  | [] => []
  | e :: elems => e.strings ++ elemStrings elems

def memberStrings : List (Text × Json) → List Text
  | [] => []
  | (key, value) :: members => key :: (value.strings ++ memberStrings members)
end

/-- `json_parse_input` on bytes: the validation also checks each string. -/
def jsonParseBytes (p : JsmnParser) (input : Text) : JsonInput :=
  match jsonParseInput p input with
  | .complete root toks =>
      if root.strings.all utf8Check then .complete root toks else .invalid
  | other => other

/-! ## Encoded text passes -/

def charBytes (c : Char) : Text := (String.utf8EncodeChar c).map fun b => Char.ofNat b.toNat

def utf8Bytes (text : Text) : Text := text.flatMap charBytes

theorem toNat_ofNat_byte {n : Nat} (byte : n < 256) :
    (Char.ofNat (UInt8.ofNat n).toNat).toNat = n := by
  have small : (UInt8.ofNat n).toNat = n := UInt8.toNat_ofNat_of_lt' byte
  have valid : n.isValidChar := .inl (by omega)
  rw [small, Char.ofNat, dif_pos valid]
  rfl

theorem utf8_lead : (∀ x < 32, (x + 0xC0) &&& 0x80 ≠ 0 ∧ (x + 0xC0) &&& 0xE0 = 0xC0 ∧
      (x + 0xC0) &&& 0x1F = x) ∧
    (∀ x < 16, (x + 0xE0) &&& 0x80 ≠ 0 ∧ (x + 0xE0) &&& 0xE0 ≠ 0xC0 ∧
      (x + 0xE0) &&& 0xF0 = 0xE0 ∧ (x + 0xE0) &&& 0x0F = x) ∧
    ∀ x < 8, (x + 0xF0) &&& 0x80 ≠ 0 ∧ (x + 0xF0) &&& 0xE0 ≠ 0xC0 ∧
      (x + 0xF0) &&& 0xF0 ≠ 0xE0 ∧ (x + 0xF0) &&& 0xF8 = 0xF0 ∧ (x + 0xF0) &&& 0x07 = x := by
  decide

theorem utf8_ascii : ∀ x < 128, x &&& 0x80 = 0 := by
  decide

theorem utf8_tail : ∀ x < 64, (x + 0x80) &&& 0xC0 = 0x80 ∧ (x + 0x80) &&& 0x3F = x := by
  decide

theorem utf8Decode_more {total used c x : Nat} (more : used + 1 < total) (tail : x < 64) :
    utf8Decode ⟨total, used, c⟩ (x + 0x80) = (⟨total, used + 1, c * 64 + x⟩, none) := by
  obtain ⟨mark, bits⟩ := utf8_tail x tail
  have joined : (c <<< 6) ||| x = c * 64 + x := by
    rw [← Nat.shiftLeft_add_eq_or_of_lt (by simpa using tail), Nat.shiftLeft_eq]
  have inside : used ≠ total := by omega
  have open_ : used + 1 ≠ total := by omega
  simp [utf8Decode, inside, mark, bits, joined, open_]

theorem utf8Decode_last {used c x : Nat} (tail : x < 64) :
    utf8Decode ⟨used + 1, used, c⟩ (x + 0x80) =
      (⟨used + 1, used + 1, c * 64 + x⟩,
        some (utf8Finished ⟨used + 1, used + 1, c * 64 + x⟩)) := by
  obtain ⟨mark, bits⟩ := utf8_tail x tail
  have joined : (c <<< 6) ||| x = c * 64 + x := by
    rw [← Nat.shiftLeft_add_eq_or_of_lt (by simpa using tail), Nat.shiftLeft_eq]
  simp [utf8Decode, mark, bits, joined]

theorem utf8Finished_char {used v total : Nat} (valid : v < 0xD800 ∨ 0xDFFF < v ∧ v < 0x110000)
    (positive : 0 < v)
    (size : total = 1 ∨ total = 2 ∧ 0x80 ≤ v ∨ total = 3 ∧ 0x800 ≤ v ∧ v < 0x10000 ∨
      total = 4 ∧ 0x10000 ≤ v) : utf8Finished ⟨total, used, v⟩ = .zero := by
  have inRange : ¬ (v = 0 ∨ 0x10FFFF < v) := by omega
  have surrogate : total = 3 → v &&& 0xFFFFF800 ≠ 0xD800 := by
    intro three same
    have high := congrArg (· >>> 11) same
    simp only [Nat.shiftRight_and_distrib] at high
    have mask : (0xFFFFF800 : Nat) >>> 11 = 2 ^ 21 - 1 := by decide
    have value : (0xD800 : Nat) >>> 11 = 27 := by decide
    rw [mask, value, Nat.and_two_pow_sub_one_eq_mod, Nat.shiftRight_eq_div_pow] at high
    omega
  have notSurrogate : ¬ (total = 3 ∧ v &&& 0xFFFFF800 = 0xD800) := fun both =>
    surrogate both.1 both.2
  rw [utf8Finished, if_neg inRange, if_neg notSurrogate]
  rcases size with rfl | ⟨rfl, low⟩ | ⟨rfl, low, high⟩ | ⟨rfl, low⟩ <;>
    · simp only [Nat.shiftRight_eq_div_pow]
      rw [if_neg (by omega)]

theorem utf8CheckLoop_more {state state' : Utf8State} {needMore : Bool} {b : Char} {rest : Text}
    (decoded : utf8Decode state b.toNat = (state', none)) :
    utf8CheckLoop state needMore (b :: rest) = utf8CheckLoop state' true rest := by
  rw [utf8CheckLoop, decoded]

theorem utf8CheckLoop_done {state state' : Utf8State} {needMore : Bool} {b : Char} {rest : Text}
    (decoded : utf8Decode state b.toNat = (state', some .zero)) :
    utf8CheckLoop state needMore (b :: rest) = utf8CheckLoop state' false rest := by
  rw [utf8CheckLoop, decoded]

/-- One character takes the loop from one state between characters to another. -/
theorem utf8CheckLoop_char {c : Char} (nul : c ≠ '\x00') (k n : Nat) (needMore : Bool)
    (rest : Text) : ∃ k' n', utf8CheckLoop ⟨k, k, n⟩ needMore (charBytes c ++ rest) =
      utf8CheckLoop ⟨k', k', n'⟩ false rest := by
  have valid : c.val.toNat < 0xD800 ∨ 0xDFFF < c.val.toNat ∧ c.val.toNat < 0x110000 := c.valid
  have positive : 0 < c.val.toNat := by
    refine Nat.pos_of_ne_zero fun zero => nul ?_
    exact Char.ext (UInt32.toNat_inj.mp zero)
  obtain ⟨lead2, lead3, lead4⟩ := utf8_lead
  unfold charBytes String.utf8EncodeChar
  dsimp only
  generalize c.val.toNat = v at valid positive
  split_ifs with one two three
  · have ascii : v &&& 0x80 = 0 := utf8_ascii v (by omega)
    have decoded : utf8Decode ⟨k, k, n⟩ v = (⟨1, 1, v⟩, some .zero) := by
      rw [utf8Decode, if_pos rfl, if_pos ascii, if_neg (by omega),
        utf8Finished_char valid positive (.inl rfl)]
    refine ⟨1, v, utf8CheckLoop_done ?_⟩
    rw [toNat_ofNat_byte (by omega), decoded]
  · obtain ⟨mark, kind, bits⟩ := lead2 (v / 64 % 32) (by omega)
    have whole : v / 64 % 32 * 64 + v % 64 = v := by omega
    have first : utf8Decode ⟨k, k, n⟩ (v / 64 % 32 + 0xC0) = (⟨2, 1, v / 64 % 32⟩, none) := by
      rw [utf8Decode, if_pos rfl, if_neg mark, if_pos kind, bits]
    have last := @utf8Decode_last 1 (v / 64 % 32) (v % 64) (by omega)
    rw [whole, utf8Finished_char valid positive (.inr (.inl ⟨rfl, by omega⟩))] at last
    refine ⟨2, v, ?_⟩
    simp only [List.map_cons, List.map_nil, List.cons_append, List.nil_append]
    rw [utf8CheckLoop_more (by rw [toNat_ofNat_byte (by omega)]; exact first),
      utf8CheckLoop_done (by rw [toNat_ofNat_byte (by omega)]; exact last)]
  · obtain ⟨mark, two, kind, bits⟩ := lead3 (v / 4096 % 16) (by omega)
    have whole : (v / 4096 % 16 * 64 + v / 64 % 64) * 64 + v % 64 = v := by omega
    have first : utf8Decode ⟨k, k, n⟩ (v / 4096 % 16 + 0xE0) = (⟨3, 1, v / 4096 % 16⟩, none) := by
      rw [utf8Decode, if_pos rfl, if_neg mark, if_neg two, if_pos kind, bits]
    have second := @utf8Decode_more 3 1 (v / 4096 % 16) (v / 64 % 64) (by omega) (by omega)
    have last := @utf8Decode_last 2 (v / 4096 % 16 * 64 + v / 64 % 64) (v % 64) (by omega)
    rw [whole, utf8Finished_char valid positive
      (.inr (.inr (.inl ⟨rfl, by omega, by omega⟩)))] at last
    refine ⟨3, v, ?_⟩
    simp only [List.map_cons, List.map_nil, List.cons_append, List.nil_append]
    rw [utf8CheckLoop_more (by rw [toNat_ofNat_byte (by omega)]; exact first),
      utf8CheckLoop_more (by rw [toNat_ofNat_byte (by omega)]; exact second),
      utf8CheckLoop_done (by rw [toNat_ofNat_byte (by omega)]; exact last)]
  · obtain ⟨mark, two, three, kind, bits⟩ := lead4 (v / 262144 % 8) (by omega)
    have whole : ((v / 262144 % 8 * 64 + v / 4096 % 64) * 64 + v / 64 % 64) * 64 + v % 64 = v := by
      omega
    have first : utf8Decode ⟨k, k, n⟩ (v / 262144 % 8 + 0xF0) =
        (⟨4, 1, v / 262144 % 8⟩, none) := by
      rw [utf8Decode, if_pos rfl, if_neg mark, if_neg two, if_neg three, if_pos kind, bits]
    have second := @utf8Decode_more 4 1 (v / 262144 % 8) (v / 4096 % 64) (by omega) (by omega)
    have third := @utf8Decode_more 4 2 (v / 262144 % 8 * 64 + v / 4096 % 64) (v / 64 % 64)
      (by omega) (by omega)
    have last := @utf8Decode_last 3
      ((v / 262144 % 8 * 64 + v / 4096 % 64) * 64 + v / 64 % 64) (v % 64) (by omega)
    rw [whole, utf8Finished_char valid positive (.inr (.inr (.inr ⟨rfl, by omega⟩)))] at last
    refine ⟨4, v, ?_⟩
    simp only [List.map_cons, List.map_nil, List.cons_append, List.nil_append]
    rw [utf8CheckLoop_more (by rw [toNat_ofNat_byte (by omega)]; exact first),
      utf8CheckLoop_more (by rw [toNat_ofNat_byte (by omega)]; exact second),
      utf8CheckLoop_more (by rw [toNat_ofNat_byte (by omega)]; exact third),
      utf8CheckLoop_done (by rw [toNat_ofNat_byte (by omega)]; exact last)]

/-- `utf8_check` accepts the UTF-8 encoding of every text without NUL. -/
theorem utf8Check_utf8Bytes {text : Text} (nul : '\x00' ∉ text) :
    utf8Check (utf8Bytes text) = true := by
  have loop : ∀ (text : Text) (k n : Nat), '\x00' ∉ text →
      utf8CheckLoop ⟨k, k, n⟩ false (utf8Bytes text) = true := by
    intro text
    induction text with
    | nil => exact fun _ _ _ => rfl
    | cons c text ih =>
        intro k n nul
        rw [List.mem_cons, not_or] at nul
        obtain ⟨k', n', run⟩ := utf8CheckLoop_char (Ne.symm nul.1) k n false (utf8Bytes text)
        rw [utf8Bytes, List.flatMap_cons, ← utf8Bytes, run]
        exact ih k' n' nul.2
  exact loop text 0 0 nul

end Payz
