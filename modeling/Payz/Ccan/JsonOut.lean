import Payz.Ccan.Membuf
import Payz.Json.Out
import Payz.Lib.Runs

/-! # The writer in memory

`ccan/json_out` on its buffer, where `Payz.Json.Out` has the text that it writes.  Memory never
runs out.  `none` is an assertion that does not hold, a store outside the buffer, or a load of
what was never written.  A pointer into the buffer is an index.
-/

namespace Payz

open Cells

/-- `struct json_out`. -/
structure JsonOutMem where
  outbuf : Membuf Char
  empty : Bool

/-- `json_out_new`. -/
def jsonOutMemNew : JsonOutMem := ⟨membufInit (List.replicate 64 none), true⟩

/-- `json_out_contents`, the `NULL` of an empty buffer being the empty text. -/
def jsonOutMemContents (jout : JsonOutMem) : Option Text :=
  load jout.outbuf.elems jout.outbuf.start (membufNumElems jout.outbuf)

/-- `json_out_dup`. -/
def jsonOutMemDup (src : JsonOutMem) : Option JsonOutMem := do
  let numElems := membufNumElems src.outbuf
  let pool := (src.outbuf.elems.drop src.outbuf.start).take numElems
  let outbuf ← membufAdded (membufInit pool) numElems
  some ⟨outbuf, src.empty⟩

def mkroom (jout : JsonOutMem) (len : Nat) : JsonOutMem :=
  { jout with outbuf := membufPrepareSpace jout.outbuf len }

/-- A store through a pointer into the buffer. -/
def JsonOutMem.write (jout : JsonOutMem) (dest : Nat) (text : Text) : Option JsonOutMem :=
  (jout.outbuf.write dest text).map fun outbuf => { jout with outbuf }

/-- `membuf_added` on the buffer. -/
def JsonOutMem.added (jout : JsonOutMem) (num : Nat) : Option JsonOutMem :=
  (membufAdded jout.outbuf num).map fun outbuf => { jout with outbuf }

/-- `json_out_member_direct`: a comma if one is required. -/
def jsonOutMemComma (jout : JsonOutMem) (dest : Nat) : Option (JsonOutMem × Nat) :=
  if jout.empty then some (jout, dest)
  else do
    let jout ← jout.write dest [',']
    some (jout, dest + 1)

/-- `json_out_member_direct`: the field name, if there is one. -/
def jsonOutMemFieldname (jout : JsonOutMem) (dest : Nat) :
    Option Text → Option (JsonOutMem × Nat)
  | none => some (jout, dest)
  | some name => do
      let jout ← jout.write dest ['"']
      let jout ← jout.write (dest + 1) name
      let jout ← jout.write (dest + 1 + name.length) ['"']
      let jout ← jout.write (dest + 1 + name.length + 1) [':']
      some (jout, dest + 1 + name.length + 2)

/-- `json_out_member_direct`, with the place for the `extra` characters of the value. -/
def jsonOutMemMemberDirect (jout : JsonOutMem) (fieldname : Option Text) (extra : Nat) :
    Option (JsonOutMem × Nat) := do
  let extra := if jout.empty then extra else extra + 1
  let extra := match fieldname with
    | none => extra
    | some name => extra + (1 + name.length + 2)
  let jout := mkroom jout extra
  let dest := jout.outbuf.stop
  let (jout, dest) ← jsonOutMemComma jout dest
  let (jout, dest) ← jsonOutMemFieldname jout dest fieldname
  let jout ← jout.added extra
  some ({ jout with empty := false }, dest)

/-- `json_out_direct`. -/
def jsonOutMemDirect (jout : JsonOutMem) (len : Nat) : Option (JsonOutMem × Nat) := do
  let jout := mkroom jout len
  let dest := jout.outbuf.stop
  let jout ← jout.added len
  some (jout, dest)

/-- `json_out_start`, with `indent`. -/
def jsonOutMemStart (jout : JsonOutMem) (fieldname : Option Text) (type : Char) :
    Option JsonOutMem := do
  guard (type = '[' ∨ type = '{')
  let (jout, p) ← jsonOutMemMemberDirect jout fieldname 1
  let jout ← jout.write p [type]
  some { jout with empty := true }

/-- `json_out_end`, with `unindent`. -/
def jsonOutMemEnd (jout : JsonOutMem) (type : Char) : Option JsonOutMem := do
  guard (type = '}' ∨ type = ']')
  let (jout, p) ← jsonOutMemDirect jout 1
  let jout ← jout.write p [type]
  some { jout with empty := false }

/-- What `vsnprintf` leaves in `avail` characters: as much of the text as fits in front of the
    terminating zero. -/
def vsnprintf (jout : JsonOutMem) (dst avail : Nat) (text : Text) : Option JsonOutMem :=
  if avail = 0 then some jout else jout.write dst (text.take (avail - 1) ++ ['\x00'])

/-- `json_out_addv`: print in place first, and where that chops off something, once more with
    room for the terminating zero, though it is not wanted.  The quotes are left out. -/
def jsonOutMemPrint (jout : JsonOutMem) (quote : Bool) (text : Text) :
    Option (JsonOutMem × Nat) := do
  let q := if quote then 1 else 0
  let avail := membufNumSpace jout.outbuf
  let avail := if quote then (if avail < 2 then 0 else avail - 2) else avail
  let dst := jout.outbuf.stop
  let jout ← vsnprintf jout (dst + q) avail text
  if text.length + q * 2 ≥ membufNumSpace jout.outbuf then do
    let jout := mkroom jout (text.length + 1 + q * 2)
    let dst := jout.outbuf.stop
    let jout ← jout.write (dst + q) (text ++ ['\x00'])
    some (jout, dst)
  else some (jout, dst)

/-- `json_out_addv`: what has been printed is read again, and replaced if it needs escapes. -/
def jsonOutMemEscape (jout : JsonOutMem) (dst fmtlen : Nat) : Option (JsonOutMem × Nat × Nat) := do
  let printed ← load jout.outbuf.elems (dst + 1) fmtlen
  if jsonEscapeNeeded printed then do
    let e := jsonEscape printed
    let jout := mkroom jout (e.length + 2)
    let dst := jout.outbuf.stop
    let jout ← jout.write (dst + 1) e
    some (jout, dst, e.length)
  else some (jout, dst, fmtlen)

/-- `json_out_addv` and `json_out_add`, of a text that is formatted. -/
def jsonOutMemAdd (jout : JsonOutMem) (fieldname : Option Text) (quote : Bool) (text : Text) :
    Option JsonOutMem := do
  let (jout, _) ← jsonOutMemMemberDirect jout fieldname 0
  let (jout, dst) ← jsonOutMemPrint jout quote text
  if quote then do
    let (jout, dst, fmtlen) ← jsonOutMemEscape jout dst text.length
    let jout ← jout.write dst ['"']
    let jout ← jout.write (dst + fmtlen + 1) ['"']
    jout.added (fmtlen + 2)
  else jout.added text.length

/-- `json_out_addstr`. -/
def jsonOutMemAddstr (jout : JsonOutMem) (fieldname : Option Text) (str : Text) :
    Option JsonOutMem := do
  let str := if jsonEscapeNeeded str then jsonEscape str else str
  let (jout, p) ← jsonOutMemMemberDirect jout fieldname (str.length + 2)
  let jout ← jout.write (p + 1 + str.length) ['"']
  let jout ← jout.write p ['"']
  jout.write (p + 1) str

/-- A text that is there already, as it is: `json_add_jsonstr` and `command_done_raw`. -/
def jsonOutMemJsonstr (jout : JsonOutMem) (fieldname : Option Text) (text : Text) :
    Option JsonOutMem := do
  let (jout, p) ← jsonOutMemMemberDirect jout fieldname text.length
  jout.write p text

/-- `json_out_add_splice`, `p` being the contents of the other writer. -/
def jsonOutMemSplice (jout : JsonOutMem) (fieldname : Option Text) (p : Text) :
    Option (Bool × JsonOutMem) :=
  if p.isEmpty then some (false, jout)
  else (jsonOutMemJsonstr jout fieldname p).map (true, ·)

/-- `json_stream_append`. -/
def jsonOutMemAppend (jout : JsonOutMem) (text : Text) : Option JsonOutMem := do
  let (jout, p) ← jsonOutMemDirect jout text.length
  jout.write p text

/-- `json_out_finished`. -/
def jsonOutMemFinished (jout : JsonOutMem) : JsonOutMem := { jout with empty := true }

/-- `json_out_consume`. -/
def jsonOutMemConsume (jout : JsonOutMem) (len : Nat) : Option JsonOutMem :=
  (membufConsume jout.outbuf len).map fun outbuf => { jout with outbuf }

/-! ## The text in the buffer -/

/-- The writer in memory holds what the writer of text has written. -/
structure JsonOutMem.Shows (jout : JsonOutMem) (out : JsonOut) : Prop where
  queued : jout.outbuf.Queued out.outbuf
  empty : jout.empty = out.empty

variable {jout : JsonOutMem} {out : JsonOut}

theorem shows_new : jsonOutMemNew.Shows jsonOutNew := ⟨membufInit_queued _, rfl⟩

theorem JsonOutMem.Shows.contents (shown : jout.Shows out) :
    jsonOutMemContents jout = some out.outbuf := by
  rw [jsonOutMemContents, shown.queued.numElems]
  exact shown.queued.load

/-! ## One call -/

variable {mb : Membuf Char} {q items : Text} {m n : Nat}

theorem JsonOutMem.write_filled (empty : Bool) (dest : Nat) (text : Text) (n : Nat)
    (filled : mb.Filled q items m) (size : m = text.length + n)
    (here : dest = mb.stop + items.length) :
    ∃ mb', (JsonOutMem.mk mb empty).write dest text = some ⟨mb', empty⟩ ∧ mb'.stop = mb.stop ∧
      mb'.Filled q (items ++ text) n := by
  rw [size] at filled
  obtain ⟨mb', wrote, stop, filled⟩ := filled.write
  refine ⟨mb', ?_, stop, filled⟩
  rw [JsonOutMem.write, here, wrote, Option.map_some]

def commaText (empty : Bool) : Text := if empty then [] else [',']

theorem jsonOutMemComma_filled (empty : Bool) (dest : Nat) (filled : mb.Filled q items m)
    (size : m = (commaText empty).length + n) (here : dest = mb.stop + items.length) :
    ∃ mb', jsonOutMemComma ⟨mb, empty⟩ dest =
        some (⟨mb', empty⟩, dest + (commaText empty).length) ∧
      mb'.stop = mb.stop ∧ mb'.Filled q (items ++ commaText empty) n := by
  cases empty with
  | true =>
      rw [commaText, if_pos rfl, List.length_nil, Nat.zero_add] at size
      refine ⟨mb, rfl, rfl, ?_⟩
      rw [commaText, if_pos rfl, List.append_nil, ← size]
      exact filled
  | false =>
      obtain ⟨mb', wrote, stop, filled⟩ := JsonOutMem.write_filled false dest [','] n filled size here
      refine ⟨mb', ?_, stop, filled⟩
      rw [jsonOutMemComma, wrote]
      rfl

def fieldText : Option Text → Text
  | none => []
  | some name => '"' :: (name ++ ['"', ':'])

theorem jsonOutMemFieldname_filled (empty : Bool) (dest : Nat) (fieldname : Option Text)
    (filled : mb.Filled q items m) (size : m = (fieldText fieldname).length + n)
    (here : dest = mb.stop + items.length) :
    ∃ mb', jsonOutMemFieldname ⟨mb, empty⟩ dest fieldname =
        some (⟨mb', empty⟩, dest + (fieldText fieldname).length) ∧
      mb'.stop = mb.stop ∧ mb'.Filled q (items ++ fieldText fieldname) n := by
  cases fieldname with
  | none =>
      rw [fieldText, List.length_nil, Nat.zero_add] at size
      refine ⟨mb, rfl, rfl, ?_⟩
      rw [fieldText, List.append_nil, ← size]
      exact filled
  | some name =>
      simp only [fieldText, List.length_cons, List.length_append, List.length_nil] at size
      obtain ⟨b₁, wrote₁, stop₁, filled₁⟩ :=
        JsonOutMem.write_filled empty dest ['"'] (name.length + 2 + n) filled (by simp; omega) here
      obtain ⟨b₂, wrote₂, stop₂, filled₂⟩ :=
        JsonOutMem.write_filled empty (dest + 1) name (2 + n) filled₁ (by omega)
          (by simp [here, stop₁]; rfl)
      obtain ⟨b₃, wrote₃, stop₃, filled₃⟩ :=
        JsonOutMem.write_filled empty (dest + 1 + name.length) ['"'] (1 + n) filled₂
          (by simp; omega) (by simp [here, stop₁, stop₂]; omega)
      obtain ⟨b₄, wrote₄, stop₄, filled₄⟩ :=
        JsonOutMem.write_filled empty (dest + 1 + name.length + 1) [':'] n filled₃ (by simp)
          (by simp [here, stop₁, stop₂, stop₃]; omega)
      refine ⟨b₄, ?_, ?_, by simpa [fieldText] using filled₄⟩
      · have ends : dest + 1 + name.length + 2 = dest + (fieldText (some name)).length := by
          simp [fieldText]
          omega
        simp only [jsonOutMemFieldname, Option.bind_eq_bind, wrote₁, wrote₂, wrote₃, wrote₄,
          Option.bind_some, ends]
      · rw [stop₄, stop₃, stop₂, stop₁]

theorem jsonOutMemberDirect_outbuf (out : JsonOut) (fieldname : Option Text) :
    (jsonOutMemberDirect out fieldname).outbuf =
      out.outbuf ++ commaText out.empty ++ fieldText fieldname := by
  cases fieldname <;> simp [jsonOutMemberDirect, commaText, fieldText]

/-- The field name is in the buffer, and the value may be written behind it. -/
theorem JsonOutMem.Shows.memberDirect (shown : jout.Shows out) (fieldname : Option Text)
    (extra : Nat) :
    ∃ mb p, jsonOutMemMemberDirect jout fieldname extra = some (⟨mb, false⟩, p) ∧
      mb.Reserved (jsonOutMemberDirect out fieldname).outbuf extra p := by
  unfold jsonOutMemMemberDirect
  have total : (match fieldname with
      | none => if jout.empty then extra else extra + 1
      | some name => (if jout.empty then extra else extra + 1) + (1 + name.length + 2)) =
        (commaText jout.empty).length + ((fieldText fieldname).length + extra) := by
    cases jout.empty <;> cases fieldname <;> simp [commaText, fieldText] <;> omega
  dsimp only
  rw [total, mkroom]
  obtain ⟨queued, room⟩ := shown.queued.prepareSpace
    ((commaText jout.empty).length + ((fieldText fieldname).length + extra))
  generalize membufPrepareSpace jout.outbuf _ = mb at queued room
  obtain ⟨b₁, comma, stop₁, filled₁⟩ :=
    jsonOutMemComma_filled jout.empty mb.stop (queued.filled room) rfl rfl
  obtain ⟨b₂, field, stop₂, filled₂⟩ :=
    jsonOutMemFieldname_filled jout.empty (mb.stop + (commaText jout.empty).length) fieldname
      filled₁ rfl (by rw [stop₁]; rfl)
  obtain ⟨b₃, added, reserved⟩ := filled₂.added
  have size : ([] ++ commaText jout.empty ++ fieldText fieldname).length + extra =
      (commaText jout.empty).length + ((fieldText fieldname).length + extra) := by
    rw [List.nil_append, List.length_append, Nat.add_assoc]
  refine ⟨b₃, mb.stop + (commaText jout.empty).length + (fieldText fieldname).length, ?_, ?_⟩
  · rw [size] at added
    simp only [Option.bind_eq_bind, comma, Option.bind_some, field, JsonOutMem.added, added,
      Option.map_some]
  · rw [jsonOutMemberDirect_outbuf, ← shown.empty, List.append_assoc, Nat.add_assoc,
      ← List.length_append, ← stop₁, ← stop₂]
    exact reserved

theorem JsonOutMem.Shows.direct (shown : jout.Shows out) (len : Nat) :
    ∃ mb p, jsonOutMemDirect jout len = some (⟨mb, jout.empty⟩, p) ∧
      mb.Reserved out.outbuf len p := by
  obtain ⟨queued, room⟩ := shown.queued.prepareSpace len
  obtain ⟨mb, added, reserved⟩ := (queued.filled room).added
  rw [List.length_nil, Nat.zero_add] at added
  rw [List.append_nil, List.length_nil, Nat.add_zero] at reserved
  refine ⟨mb, _, ?_, reserved⟩
  rw [jsonOutMemDirect]
  simp only [Option.bind_eq_bind, mkroom, JsonOutMem.added, added, Option.map_some,
    Option.bind_some]

theorem JsonOutMem.write_reserved (empty : Bool) {p : Nat} (text : Text)
    (reserved : mb.Reserved q text.length p) :
    ∃ mb', (JsonOutMem.mk mb empty).write p text = some ⟨mb', empty⟩ ∧ mb'.Queued (q ++ text) := by
  obtain ⟨mb', wrote, reserved⟩ := Membuf.Reserved.write (n := 0) reserved
  refine ⟨mb', ?_, reserved.queued⟩
  rw [JsonOutMem.write, wrote, Option.map_some]

theorem JsonOutMem.Shows.start (shown : jout.Shows out) (fieldname : Option Text) {type : Char}
    (opens : type = '[' ∨ type = '{') :
    ∃ jout', jsonOutMemStart jout fieldname type = some jout' ∧
      jout'.Shows (jsonOutStart out fieldname type opens) := by
  obtain ⟨mb, p, member, reserved⟩ := shown.memberDirect fieldname 1
  obtain ⟨mb', wrote, queued⟩ := JsonOutMem.write_reserved false [type] reserved
  refine ⟨⟨mb', true⟩, ?_, queued, rfl⟩
  simp only [jsonOutMemStart, guard, if_pos opens, Option.pure_def, member, Option.bind_eq_bind,
    Option.bind_some, wrote]

theorem JsonOutMem.Shows.close (shown : jout.Shows out) {type : Char}
    (closes : type = '}' ∨ type = ']') :
    ∃ jout', jsonOutMemEnd jout type = some jout' ∧ jout'.Shows (jsonOutEnd out type closes) := by
  obtain ⟨mb, p, direct, reserved⟩ := shown.direct 1
  obtain ⟨mb', wrote, queued⟩ := JsonOutMem.write_reserved jout.empty [type] reserved
  refine ⟨⟨mb', false⟩, ?_, queued, rfl⟩
  simp only [jsonOutMemEnd, guard, if_pos closes, Option.pure_def, direct, Option.bind_eq_bind,
    Option.bind_some, wrote]

theorem jsonOutMemStart_none {type : Char} (jout : JsonOutMem) (fieldname : Option Text)
    (other : ¬ (type = '[' ∨ type = '{')) : jsonOutMemStart jout fieldname type = none := by
  rw [jsonOutMemStart, guard, if_neg other]
  rfl

theorem jsonOutMemEnd_none {type : Char} (jout : JsonOutMem)
    (other : ¬ (type = '}' ∨ type = ']')) : jsonOutMemEnd jout type = none := by
  rw [jsonOutMemEnd, guard, if_neg other]
  rfl

theorem JsonOutMem.Shows.jsonstr (shown : jout.Shows out) (fieldname : Option Text) (text : Text) :
    ∃ jout', jsonOutMemJsonstr jout fieldname text = some jout' ∧
      jout'.Shows (jsonOutAdd out fieldname false text) := by
  obtain ⟨mb, p, member, reserved⟩ := shown.memberDirect fieldname text.length
  obtain ⟨mb', wrote, queued⟩ := JsonOutMem.write_reserved false text reserved
  refine ⟨⟨mb', false⟩, ?_, queued, rfl⟩
  simp only [jsonOutMemJsonstr, member, Option.bind_eq_bind, Option.bind_some, wrote]

theorem JsonOutMem.Shows.append (shown : jout.Shows out) (text : Text) :
    ∃ jout', jsonOutMemAppend jout text = some jout' ∧
      jout'.Shows { out with outbuf := out.outbuf ++ text } := by
  obtain ⟨mb, p, direct, reserved⟩ := shown.direct text.length
  obtain ⟨mb', wrote, queued⟩ := JsonOutMem.write_reserved jout.empty text reserved
  refine ⟨⟨mb', jout.empty⟩, ?_, queued, shown.empty⟩
  simp only [jsonOutMemAppend, direct, Option.bind_eq_bind, Option.bind_some, wrote]

theorem holds_quoted {cells : List (Option Char)} {p : Nat} {str : Text}
    (first : Holds cells p ['"']) (text : Holds cells (p + 1) str)
    (last : Holds cells (p + 1 + str.length) ['"']) :
    Holds cells p ('"' :: (str ++ ['"'])) :=
  (holds_append : Holds cells p (['"'] ++ _) ↔ _).mpr ⟨first, holds_append.mpr ⟨text, last⟩⟩

theorem JsonOutMem.Shows.addstr (shown : jout.Shows out) (fieldname : Option Text) (str : Text) :
    ∃ jout', jsonOutMemAddstr jout fieldname str = some jout' ∧
      jout'.Shows (jsonAddString out fieldname str) := by
  rw [jsonOutMemAddstr, jsonAddString, jsonOutAdd, if_pos rfl]
  generalize (if jsonEscapeNeeded str then jsonEscape str else str) = str
  obtain ⟨mb, p, member, reserved⟩ := shown.memberDirect fieldname (str.length + 2)
  obtain ⟨b₁, wrote₁, reserved₁, stored₁⟩ := reserved.store (1 + str.length) ['"'] (by simp; omega)
  obtain ⟨b₂, wrote₂, reserved₂, stored₂⟩ := reserved₁.store 0 ['"'] (by simp)
  obtain ⟨b₃, wrote₃, reserved₃, stored₃⟩ := reserved₂.store 1 str (by omega)
  rw [← Nat.add_assoc] at wrote₁ stored₁
  rw [Nat.add_zero] at wrote₂ stored₂
  have first := stored₃.elsewhere p ['"'] stored₂.here (.inl le_rfl)
  have last : Holds b₃.elems (p + 1 + str.length) ['"'] :=
    stored₃.elsewhere _ _ (stored₂.elsewhere _ _ stored₁.here (.inr (by simp)))
      (.inr (by omega))
  refine ⟨⟨b₃, false⟩, ?_, ?_, rfl⟩
  · simp only [member, Option.bind_eq_bind, Option.bind_some, JsonOutMem.write, wrote₁, wrote₂,
      wrote₃, Option.map_some]
  · refine Membuf.Reserved.filled ?_ (holds_quoted first stored₃.here last)
    simpa using reserved₃

/-- A queue with cells in front of it that the caller may write to before they are added. -/
theorem vsnprintf_queued {p : Nat} (empty : Bool) (avail : Nat) (text : Text)
    (queued : mb.Queued q) (behind : mb.stop ≤ p)
    (room : 0 < avail → p + avail ≤ mb.elems.length) :
    ∃ mb', vsnprintf ⟨mb, empty⟩ p avail text = some ⟨mb', empty⟩ ∧ mb'.Queued q ∧
      mb'.stop = mb.stop ∧ mb'.elems.length = mb.elems.length ∧
      (text.length < avail → Holds mb'.elems p text) := by
  rw [vsnprintf]
  split_ifs with none
  · exact ⟨mb, rfl, queued, rfl, rfl, fun fits => by omega⟩
  · have size : (text.take (avail - 1) ++ ['\x00']).length ≤ avail := by
      rw [List.length_append, List.length_take, List.length_singleton]
      omega
    obtain ⟨mb', wrote, queued', stop, stored⟩ :=
      queued.write p (text.take (avail - 1) ++ ['\x00']) behind (by omega)
    refine ⟨mb', ?_, queued', stop, stored.length, fun fits => ?_⟩
    · rw [JsonOutMem.write, wrote, Option.map_some]
    · have here := stored.here
      rw [List.take_of_length_le (by omega)] at here
      exact (holds_append.mp here).1

/-- The text has been printed behind the queue, with room for the quotes. -/
theorem jsonOutMemPrint_queued (empty quote : Bool) (text : Text) (queued : mb.Queued q) :
    ∃ mb', jsonOutMemPrint ⟨mb, empty⟩ quote text = some (⟨mb', empty⟩, mb'.stop) ∧
      mb'.Queued q ∧ Holds mb'.elems (mb'.stop + if quote then 1 else 0) text ∧
      text.length + (if quote then 1 else 0) * 2 ≤ membufNumSpace mb' := by
  unfold jsonOutMemPrint
  have inside := mb.inside
  generalize width : (if quote then 1 else 0) = w
  have narrow : w ≤ 1 := by
    rw [← width]
    split_ifs <;> omega
  have given : (if quote then (if membufNumSpace mb < 2 then 0 else membufNumSpace mb - 2)
      else membufNumSpace mb) = membufNumSpace mb - w * 2 := by
    rw [← width]
    split_ifs <;> omega
  dsimp only
  rw [given]
  obtain ⟨b₁, printed, queued₁, stop₁, size₁, here₁⟩ :=
    vsnprintf_queued empty (membufNumSpace mb - w * 2) text queued
      (Nat.le_add_right mb.stop w) (fun _ => by
        rw [membufNumSpace] at *
        omega)
  have space₁ : membufNumSpace b₁ = membufNumSpace mb := by
    rw [membufNumSpace, membufNumSpace, stop₁, size₁]
  simp only [Option.bind_eq_bind, printed, Option.bind_some, space₁]
  split_ifs with chopped
  · obtain ⟨queued₂, room₂⟩ := queued₁.prepareSpace (text.length + 1 + w * 2)
    rw [mkroom]
    generalize membufPrepareSpace b₁ _ = b₂ at queued₂ room₂
    have inside₂ := b₂.inside
    rw [membufNumSpace] at room₂
    obtain ⟨b₃, wrote, queued₃, stop₃, stored⟩ :=
      queued₂.write (b₂.stop + w) (text ++ ['\x00']) (Nat.le_add_right _ _) (by simp; omega)
    refine ⟨b₃, ?_, queued₃, ?_, ?_⟩
    · simp only [JsonOutMem.write, wrote, Option.map_some, Option.bind_some, stop₃]
    · rw [stop₃]
      exact (holds_append.mp stored.here).1
    · rw [membufNumSpace, stop₃, stored.length]
      omega
  · refine ⟨b₁, by rw [stop₁], queued₁, ?_, by omega⟩
    rw [stop₁]
    exact here₁ (by omega)

theorem jsonOutMemEscape_queued (empty : Bool) {text : Text} (queued : mb.Queued q)
    (here : Holds mb.elems (mb.stop + 1) text) (room : text.length + 2 ≤ membufNumSpace mb) :
    ∃ mb' text', text' = (if jsonEscapeNeeded text then jsonEscape text else text) ∧
      jsonOutMemEscape ⟨mb, empty⟩ mb.stop text.length =
        some (⟨mb', empty⟩, mb'.stop, text'.length) ∧
      mb'.Queued q ∧ Holds mb'.elems (mb'.stop + 1) text' ∧
      text'.length + 2 ≤ membufNumSpace mb' := by
  rw [membufNumSpace] at room
  have inside := mb.inside
  rw [jsonOutMemEscape, here.load (by omega)]
  simp only [Option.bind_eq_bind, Option.bind_some]
  split_ifs with needed
  · obtain ⟨queued₁, room₁⟩ := queued.prepareSpace ((jsonEscape text).length + 2)
    rw [mkroom]
    generalize membufPrepareSpace mb _ = b₁ at queued₁ room₁
    have inside₁ := b₁.inside
    rw [membufNumSpace] at room₁
    obtain ⟨b₂, wrote, queued₂, stop₂, stored⟩ :=
      queued₁.write (b₁.stop + 1) (jsonEscape text) (Nat.le_add_right _ _) (by omega)
    refine ⟨b₂, _, rfl, ?_, queued₂, ?_, ?_⟩
    · simp only [JsonOutMem.write, wrote, Option.map_some, Option.bind_some, stop₂]
    · rw [stop₂]
      exact stored.here
    · rw [membufNumSpace, stop₂, stored.length]
      omega
  · exact ⟨mb, _, rfl, rfl, queued, here, by rw [membufNumSpace]; omega⟩

theorem JsonOutMem.Shows.add (shown : jout.Shows out) (fieldname : Option Text) (quote : Bool)
    (text : Text) :
    ∃ jout', jsonOutMemAdd jout fieldname quote text = some jout' ∧
      jout'.Shows (jsonOutAdd out fieldname quote text) := by
  obtain ⟨mb, p, member, reserved⟩ := shown.memberDirect fieldname 0
  obtain ⟨b₁, printed, queued₁, here₁, room₁⟩ :=
    jsonOutMemPrint_queued false quote text reserved.queued
  simp only [jsonOutMemAdd, member, Option.bind_eq_bind, Option.bind_some, printed]
  cases quote with
  | false =>
      have filled : b₁.Filled (jsonOutMemberDirect out fieldname).outbuf text 0 :=
        ⟨queued₁, here₁, room₁⟩
      obtain ⟨b₂, added, reserved₂⟩ := filled.added
      refine ⟨⟨b₂, false⟩, ?_, reserved₂.queued, rfl⟩
      rw [Nat.add_zero] at added
      simp only [Bool.false_eq_true, if_false, JsonOutMem.added, added, Option.map_some]
  | true =>
      obtain ⟨b₂, text', rfl, escaped, queued₂, here₂, room₂⟩ :=
        jsonOutMemEscape_queued false queued₁ here₁ room₁
      have spelled : (jsonOutAdd out fieldname true text).outbuf =
          (jsonOutMemberDirect out fieldname).outbuf ++
            '"' :: ((if jsonEscapeNeeded text then jsonEscape text else text) ++ ['"']) := rfl
      generalize (if jsonEscapeNeeded text then jsonEscape text else text) = text' at *
      have inside₂ := b₂.inside
      rw [membufNumSpace] at room₂
      obtain ⟨b₃, wrote₃, queued₃, stop₃, stored₃⟩ :=
        queued₂.write b₂.stop ['"'] le_rfl (by simp; omega)
      obtain ⟨b₄, wrote₄, queued₄, stop₄, stored₄⟩ :=
        queued₃.write (b₂.stop + text'.length + 1) ['"'] (by rw [stop₃]; omega)
          (by rw [stored₃.length]; simp; omega)
      have first := stored₄.elsewhere _ _ stored₃.here (.inl (by simp))
      have value := stored₄.elsewhere _ _ (stored₃.elsewhere _ _ here₂ (.inr le_rfl))
        (.inl (by omega))
      have last := stored₄.here
      rw [Nat.add_right_comm] at last
      have filled : b₄.Filled (jsonOutMemberDirect out fieldname).outbuf
          ('"' :: (text' ++ ['"'])) 0 := by
        refine ⟨queued₄, ?_, ?_⟩
        · rw [stop₄, stop₃]
          exact holds_quoted first value last
        · rw [membufNumSpace, stop₄, stop₃, stored₄.length, stored₃.length]
          simp
          omega
      obtain ⟨b₅, added, reserved₅⟩ := filled.added
      have size : ('"' :: (text' ++ ['"'])).length + 0 = text'.length + 2 := by simp
      rw [size] at added
      refine ⟨⟨b₅, false⟩, ?_, ?_, rfl⟩
      · simp only [if_true, escaped, Option.bind_some, JsonOutMem.write, wrote₃, wrote₄,
          Option.map_some, JsonOutMem.added, added]
      · rw [spelled]
        exact reserved₅.queued

theorem JsonOutMem.Shows.finished (shown : jout.Shows out) :
    (jsonOutMemFinished jout).Shows { out with empty := true } := ⟨shown.queued, rfl⟩

theorem JsonOutMem.Shows.consume {len : Nat} (shown : jout.Shows out)
    (within : len ≤ out.outbuf.length) :
    ∃ jout', jsonOutMemConsume jout len = some jout' ∧
      jout'.Shows { out with outbuf := out.outbuf.drop len } := by
  obtain ⟨mb, consumed, queued⟩ := shown.queued.consume within
  refine ⟨⟨mb, jout.empty⟩, ?_, queued, shown.empty⟩
  rw [jsonOutMemConsume, consumed, Option.map_some]

theorem JsonOutMem.Shows.not_consume {len : Nat} (shown : jout.Shows out)
    (beyond : ¬ len ≤ out.outbuf.length) : jsonOutMemConsume jout len = none := by
  rw [jsonOutMemConsume, membufConsume, dif_neg, Option.map_none]
  rwa [shown.queued.numElems]

theorem JsonOutMem.Shows.dup (shown : jout.Shows out) :
    ∃ jout', jsonOutMemDup jout = some jout' ∧ jout'.Shows out := by
  have size := shown.queued.numElems
  have inside := jout.outbuf.inside
  have stop := shown.queued.stop
  have filled : (membufInit ((jout.outbuf.elems.drop jout.outbuf.start).take
      out.outbuf.length)).Filled [] out.outbuf 0 := by
    refine ⟨membufInit_queued _, shown.queued.holds.copied, ?_⟩
    simp only [membufNumSpace, membufInit, List.length_take, List.length_drop]
    omega
  obtain ⟨mb, added, reserved⟩ := filled.added
  refine ⟨⟨mb, jout.empty⟩, ?_, reserved.queued, shown.empty⟩
  rw [Nat.add_zero] at added
  simp only [jsonOutMemDup, size, added, Option.bind_eq_bind, Option.bind_some]

/-! ## Any calls in any order -/

inductive JsonOutCall where
  | start (fieldname : Option Text) (type : Char)
  | close (type : Char)
  | add (fieldname : Option Text) (quote : Bool) (text : Text)
  | addstr (fieldname : Option Text) (str : Text)
  | splice (fieldname : Option Text) (p : Text)
  | jsonstr (fieldname : Option Text) (text : Text)
  | append (text : Text)
  | finished
  | dup
  | contents
  | consume (len : Nat)

inductive JsonOutAnswer where
  | done
  | refused
  | contents (text : Text)

/-- The `bool` of `json_out_add_splice`. -/
def JsonOutAnswer.ofBool (ok : Bool) : JsonOutAnswer := if ok then .done else .refused

def JsonOutMem.call (jout : JsonOutMem) : JsonOutCall → Option (JsonOutAnswer × JsonOutMem)
  | .start fieldname type => (jsonOutMemStart jout fieldname type).map (.done, ·)
  | .close type => (jsonOutMemEnd jout type).map (.done, ·)
  | .add fieldname quote text => (jsonOutMemAdd jout fieldname quote text).map (.done, ·)
  | .addstr fieldname str => (jsonOutMemAddstr jout fieldname str).map (.done, ·)
  | .splice fieldname p =>
      (jsonOutMemSplice jout fieldname p).map fun (ok, jout) => (.ofBool ok, jout)
  | .jsonstr fieldname text => (jsonOutMemJsonstr jout fieldname text).map (.done, ·)
  | .append text => (jsonOutMemAppend jout text).map (.done, ·)
  | .finished => some (.done, jsonOutMemFinished jout)
  | .dup => (jsonOutMemDup jout).map (.done, ·)
  | .contents => (jsonOutMemContents jout).map fun text => (.contents text, jout)
  | .consume len => (jsonOutMemConsume jout len).map (.done, ·)

/-- The same call on the text.  What fails is opening or closing with another character than a
    bracket, and consuming more than there is. -/
def JsonOut.call (out : JsonOut) : JsonOutCall → Option (JsonOutAnswer × JsonOut)
  | .start fieldname type =>
      if opens : type = '[' ∨ type = '{' then some (.done, jsonOutStart out fieldname type opens)
      else none
  | .close type =>
      if closes : type = '}' ∨ type = ']' then some (.done, jsonOutEnd out type closes) else none
  | .add fieldname quote text => some (.done, jsonOutAdd out fieldname quote text)
  | .addstr fieldname str => some (.done, jsonAddString out fieldname str)
  | .splice fieldname p =>
      some (.ofBool (jsonOutAddSplice out fieldname p).1, (jsonOutAddSplice out fieldname p).2)
  | .jsonstr fieldname text => some (.done, jsonOutAdd out fieldname false text)
  | .append text => some (.done, { out with outbuf := out.outbuf ++ text })
  | .finished => some (.done, { out with empty := true })
  | .dup => some (.done, out)
  | .contents => some (.contents out.outbuf, out)
  | .consume len =>
      if len ≤ out.outbuf.length then some (.done, { out with outbuf := out.outbuf.drop len })
      else none

/-- Both fail, or both answer the same and still belong together. -/
abbrev JsonOutMem.Alike :
    Option (JsonOutAnswer × JsonOutMem) → Option (JsonOutAnswer × JsonOut) → Prop :=
  Option.Rel fun x y => x.1 = y.1 ∧ x.2.Shows y.2

theorem JsonOutMem.Alike.of_exists {made : Option JsonOutMem}
    (one : ∃ jout', made = some jout' ∧ jout'.Shows out) :
    JsonOutMem.Alike (made.map (.done, ·)) (some (.done, out)) := by
  obtain ⟨jout', rfl, shown⟩ := one
  exact .some ⟨rfl, shown⟩

theorem JsonOutMem.Shows.call (shown : jout.Shows out) (c : JsonOutCall) :
    JsonOutMem.Alike (jout.call c) (out.call c) := by
  cases c with
  | start fieldname type =>
      rw [JsonOutMem.call, JsonOut.call]
      split_ifs with opens
      · exact .of_exists (shown.start fieldname opens)
      · rw [jsonOutMemStart_none jout fieldname opens]
        exact .none
  | close type =>
      rw [JsonOutMem.call, JsonOut.call]
      split_ifs with closes
      · exact .of_exists (shown.close closes)
      · rw [jsonOutMemEnd_none jout closes]
        exact .none
  | add fieldname quote text => exact .of_exists (shown.add fieldname quote text)
  | addstr fieldname str => exact .of_exists (shown.addstr fieldname str)
  | splice fieldname p =>
      rw [JsonOutMem.call, JsonOut.call, jsonOutMemSplice, jsonOutAddSplice]
      split_ifs with none
      · exact .some ⟨rfl, shown⟩
      · rw [Option.map_map]
        exact .of_exists (shown.jsonstr fieldname p)
  | jsonstr fieldname text => exact .of_exists (shown.jsonstr fieldname text)
  | append text => exact .of_exists (shown.append text)
  | finished => exact .some ⟨rfl, shown.finished⟩
  | dup => exact .of_exists shown.dup
  | contents =>
      rw [JsonOutMem.call, shown.contents]
      exact .some ⟨rfl, shown⟩
  | consume len =>
      rw [JsonOutMem.call, JsonOut.call]
      split_ifs with within
      · exact .of_exists (shown.consume within)
      · rw [shown.not_consume within]
        exact .none

/-- From a new writer on, any calls stay inside the memory of the buffer, however often it is
    moved or enlarged, and read the text that the writer of text has. -/
theorem json_out_calls_as_text (cs : List JsonOutCall) :
    (Runs.callsM JsonOutMem.call jsonOutMemNew cs).map Prod.fst =
      (Runs.callsM JsonOut.call jsonOutNew cs).map Prod.fst := by
  have alike := Runs.callsM_alike (R := JsonOutMem.Shows)
    (fun _ _ c shown => shown.call c) shows_new cs
  generalize Runs.callsM JsonOutMem.call _ cs = run, Runs.callsM JsonOut.call _ cs = run' at alike
  cases alike with
  | none => rfl
  | some both => exact congrArg some both.1

end Payz
