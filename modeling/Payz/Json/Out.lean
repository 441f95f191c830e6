import Payz.Json.Parse

/-! # Writing JSON text

`ccan/json_out`, `common/json_stream.c` and `ccan/json_escape`.  The build does not
define `CCAN_JSON_OUT_DEBUG`, so `check_fieldname` checks nothing and field names
are written as they are.
-/

namespace Payz

open Layout

def jsonEscapeNeeded (t : Text) : Bool :=
  t.any fun c => c.toNat < 32 || c.toNat == 127 || c == '"' || c == '\\'

/-- One digit of `"%04X"`. -/
def hexDigitUpper (n : Nat) : Char :=
  if n % 16 < 10 then Char.ofNat (48 + n % 16) else Char.ofNat (55 + n % 16)

/-- What `escape` writes for one character when it is not asked to leave existing
    escapes alone. -/
def escapeChar (c : Char) : Text :=
  if c = '\n' then ['\\', 'n']
  else if c = '\x08' then ['\\', 'b']
  else if c = '\x0c' then ['\\', 'f']
  else if c = '\t' then ['\\', 't']
  else if c = '\r' then ['\\', 'r']
  else if c = '\\' ∨ c = '"' then ['\\', c]
  else if c.toNat < 32 ∨ c.toNat = 127 then
    ['\\', 'u', hexDigitUpper (c.toNat / 4096), hexDigitUpper (c.toNat / 256),
      hexDigitUpper (c.toNat / 16), hexDigitUpper c.toNat]
  else [c]

/-- `json_escape` and `json_escape_len`. -/
def jsonEscape (t : Text) : Text := t.flatMap escapeChar

/-- `json_escape_unescape`: `none` for an escape it does not handle, `\u` among
    them. -/
def jsonEscapeUnescape : Text → Option Text
  | [] => some []
  | '\\' :: e :: rest =>
      if e = 'n' then (jsonEscapeUnescape rest).map ('\n' :: ·)
      else if e = 'b' then (jsonEscapeUnescape rest).map ('\x08' :: ·)
      else if e = 'f' then (jsonEscapeUnescape rest).map ('\x0c' :: ·)
      else if e = 't' then (jsonEscapeUnescape rest).map ('\t' :: ·)
      else if e = 'r' then (jsonEscapeUnescape rest).map ('\r' :: ·)
      else if e = '/' ∨ e = '\\' ∨ e = '"' then (jsonEscapeUnescape rest).map (e :: ·)
      else none
  | c :: rest => if c = '\\' then none else (jsonEscapeUnescape rest).map (c :: ·)

/-- `struct json_out`: `empty` until the current container has an element. -/
structure JsonOut where
  outbuf : Text
  empty : Bool
  deriving Repr, DecidableEq

def jsonOutNew : JsonOut := ⟨[], true⟩

/-- `json_out_member_direct`: a comma if one is due, then the field name. -/
def jsonOutMemberDirect (out : JsonOut) (fieldname : Option Text) : JsonOut where
  outbuf := out.outbuf ++ (if out.empty then [] else [',']) ++
    match fieldname with
    | none => []
    | some name => '"' :: (name ++ ['"', ':'])
  empty := false

theorem opens_array : '[' = '[' ∨ '[' = '{' := .inl rfl

theorem opens_object : '{' = '[' ∨ '{' = '{' := .inr rfl

theorem closes_object : '}' = '}' ∨ '}' = ']' := .inl rfl

theorem closes_array : ']' = '}' ∨ ']' = ']' := .inr rfl

/-- `json_out_start`.  What it asserts of `type` is for its callers to prove. -/
def jsonOutStart (out : JsonOut) (fieldname : Option Text) (type : Char)
    (_opens : type = '[' ∨ type = '{' := by first | exact opens_array | exact opens_object) :
    JsonOut where
  outbuf := (jsonOutMemberDirect out fieldname).outbuf ++ [type]
  empty := true

/-- `json_out_end`, which asserts likewise. -/
def jsonOutEnd (out : JsonOut) (type : Char)
    (_closes : type = '}' ∨ type = ']' := by first | exact closes_object | exact closes_array) :
    JsonOut where
  outbuf := out.outbuf ++ [type]
  empty := false

/-- `json_out_add` and `json_add_member`, after formatting: a quoted value is
    escaped if it has to be. -/
def jsonOutAdd (out : JsonOut) (fieldname : Option Text) (quote : Bool) (value : Text) : JsonOut :=
  let out := jsonOutMemberDirect out fieldname
  { out with
    outbuf := out.outbuf ++
      if quote then
        '"' :: ((if jsonEscapeNeeded value then jsonEscape value else value) ++ ['"'])
      else value }

/-- `json_out_add_splice`, `p` being the contents of the other writer.  From one that has none
    nothing is copied, not even the field name, and the caller is told so. -/
def jsonOutAddSplice (out : JsonOut) (fieldname : Option Text) (p : Text) : Bool × JsonOut :=
  if p.isEmpty then (false, out) else (true, jsonOutAdd out fieldname false p)

/-- `json_add_tok`: the text of the datum, verbatim. -/
def jsonAddTok (out : JsonOut) (fieldname : Option Text) (j : Json) : JsonOut :=
  let out := jsonOutMemberDirect out fieldname
  { out with outbuf := out.outbuf ++ j.jsonTokFull }

def jsonAddString (out : JsonOut) (fieldname : Option Text) (value : Text) : JsonOut :=
  jsonOutAdd out fieldname true value

def jsonAddU32 (out : JsonOut) (fieldname : Option Text) (value : UInt32) : JsonOut :=
  jsonOutAdd out fieldname false (formatU value.toNat)

/-- The `"%d"` conversion. -/
def formatD : Int → Text
  | .ofNat n => formatU n
  | .negSucc n => '-' :: formatU (n + 1)

def jsonAddErrcode (out : JsonOut) (fieldname : Option Text) (code : Int) : JsonOut :=
  jsonOutAdd out fieldname false (formatD code)

/-! ## Escaping -/

theorem escapeChar_eq_self {c : Char} (plain : jsonEscapeNeeded [c] = false) :
    escapeChar c = [c] := by
  simp only [jsonEscapeNeeded, List.any_cons, List.any_nil, Bool.or_false, Bool.or_eq_false_iff,
    decide_eq_false_iff_not, beq_eq_false_iff_ne, ne_eq] at plain
  obtain ⟨⟨⟨low, del⟩, quote⟩, backslash⟩ := plain
  have control : ∀ d : Char, d.toNat < 32 → c ≠ d := by
    rintro d below rfl
    exact low below
  simp [escapeChar, control '\n' (by decide), control '\x08' (by decide),
    control '\x0c' (by decide), control '\t' (by decide), control '\r' (by decide), quote,
    backslash, low, del]

theorem jsonEscape_eq_self {t : Text} (plain : jsonEscapeNeeded t = false) :
    jsonEscape t = t := by
  induction t with
  | nil => rfl
  | cons c t ih =>
      have both : jsonEscapeNeeded [c] = false ∧ jsonEscapeNeeded t = false := by
        simpa [jsonEscapeNeeded] using plain
      simp only [jsonEscape, List.flatMap_cons, escapeChar_eq_self both.1] at ih ⊢
      rw [ih both.2]
      rfl

theorem StringText.of_unescaped {t : Text} (plain : jsonEscapeNeeded t = false) : StringText t := by
  refine .of_forall fun c member => ?_
  have here := List.any_eq_false.mp plain c member
  simp only [Bool.or_eq_true, decide_eq_true_eq, beq_iff_eq, not_or] at here
  refine ⟨here.1.2, here.2, ?_⟩
  rintro rfl
  exact here.1.1.1 (by decide)

/-- The writer's shortcut for values without special characters is no different
    from escaping them. -/
theorem jsonAddString_eq (out : JsonOut) (fieldname : Option Text) (value : Text) :
    jsonAddString out fieldname value = jsonAddTok out fieldname (.string (jsonEscape value)) := by
  by_cases needed : jsonEscapeNeeded value = true
  · simp [jsonAddString, jsonOutAdd, jsonAddTok, Json.jsonTokFull, needed]
  · simp [jsonAddString, jsonOutAdd, jsonAddTok, Json.jsonTokFull, needed,
      jsonEscape_eq_self (Bool.eq_false_iff.mpr needed)]

theorem isHexDigit_hexDigitUpper (n : Nat) : isHexDigit (hexDigitUpper n) = true := by
  have bound : n % 16 < 16 := Nat.mod_lt n (by decide)
  have all : ∀ m : Fin 16, isHexDigit
      (if m.1 < 10 then Char.ofNat (48 + m.1) else Char.ofNat (55 + m.1)) = true := by decide
  exact all ⟨n % 16, bound⟩

theorem StringText.escapeChar_append {c : Char} {rest : Text} (text : StringText rest) :
    StringText (escapeChar c ++ rest) := by
  unfold escapeChar
  split_ifs with lf bs ff tab cr special control
  · exact .escape (by decide) text
  · exact .escape (by decide) text
  · exact .escape (by decide) text
  · exact .escape (by decide) text
  · exact .escape (by decide) text
  · rcases special with rfl | rfl <;> exact .escape (by decide) text
  · refine .unicode ?_ text
    simp [isHexDigit_hexDigitUpper]
  · rw [not_or] at special control
    refine .plain special.2 special.1 ?_ text
    rintro rfl
    exact control.1 (by decide)

theorem stringText_jsonEscape (t : Text) : StringText (jsonEscape t) := by
  induction t with
  | nil => exact .nil
  | cons c t ih => exact ih.escapeChar_append

theorem Json.WellFormed.jsonTokFull_ne_nil {j : Json} (wellFormed : j.WellFormed) :
    j.jsonTokFull ≠ [] := by
  cases wellFormed with
  | primitive text =>
      rintro rfl
      obtain same | same | same | ⟨c, rest, same, -⟩ := text <;> cases same
  | string | array | object => exact List.cons_ne_nil _ _

theorem jsonOutAddSplice_wellFormed {j : Json} (wellFormed : j.WellFormed) (out : JsonOut)
    (fieldname : Option Text) :
    jsonOutAddSplice out fieldname j.jsonTokFull = (true, jsonAddTok out fieldname j) :=
  if_neg (by simpa using wellFormed.jsonTokFull_ne_nil)

/-! ## Objects as the writer builds them -/

def tightMember (m : Text × Json) : Text := '"' :: (m.1 ++ '"' :: ':' :: m.2.jsonTokFull)

/-- The object the writer produces for these members. -/
def Json.tight (members : List (Text × Json)) : Json :=
  .object ('{' :: (commas (members.map tightMember) ++ ['}'])) members

theorem Json.WellFormed.tight {members : List (Text × Json)}
    (keys : ∀ m ∈ members, StringText m.1) (values : ∀ m ∈ members, m.2.WellFormed) :
    (Json.tight members).WellFormed := by
  refine .object keys values (CommaSep.tight tightMember fun m _ => ?_)
  exact ⟨[], [], Blanks.nil, Blanks.nil, rfl⟩

theorem Json.WellFormed.formatU (n : Nat) : (Json.primitive (formatU n)).WellFormed := by
  refine .primitive (.inr (.inr (.inr ?_)))
  cases digits : Payz.formatU n with
  | nil => exact absurd digits (formatU_ne_nil n)
  | cons c rest =>
      have all : ∀ d ∈ c :: rest, d.isDigit = true := fun d member =>
        isDigit_of_mem_formatU (n := n) (by rw [digits]; exact member)
      rw [List.forall_mem_cons] at all
      exact ⟨c, rest, rfl, .inr all.1, fun d member => .inl (all.2 d member)⟩

theorem Json.WellFormed.formatD (i : Int) : (Json.primitive (formatD i)).WellFormed := by
  cases i with
  | ofNat n => exact .formatU n
  | negSucc n =>
      exact .primitive (.inr (.inr (.inr ⟨'-', _, rfl, .inl rfl,
        fun d member => .inl (isDigit_of_mem_formatU member)⟩)))

theorem commas_snoc (xs : List Text) (s : Text) :
    commas (xs ++ [s]) = commas xs ++ ((if xs.isEmpty then [] else [',']) ++ s) := by
  induction xs with
  | nil => rfl
  | cons x xs ih =>
      cases xs with
      | nil => rfl
      | cons y ys => simpa [commas] using ih

/-- An object is being written: what came before it, and its members so far. -/
structure JsonOut.Writing (out : JsonOut) (before : Text) (members : List (Text × Json)) : Prop where
  outbuf : out.outbuf = before ++ '{' :: commas (members.map tightMember)
  empty : out.empty = members.isEmpty

namespace JsonOut.Writing

theorem start_root : (jsonOutStart jsonOutNew none '{').Writing [] [] := ⟨rfl, rfl⟩

theorem start {out : JsonOut} (fieldname : Text) :
    (jsonOutStart out (some fieldname) '{').Writing
      (jsonOutMemberDirect out (some fieldname)).outbuf [] := ⟨rfl, rfl⟩

theorem addTok {out : JsonOut} {before : Text} {members : List (Text × Json)}
    (writing : out.Writing before members) (fieldname : Text) (j : Json) :
    (jsonAddTok out (some fieldname) j).Writing before (members ++ [(fieldname, j)]) := by
  refine ⟨?_, ?_⟩
  · simp [jsonAddTok, jsonOutMemberDirect, writing.outbuf, writing.empty, commas_snoc, tightMember,
      List.isEmpty_iff]
  · simp [jsonAddTok, jsonOutMemberDirect]

theorem nested {out inner : JsonOut} {before : Text} {members fields : List (Text × Json)}
    {fieldname : Text} (writing : out.Writing before members)
    (inside : inner.Writing (jsonOutMemberDirect out (some fieldname)).outbuf fields) :
    (jsonOutEnd inner '}').Writing before (members ++ [(fieldname, .tight fields)]) := by
  have whole := writing.addTok fieldname (.tight fields)
  refine ⟨?_, ?_⟩
  · rw [← whole.outbuf]
    simp [jsonOutEnd, inside.outbuf, jsonAddTok, Json.tight, Json.jsonTokFull]
  · simp [jsonOutEnd]

theorem finish {out : JsonOut} {members : List (Text × Json)} (writing : out.Writing [] members) :
    (jsonOutEnd out '}').outbuf = (Json.tight members).jsonTokFull := by
  simp [jsonOutEnd, writing.outbuf, Json.tight, Json.jsonTokFull]

end JsonOut.Writing

/-! ## Arrays as the writer builds them -/

/-- The array the writer produces for these elements. -/
def Json.tightArray (elems : List Json) : Json :=
  .array ('[' :: (commas (elems.map Json.jsonTokFull) ++ [']'])) elems

theorem Json.WellFormed.tightArray {elems : List Json} (wellFormed : ∀ e ∈ elems, e.WellFormed) :
    (Json.tightArray elems).WellFormed :=
  .array wellFormed (CommaSep.tight Json.jsonTokFull fun _ _ => rfl)

/-- An array is being written: what came before it, and its elements so far. -/
structure JsonOut.WritingArray (out : JsonOut) (before : Text) (elems : List Json) : Prop where
  outbuf : out.outbuf = before ++ '[' :: commas (elems.map Json.jsonTokFull)
  empty : out.empty = elems.isEmpty

namespace JsonOut.WritingArray

theorem start {out : JsonOut} (fieldname : Text) :
    (jsonOutStart out (some fieldname) '[').WritingArray
      (jsonOutMemberDirect out (some fieldname)).outbuf [] := ⟨rfl, rfl⟩

theorem addTok {out : JsonOut} {before : Text} {elems : List Json}
    (writing : out.WritingArray before elems) (j : Json) :
    (jsonAddTok out none j).WritingArray before (elems ++ [j]) := by
  refine ⟨?_, ?_⟩
  · simp [jsonAddTok, jsonOutMemberDirect, writing.outbuf, writing.empty, commas_snoc,
      List.isEmpty_iff]
  · simp [jsonAddTok, jsonOutMemberDirect]

theorem object {out inner : JsonOut} {before : Text} {elems : List Json}
    {fields : List (Text × Json)} (writing : out.WritingArray before elems)
    (inside : inner.Writing (jsonOutMemberDirect out none).outbuf fields) :
    (jsonOutEnd inner '}').WritingArray before (elems ++ [.tight fields]) := by
  have whole := writing.addTok (.tight fields)
  refine ⟨?_, ?_⟩
  · rw [← whole.outbuf]
    simp [jsonOutEnd, inside.outbuf, jsonAddTok, Json.tight, Json.jsonTokFull]
  · simp [jsonOutEnd]

theorem member {out inner : JsonOut} {before : Text} {members : List (Text × Json)}
    {elems : List Json} {fieldname : Text} (writing : out.Writing before members)
    (inside : inner.WritingArray (jsonOutMemberDirect out (some fieldname)).outbuf elems) :
    (jsonOutEnd inner ']').Writing before (members ++ [(fieldname, .tightArray elems)]) := by
  have whole := writing.addTok fieldname (.tightArray elems)
  refine ⟨?_, ?_⟩
  · rw [← whole.outbuf]
    simp [jsonOutEnd, inside.outbuf, jsonAddTok, Json.tightArray, Json.jsonTokFull]
  · simp [jsonOutEnd]

end JsonOut.WritingArray

end Payz
