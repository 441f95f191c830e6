import Payz.Json.Tree

/-! # The tokenizer and `json_parse_input`

`external/jsmn/jsmn.h` as `external/jsmn/jsmn.c` compiles it: neither strict mode
nor parent links.  The token array only ever grows, so `JSMN_ERROR_NOMEM`, upon
which `json_parse_input` doubles the array and resumes, does not appear.

The position `pos` and the text still to be read are kept side by side; a step
hands both on.  A token's `end` of `-1` is `none`.
-/

namespace Payz

inductive JsmnType where
  | undefined
  | object
  | array
  | string
  | primitive
  deriving Repr, DecidableEq

structure JsmnTok where
  type : JsmnType
  start : Nat
  stop : Option Nat
  size : Nat
  deriving Repr, DecidableEq

/-- An array or object whose closing bracket has not been seen. -/
def JsmnTok.isOpen (t : JsmnTok) : Bool := t.stop.isNone

inductive JsmnErr where
  | inval
  | part
  deriving Repr, DecidableEq

/-- `jsmn_parser` with the tokens filled so far; `toknext` is their number. -/
structure JsmnParser where
  pos : Nat
  toksuper : Option Nat
  tokens : List JsmnTok
  deriving Repr, DecidableEq

def jsmnInit : JsmnParser := ⟨0, none, []⟩

/-- Index of the last element that satisfies `p`: the backward scans of the
    tokenizer. -/
def lastIdx {α : Type} (p : α → Bool) : List α → Option Nat
  | [] => none
  | a :: as =>
      match lastIdx p as with
      | some i => some (i + 1)
      | none => if p a then some 0 else none

/-- `tokens[toksuper].size++`, unless there is no superior token. -/
def incSize : Option Nat → List JsmnTok → List JsmnTok
  | none, tokens => tokens
  | some i, tokens => tokens.modify i fun t => { t with size := t.size + 1 }

/-- Characters at which `jsmn_parse_primitive` stops outside strict mode. -/
def endsPrimitive (c : Char) : Bool :=
  c == ':' || c == '\t' || c == '\r' || c == '\n' || c == ' ' || c == ',' || c == ']' || c == '}'

/-- Length of the primitive in front, `none` on a character it cannot hold. -/
def jsmnParsePrimitive : Text → Option Nat
  | [] => some 0
  | c :: rest =>
      if c = '\x00' then some 0
      else if endsPrimitive c then some 0
      else if c.toNat < 32 || 127 ≤ c.toNat then none
      else (jsmnParsePrimitive rest).map (· + 1)

def isHexDigit (c : Char) : Bool :=
  (48 ≤ c.toNat && c.toNat ≤ 57) || (65 ≤ c.toNat && c.toNat ≤ 70) ||
    (97 ≤ c.toNat && c.toNat ≤ 102)

/-- Escapes made of a backslash and one character. -/
def isSimpleEscape (c : Char) : Bool :=
  c == '"' || c == '/' || c == '\\' || c == 'b' || c == 'f' || c == 'r' || c == 'n' || c == 't'

/-- Length of the string contents in front, up to the closing quote.  The
    counter says how many digits of a `\u` escape are still due. -/
def jsmnParseString : Nat → Text → Except JsmnErr Nat
  | _, [] => .error .part
  | due + 1, c :: rest =>
      if c = '\x00' then .error .part
      else if isHexDigit c then (jsmnParseString due rest).map (· + 1)
      else .error .inval
  | 0, c :: rest =>
      if c = '\x00' then .error .part
      else if c = '"' then .ok 0
      else if c = '\\' then
        match rest with
        | [] => .error .part
        | e :: rest =>
            if isSimpleEscape e then (jsmnParseString 0 rest).map (· + 2)
            else if e = 'u' then (jsmnParseString 4 rest).map (· + 2)
            else .error .inval
      else (jsmnParseString 0 rest).map (· + 1)

/-- An opening bracket: a new container, counted in the superior token, becomes
    the superior token itself. -/
def jsmnOpen (p : JsmnParser) (type : JsmnType) : JsmnParser where
  pos := p.pos + 1
  toksuper := some p.tokens.length
  tokens := incSize p.toksuper p.tokens ++ [⟨type, p.pos, none, 0⟩]

/-- A closing bracket: it must match the container opened last; the superior
    token is then the one opened before that. -/
def jsmnClose (p : JsmnParser) (type : JsmnType) : Except JsmnErr JsmnParser :=
  match lastIdx JsmnTok.isOpen p.tokens with
  | none => .error .inval
  | some i =>
      if (p.tokens[i]?).map JsmnTok.type = some type then
        .ok { pos := p.pos + 1
              toksuper := lastIdx JsmnTok.isOpen (p.tokens.take i)
              tokens := p.tokens.modify i fun t => { t with stop := some (p.pos + 1) } }
      else .error .inval

/-- A colon: the token before it becomes the superior token. -/
def jsmnColon (p : JsmnParser) : JsmnParser :=
  { p with
    pos := p.pos + 1
    toksuper := if p.tokens.length = 0 then none else some (p.tokens.length - 1) }

def JsmnTok.isContainer (t : JsmnTok) : Bool := t.type == .array || t.type == .object

/-- A comma: unless the superior token is a container already, the container
    opened last becomes it. -/
def jsmnComma (p : JsmnParser) : JsmnParser :=
  { p with
    pos := p.pos + 1
    toksuper :=
      match p.toksuper with
      | none => none
      | some i =>
          if (p.tokens[i]?).any JsmnTok.isContainer then some i
          else (lastIdx (fun t => t.isContainer && t.isOpen) p.tokens).or (some i) }

/-- A string or primitive that is complete at once. -/
def jsmnLeaf (p : JsmnParser) (type : JsmnType) (start stop next : Nat) : JsmnParser :=
  { p with
    pos := next
    tokens := incSize p.toksuper p.tokens ++ [⟨type, start, some stop, 0⟩] }

/-- One turn of the loop of `jsmn_parse` on the character `c`, with the text
    behind it.  An error leaves the parser as it was. -/
def jsmnStep (p : JsmnParser) (c : Char) (rest : Text) : Except JsmnErr (JsmnParser × Text) :=
  if c = '{' then .ok (jsmnOpen p .object, rest)
  else if c = '[' then .ok (jsmnOpen p .array, rest)
  else if c = '}' then (jsmnClose p .object).map (·, rest)
  else if c = ']' then (jsmnClose p .array).map (·, rest)
  else if c = '"' then
    (jsmnParseString 0 rest).map fun n =>
      (jsmnLeaf p .string (p.pos + 1) (p.pos + 1 + n) (p.pos + n + 2), rest.drop (n + 1))
  else if c = '\t' ∨ c = '\r' ∨ c = '\n' ∨ c = ' ' then .ok ({ p with pos := p.pos + 1 }, rest)
  else if c = ':' then .ok (jsmnColon p, rest)
  else if c = ',' then .ok (jsmnComma p, rest)
  else
    match jsmnParsePrimitive (c :: rest) with
    | none => .error .inval
    | some n => .ok (jsmnLeaf p .primitive p.pos (p.pos + n) (p.pos + n), (c :: rest).drop n)

/-- The loop of `jsmn_parse`.  Every turn consumes a character, so the length of
    the text is enough fuel. -/
def jsmnLoop : Nat → JsmnParser → Text → JsmnParser × Option JsmnErr
  | 0, p, _ => (p, none)
  | _ + 1, p, [] => (p, none)
  | fuel + 1, p, c :: rest =>
      if c = '\x00' then (p, none)
      else
        match jsmnStep p c rest with
        | .error e => (p, some e)
        | .ok (p, rest) => jsmnLoop fuel p rest

/-- `jsmn_parse`: resumes at `pos` and reports a container that is still open. -/
def jsmnParse (p : JsmnParser) (js : Text) : JsmnParser × Option JsmnErr :=
  match jsmnLoop js.length p (js.drop p.pos) with
  | (p, some e) => (p, some e)
  | (p, none) => (p, if p.tokens.any JsmnTok.isOpen then some .part else none)

def skipData : Nat → List JsmnTok → List JsmnTok
  | 0, toks => toks
  | _ + 1, [] => []
  | n + 1, t :: toks => skipData (t.size + n) toks

/-- `json_next`: the token after the first datum. -/
def jsonNext (toks : List JsmnTok) : List JsmnTok := skipData 1 toks

def tokText (buffer : Text) (t : JsmnTok) : Text :=
  (buffer.drop t.start).take (t.stop.getD t.start - t.start)

/-- Apply a reader of one item this many times. -/
def readMany {α : Type} (read : List JsmnTok → Option (α × List JsmnTok)) :
    Nat → List JsmnTok → Option (List α × List JsmnTok)
  | 0, toks => some ([], toks)
  | n + 1, toks =>
      match read toks with
      | none => none
      | some (item, toks) => (readMany read n toks).map fun (items, toks) => (item :: items, toks)

/-- `validate_jsmn_keyvalue`, given the reader of its value. -/
def validateJsmnKeyvalue (read : List JsmnTok → Option (Json × List JsmnTok)) (buffer : Text) :
    List JsmnTok → Option ((Text × Json) × List JsmnTok)
  | [] => none
  | t :: toks =>
      if t.type = .string ∧ t.size = 1 then
        (read toks).map fun (value, toks) => ((tokText buffer t, value), toks)
      else none

/-- `validate_jsmn_datum`, which reads off the datum as it validates it.  Data
    nest no deeper than there are tokens. -/
def validateJsmnDatum : Nat → Text → List JsmnTok → Option (Json × List JsmnTok)
  | 0, _, _ => none
  | _ + 1, _, [] => none
  | fuel + 1, buffer, t :: toks =>
      match t.type with
      | .undefined => none
      | .string => if t.size = 0 then some (.string (tokText buffer t), toks) else none
      | .primitive => if t.size = 0 then some (.primitive (tokText buffer t), toks) else none
      | .array =>
          (readMany (validateJsmnDatum fuel buffer) t.size toks).map fun (elems, toks) =>
            (.array (tokText buffer t) elems, toks)
      | .object =>
          (readMany (validateJsmnKeyvalue (validateJsmnDatum fuel buffer) buffer) t.size toks).map
            fun (members, toks) => (.object (tokText buffer t) members, toks)

/-- Outcome of `json_parse_input`. -/
inductive JsonInput where
  | invalid
  | incomplete (parser : JsmnParser)
  | complete (root : Json) (toks : List JsmnTok)
  deriving Repr, DecidableEq

/-- `json_parse_input`: the root datum once its end has been seen.  Whatever
    follows it in the input is left alone. -/
def jsonParseInput (p : JsmnParser) (input : Text) : JsonInput :=
  match jsmnParse p input with
  | (_, some .inval) => .invalid
  | (p, _) =>
      match p.tokens with
      | [] => .incomplete p
      | root :: toks =>
          if root.isOpen then .incomplete p
          else
            let datum := (root :: toks).take ((root :: toks).length -
              (jsonNext (root :: toks)).length)
            match validateJsmnDatum datum.length input datum with
            | some (json, []) => .complete json datum
            | _ => .invalid

/-- `json_parse_simple`: `none` for `NULL`. -/
def jsonParseSimple (input : Text) : Option Json :=
  match jsonParseInput jsmnInit input with
  | .complete json _ => some json
  | _ => none

/-! ## Results of fallible functions -/

theorem eq_of_map_eq_ok {ε α β : Type} {x : Except ε α} {f : α → β} {b : β}
    (mapped : x.map f = .ok b) : ∃ a, x = .ok a ∧ f a = b := by
  cases x with
  | error e => cases mapped
  | ok a => exact ⟨a, rfl, Except.ok.inj mapped⟩

theorem eq_of_bind_eq_ok {ε α β : Type} {x : Except ε α} {f : α → Except ε β} {b : β}
    (bound : x.bind f = .ok b) : ∃ a, x = .ok a ∧ f a = .ok b := by
  cases x with
  | error e => cases bound
  | ok a => exact ⟨a, rfl, bound⟩

end Payz
