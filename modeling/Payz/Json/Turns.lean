import Payz.Json.Parse

/-! # The turns of the tokenizer

What one turn of the loop of `jsmn_parse` can do, for any text, and what holds after any
number of turns: the tokens lie within the text that has been read, and that text holds
no NUL.
-/

namespace Payz

/-- A character that starts a primitive, for want of another meaning. -/
def StartsPrimitive (c : Char) : Prop :=
  c ≠ '{' ∧ c ≠ '[' ∧ c ≠ '"' ∧ endsPrimitive c = false ∧ c ≠ '\x00'

/-- One turn in front of a text: the parser after it, and how many characters it read. -/
inductive JsmnTurn (p : JsmnParser) : Text → JsmnParser → Nat → Prop where
  | opens {c type rest} : c = '{' ∧ type = .object ∨ c = '[' ∧ type = .array →
      JsmnTurn p (c :: rest) (jsmnOpen p type) 1
  | closes {c type rest p'} : c = '}' ∧ type = .object ∨ c = ']' ∧ type = .array →
      jsmnClose p type = .ok p' → JsmnTurn p (c :: rest) p' 1
  | string {rest n} : jsmnParseString 0 rest = .ok n →
      JsmnTurn p ('"' :: rest) (jsmnLeaf p .string (p.pos + 1) (p.pos + 1 + n) (p.pos + n + 2))
        (n + 2)
  | blank {c rest} : c = '\t' ∨ c = '\r' ∨ c = '\n' ∨ c = ' ' →
      JsmnTurn p (c :: rest) { p with pos := p.pos + 1 } 1
  | colon {rest} : JsmnTurn p (':' :: rest) (jsmnColon p) 1
  | comma {rest} : JsmnTurn p (',' :: rest) (jsmnComma p) 1
  | primitive {c rest n} : StartsPrimitive c → jsmnParsePrimitive (c :: rest) = some n → 0 < n →
      JsmnTurn p (c :: rest) (jsmnLeaf p .primitive p.pos (p.pos + n) (p.pos + n)) n

theorem jsmnStep_turn {p p' : JsmnParser} {c : Char} {rest rest' : Text} (nul : c ≠ '\x00')
    (step : jsmnStep p c rest = .ok (p', rest')) :
    ∃ n, JsmnTurn p (c :: rest) p' n ∧ rest' = (c :: rest).drop n := by
  unfold jsmnStep at step
  split_ifs at step with openObj openArr closeObj closeArr quote blank colon comma
  · cases step
    exact ⟨1, .opens (.inl ⟨openObj, rfl⟩), rfl⟩
  · cases step
    exact ⟨1, .opens (.inr ⟨openArr, rfl⟩), rfl⟩
  · obtain ⟨closed, close, same⟩ := eq_of_map_eq_ok step
    cases same
    exact ⟨1, .closes (.inl ⟨closeObj, rfl⟩) close, rfl⟩
  · obtain ⟨closed, close, same⟩ := eq_of_map_eq_ok step
    cases same
    exact ⟨1, .closes (.inr ⟨closeArr, rfl⟩) close, rfl⟩
  · obtain ⟨n, scanned, same⟩ := eq_of_map_eq_ok step
    cases same
    subst quote
    exact ⟨n + 2, .string scanned, rfl⟩
  · cases step
    exact ⟨1, .blank blank, rfl⟩
  · cases step
    subst colon
    exact ⟨1, .colon, rfl⟩
  · cases step
    subst comma
    exact ⟨1, .comma, rfl⟩
  · have inner : endsPrimitive c = false := by
      simp only [not_or] at blank
      simp [endsPrimitive, closeObj, closeArr, blank, colon, comma]
    split at step
    · cases step
    · next n scanned =>
        cases step
        exact ⟨n, .primitive ⟨openObj, openArr, quote, inner, nul⟩ scanned
          (jsmnParsePrimitive_pos nul inner scanned), rfl⟩

theorem JsmnTurn.step {p p' : JsmnParser} {c : Char} {rest : Text} {n : Nat}
    (turn : JsmnTurn p (c :: rest) p' n) :
    jsmnStep p c rest = .ok (p', (c :: rest).drop n) := by
  cases turn with
  | opens bracket =>
      rcases bracket with ⟨rfl, rfl⟩ | ⟨rfl, rfl⟩
      · rfl
      · rfl
  | closes bracket close =>
      rcases bracket with ⟨rfl, rfl⟩ | ⟨rfl, rfl⟩
      · simp only [jsmnStep, close]
        rfl
      · simp only [jsmnStep, close]
        rfl
  | string scanned =>
      simp only [jsmnStep, scanned]
      rfl
  | blank space =>
      rcases space with rfl | rfl | rfl | rfl
      · rfl
      · rfl
      · rfl
      · rfl
  | colon => rfl
  | comma => rfl
  | primitive starts scanned positive =>
      obtain ⟨openObj, openArr, quote, inner, -⟩ := starts
      simp only [endsPrimitive, Bool.or_eq_false_iff, beq_eq_false_iff_ne, ne_eq] at inner
      obtain ⟨⟨⟨⟨⟨⟨⟨colon, tab⟩, cr⟩, lf⟩, space⟩, comma⟩, closeArr⟩, closeObj⟩ := inner
      simp only [jsmnStep, openObj, openArr, quote, colon, tab, cr, lf, space, comma, closeArr,
        closeObj, if_false, or_self, scanned]

theorem JsmnTurn.cons {p p' : JsmnParser} {text : Text} {n : Nat} (turn : JsmnTurn p text p' n) :
    ∃ c rest, text = c :: rest ∧ c ≠ '\x00' := by
  cases turn with
  | opens bracket | closes bracket =>
      refine ⟨_, _, rfl, ?_⟩
      rcases bracket with ⟨rfl, -⟩ | ⟨rfl, -⟩ <;> decide
  | blank space =>
      refine ⟨_, _, rfl, ?_⟩
      rcases space with rfl | rfl | rfl | rfl <;> decide
  | string | colon | comma => exact ⟨_, _, rfl, by decide⟩
  | primitive starts => exact ⟨_, _, rfl, starts.2.2.2.2⟩

inductive JsmnTurns : JsmnParser → Text → JsmnParser → Text → Prop where
  | nil {p text} : JsmnTurns p text p text
  | cons {p text p' n p'' rest} : JsmnTurn p text p' n → JsmnTurns p' (text.drop n) p'' rest →
      JsmnTurns p text p'' rest

/-- Where the loop ends: at the end of the text, or before a character that cannot
    follow. -/
inductive JsmnEnds (p : JsmnParser) : Text → Option JsmnErr → Prop where
  | empty : JsmnEnds p [] none
  | nul {rest} : JsmnEnds p ('\x00' :: rest) none
  | stuck {c rest e} : c ≠ '\x00' → jsmnStep p c rest = .error e → JsmnEnds p (c :: rest) (some e)

theorem jsmnRun_turns (p : JsmnParser) (text : Text) :
    ∃ rest, JsmnTurns p text (jsmnRun p text).1 rest ∧
      JsmnEnds (jsmnRun p text).1 rest (jsmnRun p text).2 := by
  induction size : text.length using Nat.strong_induction_on generalizing p text with
  | _ size ih =>
      subst size
      cases text with
      | nil => exact ⟨[], .nil, .empty⟩
      | cons c rest =>
          by_cases nul : c = '\x00'
          · subst nul
            exact ⟨_, .nil, .nul⟩
          · cases step : jsmnStep p c rest with
            | error e =>
                have run : jsmnRun p (c :: rest) = (p, some e) := by
                  simp only [jsmnRun, List.length_cons, jsmnLoop, nul, if_false, step]
                rw [run]
                exact ⟨c :: rest, .nil, .stuck nul step⟩
            | ok next =>
                obtain ⟨p', rest'⟩ := next
                obtain ⟨n, turn, rfl⟩ := jsmnStep_turn nul step
                have shorter := jsmnStep_shorter nul step
                rw [jsmnRun_step nul step]
                have less : ((c :: rest).drop n).length < (c :: rest).length :=
                  Nat.lt_succ_of_le shorter
                obtain ⟨rest', turns, ends⟩ := ih _ less p' _ rfl
                exact ⟨rest', .cons turn turns, ends⟩

theorem jsmnParse_fst (p : JsmnParser) (input : Text) :
    (jsmnParse p input).1 = (jsmnRun p (input.drop p.pos)).1 := by
  have enough : jsmnLoop input.length p (input.drop p.pos) = jsmnRun p (input.drop p.pos) :=
    jsmnLoop_enough p (by rw [List.length_drop]; omega)
  unfold jsmnParse
  rw [enough]
  split
  · next run => rw [run]
  · next run => rw [run]

/-- A bracket closes the container that was opened last, if it is of this type. -/
theorem jsmnClose_ok {p p' : JsmnParser} {type : JsmnType} (close : jsmnClose p type = .ok p') :
    ∃ i t, lastIdx JsmnTok.isOpen p.tokens = some i ∧ p.tokens[i]? = some t ∧ t.type = type ∧
      p' = ⟨p.pos + 1, lastIdx JsmnTok.isOpen (p.tokens.take i),
        p.tokens.modify i fun t => { t with stop := some (p.pos + 1) }⟩ := by
  unfold jsmnClose at close
  split at close
  · cases close
  · next i last =>
      split_ifs at close with here
      cases close
      obtain ⟨t, found, typed⟩ := Option.map_eq_some_iff.mp here
      exact ⟨i, t, last, found, typed, rfl⟩

theorem JsmnTurns.keeps {P : JsmnParser → Text → Prop}
    (one : ∀ {p text p' n}, P p text → JsmnTurn p text p' n → P p' (text.drop n))
    {p p' : JsmnParser} {text rest : Text} (turns : JsmnTurns p text p' rest) (start : P p text) :
    P p' rest := by
  induction turns with
  | nil => exact start
  | cons turn _ ih => exact ih (one start turn)

/-! ## What is read -/

/-- The contents of a string in front, of this length, up to the closing quote. -/
inductive StringScan : Nat → Text → Nat → Prop where
  | quote {rest} : StringScan 0 ('"' :: rest) 0
  | digit {due c rest n} : isHexDigit c = true → StringScan due rest n →
      StringScan (due + 1) (c :: rest) (n + 1)
  | escape {e rest n} : isSimpleEscape e = true → StringScan 0 rest n →
      StringScan 0 ('\\' :: e :: rest) (n + 2)
  | unicode {rest n} : StringScan 4 rest n → StringScan 0 ('\\' :: 'u' :: rest) (n + 2)
  | plain {c rest n} : c ≠ '\x00' → c ≠ '"' → c ≠ '\\' → StringScan 0 rest n →
      StringScan 0 (c :: rest) (n + 1)

theorem stringScan_of_ok {due : Nat} {rest : Text} {n : Nat}
    (scanned : jsmnParseString due rest = .ok n) : StringScan due rest n := by
  fun_induction jsmnParseString due rest generalizing n with
  | case1 | case2 | case4 | case5 | case7 | case10 => cases scanned
  | case3 due c rest nul hex ih =>
      obtain ⟨m, tail, rfl⟩ := eq_of_map_eq_ok scanned
      exact .digit hex (ih tail)
  | case6 =>
      cases scanned
      exact .quote
  | case8 e rest simple _ _ ih =>
      obtain ⟨m, tail, rfl⟩ := eq_of_map_eq_ok scanned
      exact .escape simple (ih tail)
  | case9 rest _ _ _ ih =>
      obtain ⟨m, tail, rfl⟩ := eq_of_map_eq_ok scanned
      exact .unicode (ih tail)
  | case11 c rest nul quote backslash ih =>
      obtain ⟨m, tail, rfl⟩ := eq_of_map_eq_ok scanned
      exact .plain nul quote backslash (ih tail)

theorem ne_nul_of_isHexDigit {c : Char} (hex : isHexDigit c = true) : c ≠ '\x00' := by
  rintro rfl
  exact absurd hex (by decide)

theorem ne_nul_of_isSimpleEscape {c : Char} (simple : isSimpleEscape c = true) : c ≠ '\x00' := by
  rintro rfl
  exact absurd simple (by decide)

namespace StringScan

variable {due n : Nat} {rest : Text}

theorem ok (scan : StringScan due rest n) : jsmnParseString due rest = .ok n := by
  induction scan with
  | @quote rest => cases rest <;> simp [jsmnParseString]
  | digit hex _ ih =>
      simp only [jsmnParseString, ne_nul_of_isHexDigit hex, hex, if_false, if_true, ih]
      rfl
  | @escape e rest n simple _ ih =>
      have backslash : ('\\' : Char) ≠ '\x00' ∧ ('\\' : Char) ≠ '"' := by decide
      simp only [jsmnParseString, backslash, simple, if_false, if_true, ih]
      rfl
  | unicode _ ih =>
      have backslash : ('\\' : Char) ≠ '\x00' ∧ ('\\' : Char) ≠ '"' := by decide
      have long : isSimpleEscape 'u' = false := by decide
      simp only [jsmnParseString, backslash, long, if_false, if_true, ih, Bool.false_eq_true]
      rfl
  | plain nul quote backslash _ ih =>
      rw [jsmnParseString_plain _ quote backslash nul, ih]
      rfl

theorem lt_length (scan : StringScan due rest n) : n < rest.length := by
  induction scan with
  | quote => simp
  | digit _ _ ih | escape _ _ ih | unicode _ ih | plain _ _ _ _ ih =>
      simp only [List.length_cons]
      omega

theorem nul_not_mem (scan : StringScan due rest n) : '\x00' ∉ rest.take (n + 1) := by
  induction scan with
  | quote => simp
  | digit hex _ ih =>
      rw [List.take_succ_cons, List.mem_cons, not_or]
      exact ⟨(ne_nul_of_isHexDigit hex).symm, ih⟩
  | escape simple _ ih =>
      rw [List.take_succ_cons, List.take_succ_cons, List.mem_cons, List.mem_cons, not_or, not_or]
      exact ⟨by decide, (ne_nul_of_isSimpleEscape simple).symm, ih⟩
  | unicode _ ih =>
      rw [List.take_succ_cons, List.take_succ_cons, List.mem_cons, List.mem_cons, not_or, not_or]
      exact ⟨by decide, by decide, ih⟩
  | plain nul _ _ _ ih =>
      rw [List.take_succ_cons, List.mem_cons, not_or]
      exact ⟨nul.symm, ih⟩

theorem append (scan : StringScan due rest n) (more : Text) : StringScan due (rest ++ more) n := by
  induction scan with
  | quote => exact .quote
  | digit hex _ ih => exact .digit hex ih
  | escape simple _ ih => exact .escape simple ih
  | unicode _ ih => exact .unicode ih
  | plain nul quote backslash _ ih => exact .plain nul quote backslash ih

end StringScan

theorem jsmnParsePrimitive_reads {text : Text} {n : Nat}
    (scanned : jsmnParsePrimitive text = some n) :
    n ≤ text.length ∧ '\x00' ∉ text.take n := by
  induction text generalizing n with
  | nil =>
      cases scanned
      simp
  | cons c rest ih =>
      rw [jsmnParsePrimitive] at scanned
      split_ifs at scanned with nul ends bad
      · cases scanned
        simp
      · cases scanned
        simp
      · obtain ⟨m, tail, rfl⟩ := Option.map_eq_some_iff.mp scanned
        obtain ⟨bound, free⟩ := ih tail
        refine ⟨by simpa using bound, ?_⟩
        rw [List.take_succ_cons, List.mem_cons, not_or]
        exact ⟨Ne.symm nul, free⟩

theorem mem_of_mem_modify {α : Type} {f : α → α} {i : Nat} {as : List α} {a : α}
    (member : a ∈ as.modify i f) : a ∈ as ∨ ∃ b ∈ as, a = f b := by
  obtain ⟨j, found⟩ := List.mem_iff_getElem?.mp member
  rw [List.getElem?_modify] at found
  split_ifs at found with same
  · obtain ⟨b, there, rfl⟩ := Option.map_eq_some_iff.mp found
    exact .inr ⟨b, List.mem_of_getElem? there, rfl⟩
  · exact .inl (List.mem_of_getElem? (by simpa using found))

/-- A token lies within the text read so far. -/
structure JsmnTok.Ranged (pos : Nat) (t : JsmnTok) : Prop where
  typed : t.type ≠ .undefined
  start : t.start ≤ pos
  stop : ∀ stop, t.stop = some stop → t.start ≤ stop ∧ stop ≤ pos

theorem JsmnTok.Ranged.mono {pos pos' : Nat} {t : JsmnTok} (ranged : t.Ranged pos)
    (further : pos ≤ pos') : t.Ranged pos' := by
  refine ⟨ranged.typed, le_trans ranged.start further, fun stop ends => ?_⟩
  exact ⟨(ranged.stop stop ends).1, le_trans (ranged.stop stop ends).2 further⟩

/-- A parser that has read part of a text. -/
structure JsmnParser.Reading (js : Text) (p : JsmnParser) : Prop where
  bound : p.pos ≤ js.length
  nul : '\x00' ∉ js.take p.pos
  tokens : ∀ t ∈ p.tokens, t.Ranged p.pos

theorem reading_jsmnInit (js : Text) : jsmnInit.Reading js :=
  ⟨by simp [jsmnInit], by simp [jsmnInit], by simp [jsmnInit]⟩

theorem ranged_incSize {pos : Nat} {tokens : List JsmnTok} (ranged : ∀ t ∈ tokens, t.Ranged pos)
    (toksuper : Option Nat) : ∀ t ∈ incSize toksuper tokens, t.Ranged pos := by
  cases toksuper with
  | none => exact ranged
  | some i =>
      intro t member
      rcases mem_of_mem_modify member with old | ⟨t', there, rfl⟩
      · exact ranged t old
      · exact ⟨(ranged t' there).typed, (ranged t' there).start, (ranged t' there).stop⟩

theorem ranged_jsmnLeaf {p : JsmnParser} (ranged : ∀ t ∈ p.tokens, t.Ranged p.pos) {type : JsmnType}
    (typed : type ≠ .undefined) {start stop next : Nat} (order : p.pos ≤ start ∧ start ≤ stop ∧
      stop ≤ next) : ∀ t ∈ (jsmnLeaf p type start stop next).tokens, t.Ranged next := by
  intro t member
  rcases List.mem_append.mp member with old | new
  · exact (ranged_incSize ranged _ t old).mono (by omega)
  · cases List.mem_singleton.mp new
    refine ⟨typed, by dsimp only; omega, fun stop' ends => ?_⟩
    cases ends
    dsimp only
    omega

theorem JsmnTurn.pos {p p' : JsmnParser} {text : Text} {n : Nat} (turn : JsmnTurn p text p' n) :
    p'.pos = p.pos + n ∧ n ≤ text.length ∧ '\x00' ∉ text.take n := by
  obtain ⟨c, rest, rfl, nul⟩ := turn.cons
  have one : 1 ≤ (c :: rest).length ∧ '\x00' ∉ (c :: rest).take 1 := by
    refine ⟨by simp, ?_⟩
    rw [List.take_succ_cons, List.take_zero, List.mem_singleton]
    exact nul.symm
  cases turn with
  | opens | blank | colon | comma => exact ⟨rfl, one⟩
  | closes bracket close =>
      obtain ⟨i, t, -, -, -, rfl⟩ := jsmnClose_ok close
      exact ⟨rfl, one⟩
  | string scanned =>
      have scan := stringScan_of_ok scanned
      refine ⟨by simp only [jsmnLeaf]; omega, Nat.succ_le_succ scan.lt_length, ?_⟩
      rw [List.take_succ_cons, List.mem_cons, not_or]
      exact ⟨by decide, scan.nul_not_mem⟩
  | primitive _ scanned _ => exact ⟨rfl, jsmnParsePrimitive_reads scanned⟩

theorem JsmnTurn.ranged {p p' : JsmnParser} {text : Text} {n : Nat} (turn : JsmnTurn p text p' n)
    (ranged : ∀ t ∈ p.tokens, t.Ranged p.pos) : ∀ t ∈ p'.tokens, t.Ranged p'.pos := by
  cases turn with
  | @opens c type rest bracket =>
      have typed : type ≠ .undefined := by
        rcases bracket with ⟨-, rfl⟩ | ⟨-, rfl⟩
        · decide
        · decide
      intro t member
      rcases List.mem_append.mp member with old | new
      · exact (ranged_incSize ranged _ t old).mono (Nat.le_succ _)
      · cases List.mem_singleton.mp new
        exact ⟨typed, Nat.le_succ _, fun stop ends => by cases ends⟩
  | closes bracket close =>
      obtain ⟨i, -, -, -, -, rfl⟩ := jsmnClose_ok close
      intro t member
      rcases mem_of_mem_modify member with old | ⟨t', there, rfl⟩
      · exact (ranged t old).mono (Nat.le_succ _)
      · have before := ranged t' there
        refine ⟨before.typed, le_trans before.start (Nat.le_succ _), fun stop ends => ?_⟩
        cases ends
        exact ⟨le_trans before.start (Nat.le_succ _), le_rfl⟩
  | string scanned => exact ranged_jsmnLeaf ranged (by decide) (by omega)
  | blank | colon | comma => exact fun t member => (ranged t member).mono (Nat.le_succ _)
  | primitive => exact ranged_jsmnLeaf ranged (by decide) (by omega)

theorem JsmnTurn.reading {js : Text} {p p' : JsmnParser} {n : Nat}
    (turn : JsmnTurn p (js.drop p.pos) p' n) (reading : p.Reading js) : p'.Reading js := by
  obtain ⟨pos, bound, nul⟩ := turn.pos
  rw [List.length_drop] at bound
  have before := reading.bound
  refine ⟨by omega, ?_, turn.ranged reading.tokens⟩
  rw [pos, List.take_add, List.mem_append, not_or]
  exact ⟨reading.nul, nul⟩

theorem JsmnTurns.reading {js : Text} {p p' : JsmnParser} {rest : Text}
    (turns : JsmnTurns p (js.drop p.pos) p' rest) (reading : p.Reading js) :
    p'.Reading js ∧ rest = js.drop p'.pos := by
  refine turns.keeps (P := fun p text => p.Reading js ∧ text = js.drop p.pos) ?_ ⟨reading, rfl⟩
  rintro p text p' n ⟨reading, rfl⟩ turn
  refine ⟨turn.reading reading, ?_⟩
  rw [turn.pos.1, List.drop_drop]

theorem jsmnParse_keeps {P : JsmnParser → Prop} {js : Text}
    (one : ∀ {p p' n}, P p → JsmnTurn p (js.drop p.pos) p' n → P p') {p : JsmnParser}
    (start : P p) : P (jsmnParse p js).1 := by
  obtain ⟨rest, turns, -⟩ := jsmnRun_turns p (js.drop p.pos)
  rw [jsmnParse_fst]
  refine (turns.keeps (P := fun p text => P p ∧ text = js.drop p.pos) ?_ ⟨start, rfl⟩).1
  rintro p text p' n ⟨kept, rfl⟩ turn
  exact ⟨one kept turn, by rw [turn.pos.1, List.drop_drop]⟩

theorem JsmnParser.Reading.jsmnParse {js : Text} {p : JsmnParser} (reading : p.Reading js) :
    (jsmnParse p js).1.Reading js :=
  jsmnParse_keeps (fun reading turn => turn.reading reading) reading

end Payz
