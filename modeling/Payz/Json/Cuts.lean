import Payz.Json.Turns

/-! # Texts cut short

What the tokenizer makes of the first part of a text, compared with what it makes of the
whole.  Each turn it takes is also one on the whole text, save one: outside strict mode a
primitive ends where the text does.
-/

namespace Payz

/-- Where in a text a character stands. -/
inductive Lex where
  | outside
  | primitive
  | string
  | escape
  deriving Repr, DecidableEq

def Lex.next : Lex → Char → Lex
  | .outside, c =>
      if c = '"' then .string
      else if c = '{' ∨ c = '[' ∨ endsPrimitive c = true then .outside
      else .primitive
  | .primitive, c => if endsPrimitive c = true then .outside else .primitive
  | .string, c => if c = '"' then .outside else if c = '\\' then .escape else .string
  | .escape, _ => .string

/-- What a text ends in, starting there. -/
def Lex.after (lex : Lex) (text : Text) : Lex := text.foldl Lex.next lex

/-- The cut is between two characters of one primitive. -/
def CutsPrimitive (before after : Text) : Prop :=
  Lex.outside.after before = .primitive ∧ ¬ Delimited after

namespace Lex

@[simp] theorem after_nil (lex : Lex) : lex.after [] = lex := rfl

@[simp] theorem after_cons (lex : Lex) (c : Char) (rest : Text) :
    lex.after (c :: rest) = (lex.next c).after rest := rfl

theorem after_append (lex : Lex) (text more : Text) :
    lex.after (text ++ more) = (lex.after text).after more := List.foldl_append

theorem next_of_ends {lex : Lex} {c : Char} (open_ : lex = .outside ∨ lex = .primitive)
    (ends : endsPrimitive c = true) : lex.next c = .outside := by
  have quote : c ≠ '"' := by
    rintro rfl
    exact absurd ends (by decide)
  rcases open_ with rfl | rfl
  · simp [next, quote, ends]
  · simp [next, ends]

theorem next_of_starts {c : Char} (starts : StartsPrimitive c) :
    Lex.outside.next c = .primitive := by
  obtain ⟨brace, bracket, quote, inner, -⟩ := starts
  simp [next, brace, bracket, quote, inner]

theorem next_brace (lex : Lex) : lex.next '}' ≠ .primitive := by
  cases lex <;> decide

end Lex

/-- In front of a turn: outside, or behind a primitive that ends here. -/
def BeforeTurn (lex : Lex) (text : Text) : Prop :=
  lex = .outside ∨ lex = .primitive ∧ Delimited text

theorem BeforeTurn.outside {lex : Lex} {c : Char} {rest : Text}
    (before : BeforeTurn lex (c :: rest)) (inner : endsPrimitive c = false) : lex = .outside := by
  refine before.resolve_right fun inside => ?_
  have ends : endsPrimitive c = true := inside.2
  rw [inner] at ends
  cases ends

theorem StringScan.lex {due n : Nat} {rest : Text} (scan : StringScan due rest n) :
    Lex.string.after (rest.take (n + 1)) = .outside := by
  induction scan with
  | quote => simp [Lex.next]
  | @digit due c rest n hex _ ih =>
      have quote : c ≠ '"' ∧ c ≠ '\\' := by
        constructor <;> rintro rfl <;> exact absurd hex (by decide)
      simpa [Lex.next, quote] using ih
  | escape _ _ ih => simpa [Lex.next] using ih
  | unicode _ ih => simpa [Lex.next] using ih
  | plain _ quote backslash _ ih => simpa [Lex.next, quote, backslash] using ih

theorem jsmnParsePrimitive_lex {text : Text} {n : Nat} (nul : '\x00' ∉ text)
    (scanned : jsmnParsePrimitive text = some n) :
    Lex.primitive.after (text.take n) = .primitive ∧ Delimited (text.drop n) := by
  induction text generalizing n with
  | nil =>
      cases scanned
      exact ⟨rfl, trivial⟩
  | cons c rest ih =>
      rw [List.mem_cons, not_or] at nul
      rw [jsmnParsePrimitive, if_neg (Ne.symm nul.1)] at scanned
      split_ifs at scanned with ends bad
      · cases scanned
        exact ⟨rfl, ends⟩
      · obtain ⟨m, tail, rfl⟩ := Option.map_eq_some_iff.mp scanned
        have inner : endsPrimitive c = false := by simpa using ends
        simpa [Lex.next, inner] using ih nul.2 tail

theorem JsmnTurn.lex {p p' : JsmnParser} {text : Text} {n : Nat} {lex : Lex}
    (turn : JsmnTurn p text p' n) (nul : '\x00' ∉ text) (before : BeforeTurn lex text) :
    BeforeTurn (lex.after (text.take n)) (text.drop n) := by
  have either : lex = .outside ∨ lex = .primitive := before.imp id And.left
  cases turn with
  | opens bracket =>
      left
      rcases bracket with ⟨rfl, -⟩ | ⟨rfl, -⟩ <;>
        · rw [before.outside (by decide)]
          rfl
  | closes bracket =>
      left
      rcases bracket with ⟨rfl, -⟩ | ⟨rfl, -⟩ <;> exact Lex.next_of_ends either (by decide)
  | blank space =>
      left
      rcases space with rfl | rfl | rfl | rfl <;> exact Lex.next_of_ends either (by decide)
  | colon | comma =>
      left
      exact Lex.next_of_ends either (by decide)
  | string scanned =>
      left
      rw [before.outside (by decide)]
      exact (stringScan_of_ok scanned).lex
  | @primitive c rest n starts scanned positive =>
      right
      obtain ⟨m, rfl⟩ := Nat.exists_eq_succ_of_ne_zero (Nat.ne_of_gt positive)
      obtain ⟨inside, delimited⟩ := jsmnParsePrimitive_lex nul scanned
      have inner : endsPrimitive c = false := starts.2.2.2.1
      have tail : Lex.primitive.after (rest.take m) = .primitive := by
        simpa [Lex.next, inner] using inside
      rw [before.outside inner, List.take_succ_cons, Lex.after_cons, Lex.next_of_starts starts]
      exact ⟨tail, delimited⟩

theorem JsmnTurns.lex {p p' : JsmnParser} {text rest : Text} {lex : Lex}
    (turns : JsmnTurns p text p' rest) (nul : '\x00' ∉ text) (before : BeforeTurn lex text) :
    ∃ read, text = read ++ rest ∧ BeforeTurn (lex.after read) rest := by
  induction turns generalizing lex with
  | nil => exact ⟨[], rfl, before⟩
  | @cons p text p' n p'' rest turn turns ih =>
      obtain ⟨read, split, after⟩ :=
        ih (fun member => nul (List.mem_of_mem_drop member)) (turn.lex nul before)
      refine ⟨text.take n ++ read, ?_, ?_⟩
      · rw [List.append_assoc, ← split, List.take_append_drop]
      · rwa [Lex.after_append]

/-! ## Turns on the whole text -/

theorem jsmnParsePrimitive_append {text : Text} {n : Nat}
    (scanned : jsmnParsePrimitive text = some n) {more : Text}
    (stops : n < text.length ∨ Delimited more) : jsmnParsePrimitive (text ++ more) = some n := by
  induction text generalizing n with
  | nil =>
      cases scanned
      have delimited : Delimited more := stops.resolve_left (by simp)
      cases more with
      | nil => rfl
      | cons c more =>
          have ends : endsPrimitive c = true := delimited
          simp [jsmnParsePrimitive, ends]
  | cons c rest ih =>
      rw [List.cons_append, jsmnParsePrimitive]
      rw [jsmnParsePrimitive] at scanned
      split_ifs at scanned ⊢ with nul ends bad
      · exact scanned
      · exact scanned
      · obtain ⟨m, tail, rfl⟩ := Option.map_eq_some_iff.mp scanned
        have stops' : m < rest.length ∨ Delimited more := by
          simpa using stops
        rw [ih tail stops']
        rfl

/-- The last turn read a primitive up to the end of the text, and there is more of it. -/
structure SplitPrimitive (p q : JsmnParser) (text more : Text) where
  before : JsmnParser
  first : Char
  tail : Text
  turns : JsmnTurns p (text ++ more) before (first :: (tail ++ more))
  starts : StartsPrimitive first
  scanned : jsmnParsePrimitive (first :: tail) = some (tail.length + 1)
  leaf : q = jsmnLeaf before .primitive before.pos (before.pos + (tail.length + 1))
    (before.pos + (tail.length + 1))
  goesOn : ¬ Delimited more

/-- A turn does not look beyond what it reads, unless it reads a primitive to the end. -/
theorem JsmnTurn.append {p p' : JsmnParser} {text : Text} {n : Nat} (turn : JsmnTurn p text p' n)
    (more : Text) : JsmnTurn p (text ++ more) p' n ∨
      n = text.length ∧ Nonempty (SplitPrimitive p p' text more) := by
  cases turn with
  | opens bracket => exact .inl (.opens bracket)
  | closes bracket close => exact .inl (.closes bracket close)
  | string scanned => exact .inl (.string ((stringScan_of_ok scanned).append more).ok)
  | blank space => exact .inl (.blank space)
  | colon => exact .inl .colon
  | comma => exact .inl .comma
  | @primitive c rest n starts scanned positive =>
      by_cases stops : n < (c :: rest).length ∨ Delimited more
      · exact .inl (.primitive starts (jsmnParsePrimitive_append scanned stops) positive)
      · rw [not_or] at stops
        have bound := (jsmnParsePrimitive_reads scanned).1
        have all : n = (c :: rest).length := by omega
        subst all
        exact .inr ⟨rfl, ⟨⟨p, c, rest, .nil, starts, scanned, rfl, stops.2⟩⟩⟩

theorem JsmnTurns.of_nil {p q : JsmnParser} {rest : Text} (turns : JsmnTurns p [] q rest) :
    q = p ∧ rest = [] := by
  cases turns with
  | nil => exact ⟨rfl, rfl⟩
  | cons turn =>
      obtain ⟨c, rest, split, -⟩ := turn.cons
      cases split

/-- The turns on a text are turns on any longer text, but for a primitive that is split. -/
theorem JsmnTurns.append {p q : JsmnParser} {text rest : Text} (turns : JsmnTurns p text q rest)
    (more : Text) : JsmnTurns p (text ++ more) q (rest ++ more) ∨
      rest = [] ∧ Nonempty (SplitPrimitive p q text more) := by
  induction turns with
  | nil => exact .inl .nil
  | @cons p text p' n q rest turn turns ih =>
      have drop : (text ++ more).drop n = text.drop n ++ more :=
        List.drop_append_of_le_length turn.pos.2.1
      rcases turn.append more with longer | ⟨all, split⟩
      · rcases ih with whole | ⟨none, ⟨split⟩⟩
        · exact .inl (.cons longer (drop ▸ whole))
        · exact .inr ⟨none, ⟨{ split with turns := .cons longer (drop ▸ split.turns) }⟩⟩
      · rw [all, List.drop_length] at turns
        obtain ⟨rfl, rfl⟩ := turns.of_nil
        exact .inr ⟨rfl, split⟩

/-! ## Where the cut is -/

theorem eq_of_map_eq_error {ε α β : Type} {x : Except ε α} {f : α → β} {e : ε}
    (mapped : x.map f = .error e) : x = .error e := by
  cases x with
  | error e' =>
      cases mapped
      rfl
  | ok a => cases mapped

theorem jsmnParseString_part {due : Nat} {rest : Text} (nul : '\x00' ∉ rest)
    (part : jsmnParseString due rest = .error .part) :
    Lex.string.after rest = .string ∨ Lex.string.after rest = .escape := by
  fun_induction jsmnParseString due rest with
  | case1 => exact .inl rfl
  | case2 | case5 => simp at nul
  | case4 | case6 | case10 => cases part
  | case3 due c rest nul' hex ih =>
      have quote : c ≠ '"' ∧ c ≠ '\\' := by
        constructor <;> rintro rfl <;> exact absurd hex (by decide)
      rw [List.mem_cons, not_or] at nul
      simpa [Lex.next, quote] using ih nul.2 (eq_of_map_eq_error part)
  | case7 => exact .inr rfl
  | case8 e rest simple _ _ ih =>
      simp only [List.mem_cons, not_or] at nul
      simpa [Lex.next] using ih nul.2.2 (eq_of_map_eq_error part)
  | case9 rest _ _ _ ih =>
      simp only [List.mem_cons, not_or] at nul
      simpa [Lex.next] using ih nul.2.2 (eq_of_map_eq_error part)
  | case11 c rest nul' quote backslash ih =>
      rw [List.mem_cons, not_or] at nul
      simpa [Lex.next, quote, backslash] using ih nul.2 (eq_of_map_eq_error part)

theorem jsmnStep_part {p : JsmnParser} {c : Char} {rest : Text}
    (step : jsmnStep p c rest = .error .part) :
    c = '"' ∧ jsmnParseString 0 rest = .error .part := by
  have close : ∀ type, jsmnClose p type ≠ .error .part := by
    intro type part
    unfold jsmnClose at part
    split at part
    · cases part
    · split_ifs at part
      cases part
  unfold jsmnStep at step
  split_ifs at step with openObj openArr closeObj closeArr quote blank colon comma
  · exact absurd (eq_of_map_eq_error step) (close _)
  · exact absurd (eq_of_map_eq_error step) (close _)
  · exact ⟨quote, eq_of_map_eq_error step⟩
  · split at step <;> cases step

section Cut

variable {p q : JsmnParser} {text rest more : Text} {lex : Lex}

theorem SplitPrimitive.inside (split : SplitPrimitive p q text more) (nul : '\x00' ∉ text ++ more)
    (before : BeforeTurn lex (text ++ more)) : lex.after text = .primitive := by
  obtain ⟨read, whole, there⟩ := split.turns.lex nul before
  have here : text = read ++ split.first :: split.tail := by
    refine List.append_cancel_right (whole.trans ?_)
    simp
  have inner : endsPrimitive split.first = false := split.starts.2.2.2.1
  have nul' : '\x00' ∉ split.first :: split.tail := by
    intro member
    refine nul (List.mem_append_left _ ?_)
    rw [here]
    exact List.mem_append_right _ member
  have inside := (jsmnParsePrimitive_lex nul' split.scanned).1
  rw [List.take_of_length_le (by simp), Lex.after_cons] at inside
  have stays : Lex.primitive.next split.first = .primitive := by simp [Lex.next, inner]
  rw [stays] at inside
  rw [here, Lex.after_append, there.outside inner, Lex.after_cons, Lex.next_of_starts split.starts,
    inside]

/-- Where the turns on a text are turns on the longer text, it is not cut in a primitive. -/
theorem JsmnTurns.delimited (turns : JsmnTurns p (text ++ more) q (rest ++ more))
    {e : Option JsmnErr} (ends : JsmnEnds q rest e) (fine : e ≠ some .inval)
    (nul : '\x00' ∉ text ++ more) (before : BeforeTurn lex (text ++ more))
    (inside : lex.after text = .primitive) : Delimited more := by
  obtain ⟨read, whole, there⟩ := turns.lex nul before
  have here : text = read ++ rest := by
    refine List.append_cancel_right (whole.trans ?_)
    simp
  rw [here, Lex.after_append] at inside
  cases ends with
  | empty =>
      rcases there with outside | inside'
      · rw [outside] at inside
        cases inside
      · exact inside'.2
  | nul =>
      refine absurd (List.mem_append_left _ ?_) nul
      simp [here]
  | @stuck c rest e nul' step =>
      cases e with
      | inval => exact absurd rfl fine
      | part =>
          obtain ⟨rfl, part⟩ := jsmnStep_part step
          have nul'' : '\x00' ∉ rest := by
            intro member
            refine nul (List.mem_append_left _ ?_)
            simp [here, member]
          rw [there.outside (by decide), Lex.after_cons] at inside
          have string : Lex.outside.next '"' = .string := rfl
          rw [string] at inside
          rcases jsmnParseString_part nul'' part with string | escape
          · rw [string] at inside
            cases inside
          · rw [escape] at inside
            cases inside

/-- Unless a primitive is cut, the parser stands where it would on the longer text. -/
theorem JsmnTurns.append_of_not_cut (turns : JsmnTurns p text q rest)
    (nul : '\x00' ∉ text ++ more) (before : BeforeTurn lex (text ++ more))
    (whole : ¬ (lex.after text = .primitive ∧ ¬ Delimited more)) :
    JsmnTurns p (text ++ more) q (rest ++ more) := by
  refine (turns.append more).resolve_right ?_
  rintro ⟨-, ⟨split⟩⟩
  exact whole ⟨split.inside nul before, split.goesOn⟩

theorem JsmnTurns.split_of_cut (turns : JsmnTurns p text q rest) {e : Option JsmnErr}
    (ends : JsmnEnds q rest e) (fine : e ≠ some .inval) (nul : '\x00' ∉ text ++ more)
    (before : BeforeTurn lex (text ++ more)) (inside : lex.after text = .primitive)
    (goesOn : ¬ Delimited more) : Nonempty (SplitPrimitive p q text more) := by
  refine ((turns.append more).resolve_left fun whole => ?_).2
  exact goesOn (whole.delimited ends fine nul before inside)

end Cut

theorem JsmnTurns.run {p q : JsmnParser} {text rest : Text} (turns : JsmnTurns p text q rest) :
    jsmnRun p text = jsmnRun q rest := by
  induction turns with
  | nil => rfl
  | cons turn _ ih =>
      obtain ⟨c, rest, rfl, nul⟩ := turn.cons
      rw [jsmnRun_step nul turn.step, ih]

theorem jsmnParseString_inval_append {due : Nat} {rest : Text}
    (inval : jsmnParseString due rest = .error .inval) (more : Text) :
    jsmnParseString due (rest ++ more) = .error .inval := by
  fun_induction jsmnParseString due rest with
  | case1 | case2 | case5 | case6 | case7 => cases inval
  | case3 due c rest nul hex ih =>
      rw [List.cons_append, jsmnParseString, if_neg nul, if_pos hex,
        ih (eq_of_map_eq_error inval)]
      rfl
  | case4 due c rest nul hex =>
      rw [List.cons_append, jsmnParseString, if_neg nul, if_neg hex]
  | case8 e rest simple _ _ ih =>
      have tail := ih (eq_of_map_eq_error inval)
      simp [jsmnParseString, simple, tail, Except.map]
  | case9 rest _ _ _ ih =>
      have tail := ih (eq_of_map_eq_error inval)
      have long : isSimpleEscape 'u' = false := by decide
      simp [jsmnParseString, long, tail, Except.map]
  | case10 e rest simple other _ _ =>
      simp [jsmnParseString, simple, other]
  | case11 c rest nul quote backslash ih =>
      have tail := ih (eq_of_map_eq_error inval)
      rw [List.cons_append, jsmnParseString_plain _ quote backslash nul, tail]
      rfl

theorem jsmnParsePrimitive_none_append {text : Text} (none : jsmnParsePrimitive text = none)
    (more : Text) : jsmnParsePrimitive (text ++ more) = .none := by
  induction text with
  | nil => cases none
  | cons c rest ih =>
      rw [List.cons_append, jsmnParsePrimitive]
      rw [jsmnParsePrimitive] at none
      split_ifs at none ⊢ with nul ends bad
      · rfl
      · rw [ih (Option.map_eq_none_iff.mp none)]
        rfl

theorem jsmnStep_inval_append {p : JsmnParser} {c : Char} {rest : Text}
    (step : jsmnStep p c rest = .error .inval) (more : Text) :
    jsmnStep p c (rest ++ more) = .error .inval := by
  unfold jsmnStep at step ⊢
  split_ifs at step ⊢ with openObj openArr closeObj closeArr quote blank colon comma
  · rw [eq_of_map_eq_error step]
    rfl
  · rw [eq_of_map_eq_error step]
    rfl
  · rw [jsmnParseString_inval_append (eq_of_map_eq_error step) more]
    rfl
  · split at step
    · next none =>
        rw [← List.cons_append, jsmnParsePrimitive_none_append none more]
    · cases step

/-! ## Tokens on the way -/

/-- What may still come of a token: more items, and its end. -/
structure JsmnTok.Becomes (t t' : JsmnTok) : Prop where
  type : t'.type = t.type
  start : t'.start = t.start
  stop : ∀ stop, t.stop = some stop → t'.stop = some stop
  size : t.size ≤ t'.size

/-- Tokens are kept where they are. -/
def Extends (tokens tokens' : List JsmnTok) : Prop :=
  ∀ (i : Nat) (t : JsmnTok), tokens[i]? = some t → ∃ t', tokens'[i]? = some t' ∧ t.Becomes t'

theorem Extends.refl (tokens : List JsmnTok) : Extends tokens tokens :=
  fun _ t found => ⟨t, found, rfl, rfl, fun _ ends => ends, le_rfl⟩

theorem Extends.trans {a b c : List JsmnTok} (first : Extends a b) (second : Extends b c) :
    Extends a c := by
  intro i t found
  obtain ⟨t', found', becomes⟩ := first i t found
  obtain ⟨t'', found'', becomes'⟩ := second i t' found'
  exact ⟨t'', found'', becomes'.type.trans becomes.type, becomes'.start.trans becomes.start,
    fun stop ends => becomes'.stop stop (becomes.stop stop ends),
    le_trans becomes.size becomes'.size⟩

theorem extends_append (tokens more : List JsmnTok) : Extends tokens (tokens ++ more) := by
  intro i t found
  refine ⟨t, ?_, rfl, rfl, fun _ ends => ends, le_rfl⟩
  rw [List.getElem?_append_left (List.getElem?_eq_some_iff.mp found).1]
  exact found

theorem extends_modify {tokens : List JsmnTok} {i : Nat} {f : JsmnTok → JsmnTok}
    (becomes : ∀ t, tokens[i]? = some t → t.Becomes (f t)) :
    Extends tokens (tokens.modify i f) := by
  intro j t found
  rw [List.getElem?_modify, found]
  by_cases same : i = j
  · subst same
    exact ⟨f t, by simp, becomes t found⟩
  · exact ⟨t, by simp [same], rfl, rfl, fun _ ends => ends, le_rfl⟩

theorem extends_incSize (toksuper : Option Nat) (tokens : List JsmnTok) :
    Extends tokens (incSize toksuper tokens) := by
  cases toksuper with
  | none => exact .refl tokens
  | some i => exact extends_modify fun t _ => ⟨rfl, rfl, fun _ ends => ends, Nat.le_succ _⟩

theorem lastIdx_some {α : Type} {p : α → Bool} {as : List α} {i : Nat}
    (last : lastIdx p as = some i) : ∃ a, as[i]? = some a ∧ p a = true := by
  induction as generalizing i with
  | nil => cases last
  | cons a as ih =>
      rw [lastIdx] at last
      split at last
      · next j found =>
          cases last
          exact ih found
      · split_ifs at last with holds
        cases last
        exact ⟨a, rfl, holds⟩

theorem JsmnTurn.extends {p p' : JsmnParser} {text : Text} {n : Nat}
    (turn : JsmnTurn p text p' n) : Extends p.tokens p'.tokens := by
  cases turn with
  | opens | string | primitive =>
      exact (extends_incSize _ _).trans (extends_append _ _)
  | closes bracket close =>
      obtain ⟨i, -, last, -, -, rfl⟩ := jsmnClose_ok close
      obtain ⟨t, found, opened⟩ := lastIdx_some last
      refine extends_modify fun t' found' => ⟨rfl, rfl, fun stop ends => ?_, le_rfl⟩
      rw [found] at found'
      cases found'
      simp [JsmnTok.isOpen, ends] at opened
  | blank | colon | comma => exact .refl _

theorem JsmnTurns.extends {p p' : JsmnParser} {text rest : Text}
    (turns : JsmnTurns p text p' rest) : Extends p.tokens p'.tokens := by
  induction turns with
  | nil => exact .refl _
  | cons turn _ ih => exact turn.extends.trans ih

/-- What there is of tokens stays through every call of the tokenizer. -/
theorem extends_jsmnParse (p : JsmnParser) (js : Text) :
    Extends p.tokens (jsmnParse p js).1.tokens :=
  jsmnParse_keeps (P := fun q => Extends p.tokens q.tokens)
    (fun sofar turn => sofar.trans turn.extends) (.refl _)

end Payz
