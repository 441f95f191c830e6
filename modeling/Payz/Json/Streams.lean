import Payz.Json.Cuts
import Payz.Json.TokenEqual

/-! # Messages one after the other

A stream of JSON objects with blanks around them, and what the tokenizer has found when part
of it has arrived: for a message that is there in full its tokens, whatever follows; for one
that is not, a root that is still open.
-/

namespace Payz

open Layout

/-- The stream of these messages, each with the blanks in front of it, and the blanks at the
    end. -/
def streamText : List (Text × Json) → Text → Text
  | [], last => last
  | (w, j) :: msgs, last => w ++ (j.jsonTokFull ++ streamText msgs last)

/-- An object with blanks in front. -/
structure MessageText (m : Text × Json) : Prop where
  blanks : Blanks m.1
  wellFormed : m.2.WellFormed
  object : ∃ text members, m.2 = .object text members

/-! ## Tokens behind others -/

/-- The first character that is not blank is a colon or a comma. -/
def PunctuationFirst (text : Text) : Prop :=
  ∃ w c rest, Blanks w ∧ (c = ':' ∨ c = ',') ∧ text = w ++ c :: rest

/-- These tokens come first and are not touched any more. -/
structure Behind (ts : List JsmnTok) (p : JsmnParser) (text : Text) : Prop where
  split : ∃ more, p.tokens = ts ++ more ∧ (more = [] → ¬ PunctuationFirst text)
  super : ∀ i, p.toksuper = some i → ts.length ≤ i

theorem modify_behind (ts more : List JsmnTok) (k : Nat) (f : JsmnTok → JsmnTok) :
    (ts ++ more).modify (ts.length + k) f = ts ++ more.modify k f := by
  induction ts with
  | nil => simp
  | cons t ts ih =>
      have further : (t :: ts).length + k = ts.length + k + 1 := by
        rw [List.length_cons]
        omega
      rw [further, List.cons_append, List.modify_succ_cons, ih, List.cons_append]

theorem incSize_behind {toksuper : Option Nat} {ts : List JsmnTok} (more : List JsmnTok)
    (super : ∀ i, toksuper = some i → ts.length ≤ i) :
    ∃ more', incSize toksuper (ts ++ more) = ts ++ more' := by
  cases toksuper with
  | none => exact ⟨more, rfl⟩
  | some i =>
      obtain ⟨k, rfl⟩ := Nat.exists_eq_add_of_le (super i rfl)
      exact ⟨_, modify_behind ts more k _⟩

theorem lastIdx_behind {f : JsmnTok → Bool} {ts tokens : List JsmnTok}
    (no : ∀ t ∈ ts, f t = false) {i : Nat} (last : lastIdx f tokens = some i)
    {more : List JsmnTok} (early : tokens <+: ts ++ more) : ts.length ≤ i := by
  obtain ⟨t, found, holds⟩ := lastIdx_some last
  by_contra before
  have there : (ts ++ more)[i]? = some t := by
    obtain ⟨later, split⟩ := early
    rw [← split]
    exact List.getElem?_append_left (List.getElem?_eq_some_iff.mp found).1 ▸ found
  rw [List.getElem?_append_left (by omega)] at there
  rw [no t (List.mem_of_getElem? there)] at holds
  cases holds

theorem Behind.leaf {ts : List JsmnTok} {p : JsmnParser} {text : Text} (behind : Behind ts p text)
    (type : JsmnType) (start stop next : Nat) (rest : Text) :
    Behind ts (jsmnLeaf p type start stop next) rest := by
  obtain ⟨⟨more, tokens, -⟩, super⟩ := behind
  obtain ⟨more', counted⟩ := incSize_behind more super
  refine ⟨⟨more' ++ [⟨type, start, some stop, 0⟩], ?_, by simp⟩, super⟩
  rw [jsmnLeaf, tokens, counted, List.append_assoc]

theorem Behind.turn {ts : List JsmnTok} (closed : ∀ t ∈ ts, t.isOpen = false) {p p' : JsmnParser}
    {text : Text} {n : Nat} (behind : Behind ts p text) (turn : JsmnTurn p text p' n) :
    Behind ts p' (text.drop n) := by
  have before := behind
  obtain ⟨⟨more, tokens, plain⟩, super⟩ := behind
  cases turn with
  | @opens c type rest bracket =>
      obtain ⟨more', counted⟩ := incSize_behind more super
      refine ⟨⟨more' ++ [⟨type, p.pos, none, 0⟩], ?_, by simp⟩, ?_⟩
      · rw [jsmnOpen, tokens, counted, List.append_assoc]
      · intro i here
        cases here
        simp [tokens]
  | closes bracket close =>
      obtain ⟨i, t, last, found, -, rfl⟩ := jsmnClose_ok close
      have all : p.tokens <+: ts ++ more := ⟨[], by rw [tokens, List.append_nil]⟩
      have later : ts.length ≤ i := lastIdx_behind closed last all
      obtain ⟨k, rfl⟩ := Nat.exists_eq_add_of_le later
      have further : more ≠ [] := by
        rintro rfl
        simp [tokens] at found
      refine ⟨⟨more.modify k fun t => { t with stop := some (p.pos + 1) }, ?_, ?_⟩, ?_⟩
      · rw [tokens]
        exact modify_behind ts more k _
      · intro none
        rw [List.modify_eq_nil_iff] at none
        exact absurd none further
      · intro j here
        rw [tokens] at here
        exact lastIdx_behind closed here (List.take_prefix _ _)
  | string | primitive => exact before.leaf _ _ _ _ _
  | @blank c rest space =>
      refine ⟨⟨more, tokens, fun none mark => plain none ?_⟩, super⟩
      obtain ⟨w, d, rest', blanks, which, split⟩ := mark
      rw [List.drop_one, List.tail_cons] at split
      refine ⟨c :: w, d, rest', ?_, which, by rw [split]; rfl⟩
      rw [Blanks, List.forall_mem_cons]
      refine ⟨?_, blanks⟩
      rcases space with rfl | rfl | rfl | rfl <;> decide
  | colon =>
      have further : more ≠ [] := fun none =>
        plain none ⟨[], _, _, Blanks.nil, .inl rfl, rfl⟩
      refine ⟨⟨more, tokens, fun none => absurd none further⟩, ?_⟩
      intro i here
      have positive : 0 < more.length := List.length_pos_iff.mpr further
      simp only [jsmnColon, tokens, List.length_append] at here
      split_ifs at here
      cases here
      omega
  | @comma rest =>
      have further : more ≠ [] := fun none =>
        plain none ⟨[], _, _, Blanks.nil, .inr rfl, rfl⟩
      refine ⟨⟨more, tokens, fun none => absurd none further⟩, ?_⟩
      intro i here
      unfold jsmnComma at here
      dsimp only at here
      split at here
      · cases here
      · next j held =>
          split_ifs at here
          · cases here
            exact super _ held
          · rcases Option.or_eq_some_iff.mp here with last | ⟨-, same⟩
            · have all : p.tokens <+: ts ++ more := ⟨[], by rw [tokens, List.append_nil]⟩
              refine lastIdx_behind (fun t member => ?_) last all
              simp [closed t member]
            · cases same
              exact super _ held

theorem Behind.turns {ts : List JsmnTok} (closed : ∀ t ∈ ts, t.isOpen = false)
    {p p' : JsmnParser} {text rest : Text} (behind : Behind ts p text)
    (turns : JsmnTurns p text p' rest) : Behind ts p' rest :=
  turns.keeps (fun behind turn => behind.turn closed turn) behind

/-! ## What stands in a stream -/

theorem isBlank_of_split {w : Text} {c : Char} {rest : Text} (blanks : Blanks (w ++ c :: rest)) :
    IsBlank c := blanks c (by simp)

theorem first_unique {w w' rest rest' : Text} {c c' : Char} (blanks : Blanks w)
    (blanks' : Blanks w') (mark : ¬ IsBlank c) (mark' : ¬ IsBlank c')
    (same : w ++ c :: rest = w' ++ c' :: rest') : c = c' := by
  induction w generalizing w' with
  | nil =>
      cases w' with
      | nil => exact (List.cons.inj same).1
      | cons b w' =>
          obtain ⟨rfl, -⟩ := List.cons.inj same
          exact absurd (blanks' _ (by simp)) mark
  | cons b w ih =>
      cases w' with
      | nil =>
          obtain ⟨rfl, -⟩ := List.cons.inj same
          exact absurd (blanks _ (by simp)) mark'
      | cons b' w' =>
          rw [Blanks, List.forall_mem_cons] at blanks blanks'
          exact ih blanks.2 blanks'.2 (List.cons.inj same).2

theorem jsonTokFull_object {j : Json} (wellFormed : j.WellFormed)
    (object : ∃ text members, j = .object text members) :
    ∃ body, j.jsonTokFull = '{' :: (body ++ ['}']) := by
  obtain ⟨text, members, rfl⟩ := object
  cases wellFormed with
  | object keys values sep => exact ⟨_, rfl⟩

theorem streamText_plain {msgs : List (Text × Json)} {last : Text}
    (messages : ∀ m ∈ msgs, MessageText m) (blanks : Blanks last) :
    ¬ PunctuationFirst (streamText msgs last) := by
  rintro ⟨w, c, rest, blanks', which, split⟩
  have mark : ¬ IsBlank c := by
    rcases which with rfl | rfl <;> decide
  cases msgs with
  | nil =>
      rw [streamText] at split
      exact mark (isBlank_of_split (split ▸ blanks))
  | cons m msgs =>
      obtain ⟨w', j⟩ := m
      have message := messages _ List.mem_cons_self
      obtain ⟨body, text⟩ := jsonTokFull_object message.wellFormed message.object
      rw [streamText, text] at split
      have same := first_unique message.blanks blanks' (by decide) mark split
      rw [← same] at which
      revert which
      decide

theorem JsmnTurns.reads {p q : JsmnParser} {text rest : Text} (turns : JsmnTurns p text q rest) :
    ∃ read, text = read ++ rest ∧ q.pos = p.pos + read.length ∧ '\x00' ∉ read := by
  induction turns with
  | nil => exact ⟨[], rfl, rfl, by simp⟩
  | @cons p text p' n q rest turn turns ih =>
      obtain ⟨pos, bound, nul⟩ := turn.pos
      obtain ⟨read, split, pos', nul'⟩ := ih
      refine ⟨text.take n ++ read, ?_, ?_, ?_⟩
      · rw [List.append_assoc, ← split, List.take_append_drop]
      · rw [pos', pos, List.length_append, List.length_take, Nat.min_eq_left bound, Nat.add_assoc]
      · rw [List.mem_append, not_or]
        exact ⟨nul, nul'⟩

/-- The tokens of a message, which the tokenizer reads whatever it has read before. -/
theorem MessageText.turns {m : Text × Json} (message : MessageText m) (p : JsmnParser) :
    ∃ ts, Reads (List.replicate p.pos ' ' ++ (m.1 ++ m.2.jsonTokFull)) ts m.2 ∧
      '\x00' ∉ m.1 ++ m.2.jsonTokFull ∧ ∀ more, '\x00' ∉ more →
        JsmnTurns p (m.1 ++ (m.2.jsonTokFull ++ more))
          (JsmnParser.push { p with pos := p.pos + m.1.length } m.2 ts) more := by
  obtain ⟨w, j⟩ := m
  obtain ⟨blanks, wellFormed, object⟩ := message
  dsimp only at blanks wellFormed object ⊢
  let p' : JsmnParser := { p with pos := p.pos + w.length }
  have drop : (List.replicate p.pos ' ' ++ (w ++ j.jsonTokFull)).drop p'.pos =
      j.jsonTokFull ++ [] := by
    rw [← List.append_assoc, List.append_nil]
    exact List.drop_left' (by simp [p'])
  obtain ⟨ts, reads, run⟩ := wellFormed.tokenized _ p' [] drop trivial
  have here : jsmnRun p (w ++ j.jsonTokFull) = (p'.push j ts, none) := by
    rw [jsmnRun_blanks blanks]
    simpa [jsmnRun, jsmnLoop] using run
  obtain ⟨rest, turns, ends⟩ := jsmnRun_turns p (w ++ j.jsonTokFull)
  rw [here] at turns ends
  obtain ⟨read, split, pos, nul⟩ := turns.reads
  have length := congrArg List.length split
  have none : rest = [] := by
    refine List.eq_nil_of_length_eq_zero ?_
    simp only [List.length_append, JsmnParser.push, p'] at length pos
    omega
  subst none
  rw [List.append_nil] at split
  rw [← split] at nul
  refine ⟨ts, reads, nul, fun more nul' => ?_⟩
  obtain ⟨body, text⟩ := jsonTokFull_object wellFormed object
  have nul'' : '\x00' ∉ w ++ j.jsonTokFull ++ more := by
    rw [List.mem_append, not_or]
    exact ⟨nul, nul'⟩
  rw [← List.append_assoc]
  refine turns.append_of_not_cut nul'' (.inl rfl) ?_
  rintro ⟨inside, -⟩
  rw [text, ← List.cons_append, ← List.append_assoc, Lex.after_append] at inside
  exact Lex.next_brace _ inside

theorem nul_not_mem_blanks {w : Text} (blanks : Blanks w) : '\x00' ∉ w := fun member =>
  absurd (blanks _ member) (by decide)

theorem nul_not_mem_streamText {msgs : List (Text × Json)} {last : Text}
    (messages : ∀ m ∈ msgs, MessageText m) (blanks : Blanks last) :
    '\x00' ∉ streamText msgs last := by
  induction msgs with
  | nil => exact nul_not_mem_blanks blanks
  | cons m msgs ih =>
      rw [List.forall_mem_cons] at messages
      obtain ⟨-, -, nul, -⟩ := messages.1.turns jsmnInit
      rw [streamText, ← List.append_assoc, List.mem_append, not_or]
      exact ⟨nul, ih messages.2⟩

theorem streamText_run {msgs : List (Text × Json)} {last : Text}
    (messages : ∀ m ∈ msgs, MessageText m) (blanks : Blanks last) (p : JsmnParser) :
    (jsmnRun p (streamText msgs last)).2 = none := by
  induction msgs generalizing p with
  | nil =>
      have run := jsmnRun_blanks blanks p []
      rw [List.append_nil] at run
      rw [streamText, run]
      rfl
  | cons m msgs ih =>
      rw [List.forall_mem_cons] at messages
      obtain ⟨ts, -, -, turns⟩ := messages.1.turns p
      have run := (turns _ (nul_not_mem_streamText messages.2 blanks)).run
      rw [streamText, run]
      exact ih messages.2 _

theorem jsmnRun_stuck {p : JsmnParser} {c : Char} {rest : Text} {e : JsmnErr} (nul : c ≠ '\x00')
    (step : jsmnStep p c rest = .error e) : jsmnRun p (c :: rest) = (p, some e) := by
  simp only [jsmnRun, List.length_cons, jsmnLoop, nul, if_false, step]

theorem jsmnRun_firstPart {p : JsmnParser} {text more : Text}
    (whole : (jsmnRun p (text ++ more)).2 = none) : (jsmnRun p text).2 ≠ some .inval := by
  intro inval
  obtain ⟨rest, turns, ends⟩ := jsmnRun_turns p text
  rw [inval] at ends
  cases ends with
  | @stuck c rest e nul step =>
      have longer := (turns.append more).resolve_right (by simp)
      have stuck := jsmnRun_stuck nul (jsmnStep_inval_append step more)
      rw [longer.run, List.cons_append, stuck] at whole
      cases whole

/-! ## The tokens of a message -/

/-- What is read from one buffer is read from another where the tokens have the same text. -/
theorem readMany_other {α : Type} {read read' : List JsmnTok → Option (α × List JsmnTok)}
    (skips : Skips read) {k : Nat} {toks : List JsmnTok} {items : List α} {rest : List JsmnTok}
    (other : ∀ toks' a rest, toks' <:+ toks → read toks' = some (a, rest) →
      read' toks' = some (a, rest))
    (all : readMany read k toks = some (items, rest)) :
    readMany read' k toks = some (items, rest) := by
  induction k generalizing toks items with
  | zero => exact all
  | succ k ih =>
      obtain ⟨item, toks', items', first, rfl, tail⟩ := readMany_succ all
      have suffix := (skips first).1
      have later := ih (fun toks'' a rest there => other toks'' a rest (there.trans suffix)) tail
      rw [readMany, other _ _ _ List.suffix_rfl first]
      dsimp only
      rw [later]
      rfl

theorem validateJsmnDatum_other {fuel : Nat} {buffer buffer' : Text} {toks : List JsmnTok}
    {j : Json} {rest : List JsmnTok} (same : ∀ t ∈ toks, tokText buffer t = tokText buffer' t)
    (valid : validateJsmnDatum fuel buffer toks = some (j, rest)) :
    validateJsmnDatum fuel buffer' toks = some (j, rest) := by
  induction fuel generalizing toks j rest with
  | zero => cases valid
  | succ fuel ih =>
      obtain ⟨t, toks', rfl, datum⟩ := validateJsmnDatum_read valid
      rw [List.forall_mem_cons] at same
      have later : ∀ toks'' a rest, toks'' <:+ toks' →
          validateJsmnDatum fuel buffer toks'' = some (a, rest) →
          validateJsmnDatum fuel buffer' toks'' = some (a, rest) := fun toks'' a rest there =>
        ih fun t member => same.2 t (there.subset member)
      cases datum with
      | string type leaf | primitive type leaf =>
          rw [validateJsmnDatum, type]
          simp [leaf, same.1]
      | array type all =>
          have all' := readMany_other (skips_validateJsmnDatum fuel buffer) later all
          rw [validateJsmnDatum, type, all', same.1]
          rfl
      | object type all =>
          have members : ∀ toks'' a rest, toks'' <:+ toks' →
              validateJsmnKeyvalue (validateJsmnDatum fuel buffer) buffer toks'' = some (a, rest) →
              validateJsmnKeyvalue (validateJsmnDatum fuel buffer') buffer' toks'' =
                some (a, rest) := by
            rintro toks'' ⟨key, value⟩ rest there valid
            obtain ⟨t', toks', rfl, string, single, rfl, first⟩ :=
              validateJsmnKeyvalue_read valid
            have suffix := (List.suffix_cons t' toks').trans there
            rw [validateJsmnKeyvalue, if_pos ⟨string, single⟩, later _ _ _ suffix first,
              same.2 t' (there.subset List.mem_cons_self)]
            rfl
          have all' := readMany_other ((skips_validateJsmnDatum fuel buffer).keyvalue buffer)
            members all
          rw [validateJsmnDatum, type, all', same.1]
          rfl

/-- The tokens of a message that stands at the start of a buffer. -/
structure MessageTokens (m : Text × Json) (ts : List JsmnTok) : Prop where
  closed : ∀ t ∈ ts, t.isOpen = false
  root : ∃ root tail, ts = root :: tail ∧ root.type = .object ∧
    root.stop = some (m.1.length + m.2.jsonTokFull.length)
  skipped : ∀ more, jsonNext (ts ++ more) = more
  validated : ∀ more,
    validateJsmnDatum ts.length (m.1 ++ (m.2.jsonTokFull ++ more)) ts = some (m.2, [])
  nul : '\x00' ∉ m.1 ++ m.2.jsonTokFull
  turns : ∀ more, '\x00' ∉ more → JsmnTurns jsmnInit (m.1 ++ (m.2.jsonTokFull ++ more))
    ⟨m.1.length + m.2.jsonTokFull.length, none, ts⟩ more

theorem tokText_append {buffer : Text} {t : JsmnTok} (ranged : t.Ranged buffer.length)
    (more : Text) : tokText (buffer ++ more) t = tokText buffer t := by
  unfold tokText
  rw [List.drop_append_of_le_length ranged.start]
  cases ends : t.stop with
  | none => simp
  | some stop =>
      obtain ⟨order, bound⟩ := ranged.stop stop ends
      rw [Option.getD_some]
      refine List.take_append_of_le_length ?_
      rw [List.length_drop]
      omega

theorem jsmnTurns_blanks {w : Text} (blanks : Blanks w) (p : JsmnParser) (rest : Text) :
    JsmnTurns p (w ++ rest) { p with pos := p.pos + w.length } rest := by
  induction w generalizing p with
  | nil => exact .nil
  | cons c w ih =>
      rw [Blanks, List.forall_mem_cons] at blanks
      have space : c = '\t' ∨ c = '\r' ∨ c = '\n' ∨ c = ' ' := by
        rcases blanks.1 with rfl | rfl | rfl | rfl <;> simp
      refine .cons (.blank space) ?_
      have later := ih blanks.2 { p with pos := p.pos + 1 }
      rw [List.length_cons, Nat.add_comm w.length, ← Nat.add_assoc]
      exact later

theorem DatumRead.text {fuel : Nat} {buffer : Text} {t : JsmnTok} {toks rest : List JsmnTok}
    {j : Json} (datum : DatumRead fuel buffer t toks j rest) :
    j.jsonStrdup = tokText buffer t := by
  cases datum with
  | string | primitive | array | object => rfl

/-- The root of a message is its object, from the first bracket on. -/
theorem root_starts {w body : Text} (blanks : Blanks w) {p : JsmnParser}
    (turns : JsmnTurns jsmnInit (w ++ '{' :: body) p []) :
    ∃ root, p.tokens[0]? = some root ∧ root.type = .object ∧ root.start = w.length := by
  let inner : JsmnParser := jsmnOpen ⟨w.length, none, []⟩ .object
  have skip := (jsmnTurns_blanks blanks jsmnInit ('{' :: body)).run
  have opens : JsmnTurns ⟨w.length, none, []⟩ ('{' :: body) inner body :=
    .cons (.opens (.inl ⟨rfl, rfl⟩)) .nil
  have run : jsmnRun inner body = (p, none) := by
    have position : ({ jsmnInit with pos := jsmnInit.pos + w.length } : JsmnParser) =
        ⟨w.length, none, []⟩ := by simp [jsmnInit]
    rw [← opens.run, ← position, ← skip, turns.run]
    rfl
  obtain ⟨rest, later, -⟩ := jsmnRun_turns inner body
  rw [run] at later
  obtain ⟨root, found, becomes⟩ := later.extends 0 ⟨.object, w.length, none, 0⟩ rfl
  exact ⟨root, found, becomes.type, becomes.start⟩

theorem MessageText.tokens {m : Text × Json} (message : MessageText m) :
    ∃ ts, MessageTokens m ts := by
  obtain ⟨ts, reads, nul, turns⟩ := message.turns jsmnInit
  obtain ⟨text, members, object⟩ := message.object
  obtain ⟨w, j⟩ := m
  dsimp only at reads nul turns object ⊢
  have start : jsmnInit.pos = 0 := rfl
  rw [start, List.replicate_zero, List.nil_append] at reads
  have push : JsmnParser.push { jsmnInit with pos := jsmnInit.pos + w.length } j ts =
      ⟨w.length + j.jsonTokFull.length, none, ts⟩ := by
    subst object
    simp [JsmnParser.push, jsmnInit, incSize, superAfter, lastIdx]
  rw [push] at turns
  let buffer := w ++ j.jsonTokFull
  have all : JsmnTurns jsmnInit buffer ⟨buffer.length, none, ts⟩ [] := by
    have none := turns [] (by simp)
    rw [List.append_nil] at none
    rwa [List.length_append]
  have reading := (JsmnTurns.reading all (reading_jsmnInit buffer)).1
  have valid := reads.validated ts.length [] le_rfl
  rw [List.append_nil] at valid
  have skipped : ∀ more, jsonNext (ts ++ more) = more := fun more => by
    simpa [jsonNext, skipData] using reads.skipped 0 more
  refine ⟨ts, reads.closed, ?_, skipped, fun more => ?_, nul, turns⟩
  · obtain ⟨body, bracket⟩ := jsonTokFull_object message.wellFormed message.object
    dsimp only at bracket
    have split : buffer = w ++ '{' :: (body ++ ['}']) := by rw [← bracket]
    obtain ⟨root, found, type, start⟩ := root_starts message.blanks (split ▸ all)
    cases ts with
    | nil => cases found
    | cons first tail =>
        cases found
        refine ⟨root, tail, rfl, type, ?_⟩
        obtain ⟨t, toks, same, datum⟩ := validateJsmnDatum_read valid
        cases same
        have full : tokText buffer root = j.jsonTokFull := by
          rw [← datum.text, object]
          rfl
        have closed := reads.closed root List.mem_cons_self
        cases ends : root.stop with
        | none => simp [JsmnTok.isOpen, ends] at closed
        | some stop =>
            have bound := ((reading.tokens root List.mem_cons_self).stop stop ends).2
            have length := congrArg List.length full
            rw [tokText, ends, start, List.length_take, List.length_drop] at length
            simp only [buffer, List.length_append, Option.getD_some] at bound length
            have positive : 0 < j.jsonTokFull.length := by simp [bracket]
            dsimp only
            congr 1
            omega
  · refine validateJsmnDatum_other (fun t member => ?_) valid
    rw [← List.append_assoc]
    exact (tokText_append (reading.tokens t member) more).symm

end Payz
