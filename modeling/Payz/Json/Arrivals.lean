import Payz.Json.Streams

/-! # Messages that arrive in parts

What `json_parse_input` says of the part of a stream that has arrived.  The parser may have
read part of it in earlier calls; `OnTrack` says that this makes no difference.
-/

namespace Payz

/-- To resume there comes to the same as to start over. -/
def OnTrack (p : JsmnParser) (buffer : Text) : Prop :=
  jsmnRun p (buffer.drop p.pos) = jsmnRun jsmnInit buffer

theorem onTrack_jsmnInit (buffer : Text) : OnTrack jsmnInit buffer := rfl

/-! ## What follows from the tokens -/

theorem jsmnParse_fine {p : JsmnParser} {input : Text}
    (fine : (jsmnRun p (input.drop p.pos)).2 ≠ some .inval) :
    (jsmnParse p input).2 ≠ some .inval := by
  have enough : jsmnLoop input.length p (input.drop p.pos) = jsmnRun p (input.drop p.pos) :=
    jsmnLoop_enough p (by rw [List.length_drop]; omega)
  unfold jsmnParse
  rw [enough]
  split
  · next run =>
      rw [run] at fine
      exact fine
  · split_ifs <;> simp

theorem jsonParseInput_root_open {p : JsmnParser} {input : Text}
    (fine : (jsmnRun p (input.drop p.pos)).2 ≠ some .inval)
    (opened : ∀ root, (jsmnRun p (input.drop p.pos)).1.tokens[0]? = some root →
      root.isOpen = true) :
    jsonParseInput p input = .incomplete (jsmnRun p (input.drop p.pos)).1 := by
  have fine' := jsmnParse_fine fine
  rw [← jsmnParse_fst] at opened ⊢
  unfold jsonParseInput
  split
  · next run => exact absurd (congrArg Prod.snd run) fine'
  · next q e _ run =>
      rw [run] at opened ⊢
      split
      · rfl
      · next root toks tokens =>
          rw [if_pos (opened root (by rw [tokens]; rfl))]

theorem jsonParseInput_read {p : JsmnParser} {input : Text} {ts more : List JsmnTok}
    {j : Json} (fine : (jsmnRun p (input.drop p.pos)).2 ≠ some .inval)
    (tokens : (jsmnRun p (input.drop p.pos)).1.tokens = ts ++ more)
    (closed : ∀ t ∈ ts, t.isOpen = false) (skipped : jsonNext (ts ++ more) = more)
    (validated : validateJsmnDatum ts.length input ts = some (j, [])) :
    jsonParseInput p input = .complete j ts := by
  have fine' := jsmnParse_fine fine
  rw [← jsmnParse_fst] at tokens
  unfold jsonParseInput
  split
  · next run => exact absurd (congrArg Prod.snd run) fine'
  · next q e _ run =>
      rw [run] at tokens
      dsimp only at tokens ⊢
      cases ts with
      | nil => cases validated
      | cons root tail =>
          have cut : (root :: tail ++ more).take ((root :: tail ++ more).length - more.length) =
              root :: tail := by
            rw [List.length_append, Nat.add_sub_cancel]
            exact List.take_left
          rw [List.cons_append] at tokens skipped cut
          rw [tokens]
          dsimp only
          rw [closed root List.mem_cons_self, skipped, cut, validated]
          rfl

/-! ## A message that is there -/

section Message

variable {m : Text × Json} {ts : List JsmnTok}

theorem MessageTokens.run (tokens : MessageTokens m ts) {rest : Text} (nul : '\x00' ∉ rest)
    (plain : ¬ PunctuationFirst rest) :
    ∃ more, (jsmnRun jsmnInit (m.1 ++ (m.2.jsonTokFull ++ rest))).1.tokens = ts ++ more := by
  let p : JsmnParser := ⟨m.1.length + m.2.jsonTokFull.length, none, ts⟩
  have start : Behind ts p rest :=
    ⟨⟨[], (List.append_nil ts).symm, fun _ => plain⟩, fun i here => by cases here⟩
  obtain ⟨rest', turns, -⟩ := jsmnRun_turns p rest
  obtain ⟨⟨more, behind, -⟩, -⟩ := start.turns tokens.closed turns
  rw [(tokens.turns rest nul).run]
  exact ⟨more, behind⟩

theorem MessageTokens.complete (tokens : MessageTokens m ts) {p : JsmnParser} {rest : Text}
    (nul : '\x00' ∉ rest) (plain : ¬ PunctuationFirst rest)
    (onTrack : OnTrack p (m.1 ++ (m.2.jsonTokFull ++ rest)))
    (fine : (jsmnRun jsmnInit (m.1 ++ (m.2.jsonTokFull ++ rest))).2 ≠ some .inval) :
    jsonParseInput p (m.1 ++ (m.2.jsonTokFull ++ rest)) = .complete m.2 ts := by
  obtain ⟨more, behind⟩ := tokens.run nul plain
  rw [← onTrack] at fine behind
  exact jsonParseInput_read fine behind tokens.closed (tokens.skipped more)
    (tokens.validated rest)

/-! ## A message that is not there in full -/

theorem JsmnTurn.of_starts {p p' : JsmnParser} {c : Char} {rest : Text} {n : Nat}
    (turn : JsmnTurn p (c :: rest) p' n) (starts : StartsPrimitive c) :
    jsmnParsePrimitive (c :: rest) = some n ∧
      p' = jsmnLeaf p .primitive p.pos (p.pos + n) (p.pos + n) := by
  obtain ⟨brace, bracket, quote, inner, -⟩ := starts
  cases turn with
  | primitive _ scanned _ => exact ⟨scanned, rfl⟩
  | string => exact absurd rfl quote
  | opens which =>
      rcases which with ⟨rfl, -⟩ | ⟨rfl, -⟩
      · exact absurd rfl brace
      · exact absurd rfl bracket
  | closes which =>
      rcases which with ⟨rfl, -⟩ | ⟨rfl, -⟩ <;> exact absurd inner (by decide)
  | blank space =>
      rcases space with rfl | rfl | rfl | rfl <;> exact absurd inner (by decide)
  | colon | comma => exact absurd inner (by decide)

theorem jsmnParsePrimitive_goesOn {text more : Text} (nul : '\x00' ∉ more)
    (goesOn : ¬ Delimited more) (all : jsmnParsePrimitive text = some text.length) {n : Nat}
    (scanned : jsmnParsePrimitive (text ++ more) = some n) : text.length < n := by
  induction text generalizing n with
  | nil =>
      cases more with
      | nil => exact absurd trivial goesOn
      | cons c more =>
          rw [List.mem_cons, not_or] at nul
          have inner : endsPrimitive c = false := by simpa [Delimited] using goesOn
          exact jsmnParsePrimitive_pos (Ne.symm nul.1) inner scanned
  | cons c rest ih =>
      rw [List.cons_append, jsmnParsePrimitive] at scanned
      rw [jsmnParsePrimitive] at all
      split_ifs at all scanned with nul' ends bad
      · simp at all
      · simp at all
      · obtain ⟨k, there, rfl⟩ := Option.map_eq_some_iff.mp scanned
        obtain ⟨k', all', same⟩ := Option.map_eq_some_iff.mp all
        have here : k' = rest.length := by simpa using same
        subst here
        exact Nat.succ_lt_succ (ih all' there)

theorem SplitPrimitive.differs {p q : JsmnParser} {text more : Text}
    (split : SplitPrimitive p q text more) (nul : '\x00' ∉ more)
    (whole : (jsmnRun p (text ++ more)).2 = none) :
    ∃ t t' stop stop', q.tokens[split.before.tokens.length]? = some t ∧ t.stop = some stop ∧
      (jsmnRun p (text ++ more)).1.tokens[split.before.tokens.length]? = some t' ∧
      t'.stop = some stop' ∧ t'.type = .primitive ∧ stop ≠ stop' := by
  obtain ⟨before, first, tail, turns, starts, scanned, rfl, goesOn⟩ := split
  rw [turns.run] at whole ⊢
  cases step : jsmnStep before first (tail ++ more) with
  | error e =>
      rw [jsmnRun_stuck starts.2.2.2.2 step] at whole
      cases whole
  | ok next =>
      obtain ⟨p', rest'⟩ := next
      obtain ⟨n, turn, rfl⟩ := jsmnStep_turn starts.2.2.2.2 step
      obtain ⟨scanned', leaf'⟩ := turn.of_starts starts
      have longer : tail.length + 1 < n :=
        jsmnParsePrimitive_goesOn nul goesOn scanned (List.cons_append.symm ▸ scanned')
      obtain ⟨rest'', later, -⟩ := jsmnRun_turns p' ((first :: (tail ++ more)).drop n)
      have same : jsmnRun before (first :: (tail ++ more)) =
          jsmnRun p' ((first :: (tail ++ more)).drop n) := jsmnRun_step starts.2.2.2.2 step
      have there : ∀ k, (jsmnLeaf before .primitive before.pos k k).tokens[before.tokens.length]? =
          some ⟨.primitive, before.pos, some k, 0⟩ := fun k => by
        simp [jsmnLeaf]
      obtain ⟨t', found, becomes⟩ := later.extends before.tokens.length
        ⟨.primitive, before.pos, some (before.pos + n), 0⟩ (by rw [leaf']; exact there _)
      refine ⟨_, t', _, _, there _, rfl, same ▸ found, becomes.stop _ rfl, becomes.type, ?_⟩
      omega

theorem MessageTokens.whole (tokens : MessageTokens m ts) :
    jsmnRun jsmnInit (m.1 ++ m.2.jsonTokFull) =
      (⟨m.1.length + m.2.jsonTokFull.length, none, ts⟩, none) := by
  have turns := tokens.turns [] (by simp)
  rw [List.append_nil] at turns
  rw [turns.run]
  rfl

/-- As long as some of the message is to be read, its root is open. -/
theorem MessageTokens.root_open (tokens : MessageTokens m ts) {p : JsmnParser} {rest : Text}
    (turns : JsmnTurns jsmnInit (m.1 ++ m.2.jsonTokFull) p rest) (further : rest ≠ [])
    {root : JsmnTok} (found : p.tokens[0]? = some root) : root.isOpen = true := by
  obtain ⟨root', tail, rfl, -, ends⟩ := tokens.root
  obtain ⟨rest', later, -⟩ := jsmnRun_turns p rest
  rw [← turns.run, tokens.whole] at later
  obtain ⟨t, found', becomes⟩ := later.extends 0 root found
  cases found'
  cases stops : root.stop with
  | none => simp [JsmnTok.isOpen, stops]
  | some stop =>
      have reading := (JsmnTurns.reading turns (reading_jsmnInit (m.1 ++ m.2.jsonTokFull))).1
      have bound := ((reading.tokens root (List.mem_of_getElem? found)).stop stop stops).2
      obtain ⟨read, split, pos, -⟩ := turns.reads
      have length := congrArg List.length split
      have positive := List.length_pos_iff.mpr further
      have same := (becomes.stop stop stops).symm.trans ends
      simp only [Option.some.injEq, jsmnInit, List.length_append] at same pos length
      omega

theorem incSize_cons (toksuper : Option Nat) (t : JsmnTok) (tail : List JsmnTok) :
    ∃ t' tail', incSize toksuper (t :: tail) = t' :: tail' ∧ t'.stop = t.stop := by
  cases toksuper with
  | none => exact ⟨t, tail, rfl, rfl⟩
  | some i =>
      cases i with
      | zero => exact ⟨{ t with size := t.size + 1 }, tail, by simp [incSize], rfl⟩
      | succ i => exact ⟨t, _, List.modify_succ_cons _ _ _ _, rfl⟩

/-- A token ends elsewhere than the other list has it. -/
def Differs (tokens ts : List JsmnTok) : Prop :=
  ∃ (i : Nat) (t t' : JsmnTok) (stop stop' : Nat), tokens[i]? = some t ∧ t.stop = some stop ∧
    ts[i]? = some t' ∧ t'.stop = some stop' ∧ stop ≠ stop'

theorem Differs.extends {tokens tokens' ts : List JsmnTok} (differs : Differs tokens ts)
    (extends_ : Extends tokens tokens') : Differs tokens' ts := by
  obtain ⟨i, t, t', stop, stop', here, ends, there, ends', apart⟩ := differs
  obtain ⟨t'', found, becomes⟩ := extends_ i t here
  exact ⟨i, t'', t', stop, stop', found, becomes.stop stop ends, there, ends', apart⟩

theorem Differs.take_ne {tokens ts : List JsmnTok} (differs : Differs tokens ts) (n : Nat) :
    tokens.take n ≠ ts := by
  rintro rfl
  obtain ⟨i, t, t', stop, stop', here, ends, there, ends', apart⟩ := differs
  rw [List.getElem?_take] at there
  split_ifs at there
  rw [here] at there
  cases there
  rw [ends] at ends'
  exact apart (Option.some.inj ends')

/-- A message that is not there in full has a root that is open. -/
theorem MessageTokens.incomplete (tokens : MessageTokens m ts) {p : JsmnParser}
    {buffer rest : Text} (split : buffer ++ rest = m.1 ++ m.2.jsonTokFull) (further : rest ≠ [])
    (onTrack : OnTrack p buffer) :
    jsonParseInput p buffer = .incomplete (jsmnRun jsmnInit buffer).1 := by
  have whole : (jsmnRun jsmnInit (buffer ++ rest)).2 = none := by
    rw [split, tokens.whole]
  have fine := jsmnRun_firstPart whole
  have nul : '\x00' ∉ rest := fun member =>
    tokens.nul (split ▸ List.mem_append_right _ member)
  rw [← onTrack]
  refine jsonParseInput_root_open (by rw [onTrack]; exact fine) ?_
  rw [onTrack]
  intro root found
  obtain ⟨rest', turns, -⟩ := jsmnRun_turns jsmnInit buffer
  rcases turns.append rest with longer | ⟨-, ⟨cut⟩⟩
  · rw [split] at longer
    exact tokens.root_open longer (by simp [further]) found
  · obtain ⟨t, t', stop, stop', -, -, there, -, type, -⟩ := cut.differs nul whole
    have before := cut.turns
    rw [split] at before
    cases first : cut.before.tokens with
    | nil =>
        obtain ⟨root', tail, same, object, -⟩ := tokens.root
        rw [first, split, tokens.whole, same] at there
        cases there
        rw [object] at type
        cases type
    | cons root' tail =>
        have root : cut.before.tokens[0]? = some root' := by
          rw [first]
          rfl
        have opened := tokens.root_open before (by simp) root
        obtain ⟨t', tail', counted, ends⟩ := incSize_cons cut.before.toksuper root' tail
        rw [cut.leaf, jsmnLeaf, first, counted] at found
        cases found
        rwa [JsmnTok.isOpen, ends]

/-- Where a primitive is cut, its token is not the one the message has. -/
theorem MessageTokens.cut (tokens : MessageTokens m ts) {buffer rest : Text}
    (split : buffer ++ rest = m.1 ++ m.2.jsonTokFull) (cuts : CutsPrimitive buffer rest) :
    Differs (jsmnRun jsmnInit buffer).1.tokens ts := by
  have whole : (jsmnRun jsmnInit (buffer ++ rest)).2 = none := by
    rw [split, tokens.whole]
  have nul := tokens.nul
  rw [← split] at nul
  obtain ⟨rest', turns, ends⟩ := jsmnRun_turns jsmnInit buffer
  obtain ⟨cut⟩ := turns.split_of_cut ends (jsmnRun_firstPart whole) nul (.inl rfl) cuts.1 cuts.2
  obtain ⟨t, t', stop, stop', here, ends, there, ends', -, apart⟩ :=
    cut.differs (fun member => nul (List.mem_append_right _ member)) whole
  rw [split, tokens.whole] at there
  exact ⟨_, t, t', stop, stop', here, ends, there, ends', apart⟩

end Message

/-! ## More of the stream -/

/-- The parser stays on track when more arrives, unless a primitive was cut. -/
theorem onTrack_append {buffer more : Text} (nul : '\x00' ∉ buffer ++ more)
    (whole : ¬ CutsPrimitive buffer more) :
    OnTrack (jsmnRun jsmnInit buffer).1 (buffer ++ more) := by
  obtain ⟨rest, turns, -⟩ := jsmnRun_turns jsmnInit buffer
  have longer := turns.append_of_not_cut nul (.inl rfl) whole
  obtain ⟨read, split, pos, -⟩ := longer.reads
  have start : jsmnInit.pos = 0 := rfl
  rw [start, Nat.zero_add] at pos
  have there : (buffer ++ more).drop (jsmnRun jsmnInit buffer).1.pos = rest ++ more := by
    rw [pos, split, List.drop_left]
  rw [OnTrack, there, longer.run]

end Payz
