import Payz.Json.Arrivals
import Payz.Tester.Framing

/-! # Framing, whatever the chunks

What the framing loops make of a stream of messages that arrives in chunks: the messages, as
long as no chunk ends inside a primitive.
-/

namespace Payz

open Layout

/-- A message of the stream: an object whose strings are in UTF-8, with the blanks in front. -/
structure ValidMessage (m : Text × Json) : Prop extends MessageText m where
  utf8 : ∀ raw ∈ m.2.strings, ∃ text, '\x00' ∉ text ∧ raw = utf8Bytes text

/-- A message as it is to be processed. -/
def frame (m : Text × Json) : Framed :=
  ⟨m.2, (jsmnRun jsmnInit (m.1 ++ m.2.jsonTokFull)).1.tokens⟩

/-! ## `json_parse_input` with the check of strings -/

theorem MessageTokens.frame {m : Text × Json} {ts : List JsmnTok} (tokens : MessageTokens m ts) :
    Payz.frame m = ⟨m.2, ts⟩ := by
  rw [Payz.frame, tokens.whole]

theorem jsonParseBytes_incomplete {p p' : JsmnParser} {input : Text}
    (parsed : jsonParseInput p input = .incomplete p') :
    jsonParseBytes p input = .incomplete p' := by
  rw [jsonParseBytes, parsed]

theorem jsonParseBytes_complete {p : JsmnParser} {input : Text} {m : Text × Json}
    {ts : List JsmnTok} (valid : ValidMessage m)
    (parsed : jsonParseInput p input = .complete m.2 ts) :
    jsonParseBytes p input = .complete m.2 ts := by
  have checked : m.2.strings.all utf8Check = true := List.all_eq_true.mpr fun raw member => by
    obtain ⟨text, nul, rfl⟩ := valid.utf8 raw member
    exact utf8Check_utf8Bytes nul
  rw [jsonParseBytes, parsed]
  simp only [checked, if_true]

/-! ## The loop ends -/

/-- No token ends where the text starts. -/
def PositiveStops (p : JsmnParser) : Prop :=
  ∀ t ∈ p.tokens, ∀ stop, t.stop = some stop → 0 < stop

theorem positive_incSize {toksuper : Option Nat} {tokens : List JsmnTok}
    (positive : ∀ t ∈ tokens, ∀ stop, t.stop = some stop → 0 < stop) :
    ∀ t ∈ incSize toksuper tokens, ∀ stop, t.stop = some stop → 0 < stop := by
  cases toksuper with
  | none => exact positive
  | some i =>
      intro t member
      rcases mem_of_mem_modify member with old | ⟨t', there, rfl⟩
      · exact positive t old
      · exact positive t' there

theorem JsmnTurn.positive {p p' : JsmnParser} {text : Text} {n : Nat} (turn : JsmnTurn p text p' n)
    (positive : PositiveStops p) : PositiveStops p' := by
  cases turn with
  | opens =>
      refine List.forall_mem_append.mpr ⟨positive_incSize positive, ?_⟩
      exact List.forall_mem_singleton.mpr fun stop ends => by cases ends
  | string =>
      refine List.forall_mem_append.mpr ⟨positive_incSize positive, ?_⟩
      refine List.forall_mem_singleton.mpr fun stop ends => ?_
      cases ends
      omega
  | primitive _ _ some =>
      refine List.forall_mem_append.mpr ⟨positive_incSize positive, ?_⟩
      refine List.forall_mem_singleton.mpr fun stop ends => ?_
      cases ends
      omega
  | closes bracket close =>
      obtain ⟨i, -, -, -, -, rfl⟩ := jsmnClose_ok close
      intro t member
      rcases mem_of_mem_modify member with old | ⟨t', -, rfl⟩
      · exact positive t old
      · intro stop ends
        cases ends
        exact Nat.succ_pos _
  | blank | colon | comma => exact positive

theorem PositiveStops.parse {p : JsmnParser} (positive : PositiveStops p) (input : Text) :
    PositiveStops (jsmnParse p input).1 :=
  jsmnParse_keeps (fun positive turn => turn.positive positive) positive

theorem jsonParseInput_closed {p : JsmnParser} {input : Text} {j : Json} {root : JsmnTok}
    {tail : List JsmnTok} (parsed : jsonParseInput p input = .complete j (root :: tail)) :
    root.isOpen = false := by
  unfold jsonParseInput at parsed
  split at parsed
  · cases parsed
  · split at parsed
    · cases parsed
    · next first rest _ =>
        split_ifs at parsed with opened
        dsimp only at parsed
        split at parsed
        · have cut := (JsonInput.complete.inj parsed).2
          have head := congrArg List.head? cut
          rw [List.head?_take] at head
          split_ifs at head with zero
          · cases head
          · have same : first = root := Option.some.inj head
            rw [← same]
            simpa using opened
        · cases parsed

theorem jsonParseBytes_inv {p : JsmnParser} {input : Text} {j : Json} {toks : List JsmnTok}
    (parsed : jsonParseBytes p input = .complete j toks) :
    jsonParseInput p input = .complete j toks := by
  unfold jsonParseBytes at parsed
  split at parsed
  · next plain =>
      split_ifs at parsed
      cases parsed
      exact plain
  · exact parsed

theorem drop_shorter {p : JsmnParser} (positive : PositiveStops p) {buffer : Text} {j : Json}
    {root : JsmnTok} {tail : List JsmnTok}
    (parsed : jsonParseBytes p buffer = .complete j (root :: tail))
    (some : buffer.drop (root.stop.getD 0) ≠ []) :
    (buffer.drop (root.stop.getD 0)).length < buffer.length := by
  have plain := jsonParseBytes_inv parsed
  have closed := jsonParseInput_closed plain
  obtain ⟨⟨n, cut⟩, -⟩ := jsonParseInput_complete plain
  have member : root ∈ (jsmnParse p buffer).1.tokens :=
    List.mem_of_mem_take (cut ▸ List.mem_cons_self)
  cases ends : root.stop with
  | none => simp [JsmnTok.isOpen, ends] at closed
  | some stop =>
      have further := positive.parse buffer root member stop ends
      have there := List.length_pos_iff.mpr some
      rw [ends, Option.getD_some] at there
      rw [Option.getD_some]
      simp only [List.length_drop] at there ⊢
      omega

theorem framingLoop_enough {fuel : Nat} {p : JsmnParser} {buffer : Text}
    (positive : PositiveStops p) (enough : buffer.length < fuel) :
    framingLoop fuel p buffer = framingLoop (buffer.length + 1) p buffer := by
  induction size : buffer.length using Nat.strong_induction_on generalizing fuel p buffer with
  | _ size ih =>
      subst size
      obtain ⟨fuel, rfl⟩ := Nat.exists_eq_add_of_lt enough
      rw [framingLoop, framingLoop]
      cases parsed : jsonParseBytes p buffer with
      | invalid | incomplete => rfl
      | complete json toks =>
          cases toks with
          | nil => rfl
          | cons root tail =>
              dsimp only
              split_ifs with none
              · rfl
              · have shorter := drop_shorter positive parsed none
                have start : PositiveStops jsmnInit := fun t member => by cases member
                rw [ih _ shorter start (by omega) rfl, ih _ shorter start shorter rfl]

/-! ## One feed -/

/-- The messages that are still to come, the first of them not there in full. -/
structure Settled (msgs : List (Text × Json)) (last future : Text) (s : Framing) : Prop where
  parser : s.parser = (jsmnRun jsmnInit s.buffer).1
  stream : s.buffer ++ future = streamText msgs last
  waits : ∀ m ∈ msgs.head?, s.buffer.length < m.1.length + m.2.jsonTokFull.length

theorem settled_framingInit {msgs : List (Text × Json)} {last : Text}
    (messages : ∀ m ∈ msgs, MessageText m) :
    Settled msgs last (streamText msgs last) framingInit := by
  refine ⟨rfl, rfl, fun m first => ?_⟩
  have message := messages m (List.mem_of_mem_head? first)
  obtain ⟨body, bracket⟩ := jsonTokFull_object message.wellFormed message.object
  simp only [framingInit, bracket, List.length_nil, List.length_cons]
  omega

theorem MessageTokens.lex {m : Text × Json} {ts : List JsmnTok} (tokens : MessageTokens m ts)
    (message : MessageText m) (rest : Text) :
    Lex.outside.after (m.1 ++ (m.2.jsonTokFull ++ rest)) = Lex.outside.after rest := by
  have turns := tokens.turns [] (by simp)
  rw [List.append_nil] at turns
  have start : BeforeTurn .outside (m.1 ++ m.2.jsonTokFull) := .inl rfl
  obtain ⟨read, split, before⟩ := turns.lex tokens.nul start
  rw [List.append_nil] at split
  rw [← List.append_assoc, Lex.after_append, split]
  rcases before with outside | ⟨inside, -⟩
  · rw [outside]
  · obtain ⟨body, bracket⟩ := jsonTokFull_object message.wellFormed message.object
    rw [← split, bracket, ← List.cons_append, ← List.append_assoc, Lex.after_append] at inside
    exact absurd inside (Lex.next_brace _)

theorem framingLoop_complete {fuel : Nat} {p : JsmnParser} {m : Text × Json} {ts : List JsmnTok}
    {rest : Text} (tokens : MessageTokens m ts)
    (parsed : jsonParseBytes p (m.1 ++ (m.2.jsonTokFull ++ rest)) = .complete m.2 ts) :
    framingLoop (fuel + 1) p (m.1 ++ (m.2.jsonTokFull ++ rest)) =
      if rest = [] then some ([Payz.frame m], framingInit)
      else (framingLoop fuel jsmnInit rest).map fun (framed, s) => (Payz.frame m :: framed, s) := by
  rw [tokens.frame]
  obtain ⟨root, tail, rfl, -, ends⟩ := tokens.root
  have cut : (m.1 ++ (m.2.jsonTokFull ++ rest)).drop (root.stop.getD 0) = rest := by
    rw [ends, Option.getD_some, ← List.append_assoc, ← List.length_append, List.drop_left]
  rw [framingLoop, parsed]
  dsimp only
  rw [cut]

/-- The part of the stream that has arrived ends inside the first message, or behind it. -/
theorem arrived_cases {m : Text × Json} {buffer future rest : Text}
    (stream : buffer ++ future = m.1 ++ (m.2.jsonTokFull ++ rest)) :
    (∃ missing, missing ≠ [] ∧ buffer ++ missing = m.1 ++ m.2.jsonTokFull) ∨
      ∃ more, buffer = m.1 ++ (m.2.jsonTokFull ++ more) ∧ more ++ future = rest := by
  rw [← List.append_assoc] at stream
  rcases List.append_eq_append_iff.mp stream with
    ⟨missing, split, later⟩ | ⟨more, split, later⟩
  · by_cases none : missing = []
    · subst none
      rw [List.append_nil] at split
      exact .inr ⟨[], by rw [List.append_nil, split], later⟩
    · exact .inl ⟨missing, none, split.symm⟩
  · exact .inr ⟨more, by rw [split, List.append_assoc], later.symm⟩

theorem jsonParseBytes_blanks {p : JsmnParser} {buffer : Text} (blanks : Blanks buffer)
    (onTrack : OnTrack p buffer) :
    jsonParseBytes p buffer = .incomplete (jsmnRun jsmnInit buffer).1 := by
  have run := jsmnRun_blanks blanks jsmnInit []
  rw [List.append_nil] at run
  refine jsonParseBytes_incomplete ?_
  rw [← onTrack]
  refine jsonParseInput_root_open ?_ fun root found => ?_
  · rw [onTrack, run]
    simp [jsmnRun, jsmnLoop]
  · rw [onTrack, run] at found
    simp [jsmnRun, jsmnLoop, jsmnInit] at found

/-- A stream whose first part has arrived: the messages in it are processed. -/
theorem framingLoop_stream {msgs : List (Text × Json)} {last : Text}
    (messages : ∀ m ∈ msgs, ValidMessage m) (blanks : Blanks last) {fuel : Nat} {p : JsmnParser}
    {buffer future : Text} (stream : buffer ++ future = streamText msgs last)
    (onTrack : OnTrack p buffer) (enough : buffer.length < fuel) :
    ∃ done waiting s, msgs = done ++ waiting ∧
      framingLoop fuel p buffer = some (done.map frame, s) ∧ Settled waiting last future s ∧
      Lex.outside.after s.buffer = Lex.outside.after buffer := by
  induction msgs generalizing fuel p buffer with
  | nil =>
      obtain ⟨fuel, rfl⟩ := Nat.exists_eq_add_of_lt enough
      have here : Blanks buffer := fun c member => blanks c (by
        rw [streamText] at stream
        exact stream ▸ List.mem_append_left _ member)
      refine ⟨[], [], ⟨(jsmnRun jsmnInit buffer).1, buffer⟩, rfl, ?_, ⟨rfl, stream, ?_⟩, rfl⟩
      · rw [framingLoop, jsonParseBytes_blanks here onTrack]
        rfl
      · simp
  | cons m msgs ih =>
      obtain ⟨fuel, rfl⟩ := Nat.exists_eq_add_of_lt enough
      have texts : ∀ m' ∈ m :: msgs, MessageText m' := fun m' member =>
        (messages m' member).toMessageText
      rw [List.forall_mem_cons] at messages texts
      obtain ⟨ts, tokens⟩ := texts.1.tokens
      rcases arrived_cases stream with ⟨missing, further, split⟩ | ⟨more, rfl, later⟩
      · refine ⟨[], m :: msgs, ⟨(jsmnRun jsmnInit buffer).1, buffer⟩, rfl, ?_,
          ⟨rfl, stream, fun m' first => ?_⟩, rfl⟩
        · rw [framingLoop, jsonParseBytes_incomplete (tokens.incomplete split further onTrack)]
          rfl
        · cases first
          have length := congrArg List.length split
          have positive := List.length_pos_iff.mpr further
          simp only [List.length_append] at length ⊢
          omega
      · have nul : '\x00' ∉ more := fun member =>
          nul_not_mem_streamText texts.2 blanks (later ▸ List.mem_append_left _ member)
        have plain : ¬ PunctuationFirst more := by
          rintro ⟨w, c, rest, blanks', which, rfl⟩
          refine streamText_plain texts.2 blanks ⟨w, c, rest ++ future, blanks', which, ?_⟩
          rw [← later]
          simp
        have whole := streamText_run (List.forall_mem_cons.mpr texts) blanks jsmnInit
        rw [← stream] at whole
        have parsed := jsonParseBytes_complete messages.1
          (tokens.complete nul plain onTrack (jsmnRun_firstPart whole))
        rw [framingLoop_complete tokens parsed, tokens.lex texts.1]
        split_ifs with none
        · subst none
          refine ⟨[m], msgs, framingInit, rfl, rfl, ?_, rfl⟩
          rw [List.nil_append] at later
          rw [later]
          exact settled_framingInit texts.2
        · have shorter : more.length < (m.1 ++ (m.2.jsonTokFull ++ more)).length + fuel := by
            obtain ⟨body, bracket⟩ := jsonTokFull_object texts.1.wellFormed texts.1.object
            simp only [bracket, List.length_append, List.length_cons]
            omega
          obtain ⟨done, waiting, s, rfl, run, settled, lex⟩ :=
            ih messages.2 later (onTrack_jsmnInit more) shorter
          refine ⟨m :: done, waiting, s, rfl, ?_, settled, lex⟩
          rw [run]
          rfl

/-! ## A primitive that was cut -/

theorem jsonParseInput_extends {p p' : JsmnParser} {input : Text}
    (parsed : jsonParseInput p input = .incomplete p') : Extends p.tokens p'.tokens := by
  rw [jsonParseInput_incomplete parsed]
  exact extends_jsmnParse p input

/-- A wrong token stays, and what is processed next is not the message. -/
theorem framingLoop_differs {fuel : Nat} {p : JsmnParser} {buffer : Text} {ts : List JsmnTok}
    (differs : Differs p.tokens ts) {framed : List Framed} {s : Framing}
    (run : framingLoop fuel p buffer = some (framed, s)) :
    framed = [] ∧ Differs s.parser.tokens ts ∨ ∃ first ∈ framed.head?, first.toks ≠ ts := by
  cases fuel with
  | zero => cases run
  | succ fuel =>
      rw [framingLoop, jsonParseBytes] at run
      cases parsed : jsonParseInput p buffer with
      | invalid =>
          rw [parsed] at run
          cases run
      | incomplete p' =>
          rw [parsed] at run
          cases run
          exact .inl ⟨rfl, differs.extends (jsonParseInput_extends parsed)⟩
      | complete json toks =>
          obtain ⟨⟨n, cut⟩, valid⟩ := jsonParseInput_complete parsed
          have other : toks ≠ ts := by
            rw [cut]
            exact (differs.extends (extends_jsmnParse p buffer)).take_ne n
          rw [parsed] at run
          dsimp only at run
          split_ifs at run with checked
          · cases toks with
            | nil => cases valid
            | cons root tail =>
                dsimp only at run
                split_ifs at run with none
                · cases run
                  exact .inr ⟨_, rfl, other⟩
                · obtain ⟨⟨more, s'⟩, -, same⟩ := Option.map_eq_some_iff.mp run
                  cases same
                  exact .inr ⟨_, rfl, other⟩

section Feed

variable {feed : Framing → Text → Option (List Framed × Framing)}

/-- The loops differ in what they do on an empty read only. -/
def FeedsLoop (feed : Framing → Text → Option (List Framed × Framing)) : Prop :=
  ∀ s chunk, chunk ≠ [] →
    feed s chunk = framingLoop ((s.buffer ++ chunk).length + 1) s.parser (s.buffer ++ chunk)

theorem payzTesterRpcConnFeed_loop : FeedsLoop payzTesterRpcConnFeed := fun _ _ _ => rfl

theorem payzTesterCommandCheck_loop : FeedsLoop payzTesterCommandCheck := fun _ _ further =>
  if_neg further

theorem feedAll_differs (loop : FeedsLoop feed) {ts : List JsmnTok} {chunks : List Text}
    (nonempty : ∀ chunk ∈ chunks, chunk ≠ []) {s : Framing} (differs : Differs s.parser.tokens ts)
    {framed : List Framed} (run : feedAll feed s chunks = some framed) :
    framed = [] ∨ ∃ first ∈ framed.head?, first.toks ≠ ts := by
  induction chunks generalizing s framed with
  | nil =>
      cases run
      exact .inl rfl
  | cons chunk chunks ih =>
      rw [List.forall_mem_cons] at nonempty
      rw [feedAll] at run
      split at run
      · cases run
      · next framed' s' fed =>
          obtain ⟨more, rest, rfl⟩ := Option.map_eq_some_iff.mp run
          rw [loop s chunk nonempty.1] at fed
          rcases framingLoop_differs differs fed with ⟨rfl, differs'⟩ | ⟨first, head, other⟩
          · exact ih nonempty.2 differs' rest
          · refine .inr ⟨first, ?_, other⟩
            rw [List.head?_append, head]
            rfl

theorem delimited_append {chunk : Text} (nonempty : chunk ≠ []) (rest : Text) :
    Delimited (chunk ++ rest) ↔ Delimited chunk := by
  cases chunk with
  | nil => exact absurd rfl nonempty
  | cons c chunk => exact Iff.rfl

theorem lex_blanks {w : Text} (blanks : Blanks w) : Lex.outside.after w = .outside := by
  induction w with
  | nil => rfl
  | cons c w ih =>
      rw [Blanks, List.forall_mem_cons] at blanks
      have ends : endsPrimitive c = true := by
        rcases blanks.1 with rfl | rfl | rfl | rfl <;> rfl
      rw [Lex.after_cons, Lex.next_of_ends (.inl rfl) ends]
      exact ih blanks.2

/-- Where a primitive has been cut, the messages are not what is processed. -/
theorem feedAll_cut (loop : FeedsLoop feed) {msgs : List (Text × Json)} {last : Text}
    (messages : ∀ m ∈ msgs, ValidMessage m) (blanks : Blanks last) {chunks : List Text}
    (nonempty : ∀ chunk ∈ chunks, chunk ≠ []) {s : Framing}
    (settled : Settled msgs last chunks.flatten s)
    (cut : CutsPrimitive s.buffer chunks.flatten) :
    feedAll feed s chunks ≠ some (msgs.map frame) := by
  intro run
  have stream := settled.stream
  cases msgs with
  | nil =>
      have here : Blanks s.buffer := fun c member => blanks c (by
        rw [streamText] at stream
        exact stream ▸ List.mem_append_left _ member)
      have inside := cut.1
      rw [lex_blanks here] at inside
      cases inside
  | cons m msgs =>
      rw [List.forall_mem_cons] at messages
      obtain ⟨ts, tokens⟩ := messages.1.toMessageText.tokens
      have waits := settled.waits m rfl
      rcases arrived_cases stream with ⟨missing, further, split⟩ | ⟨more, split, -⟩
      · have later : chunks.flatten = missing ++ streamText msgs last := by
          rw [streamText, ← List.append_assoc, ← split, List.append_assoc] at stream
          exact List.append_cancel_left stream
        have goesOn := cut.2
        rw [later, delimited_append further] at goesOn
        have differs := tokens.cut split ⟨cut.1, goesOn⟩
        rw [← settled.parser] at differs
        rcases feedAll_differs loop nonempty differs run with none | ⟨first, head, other⟩
        · cases none
        · cases head
          rw [tokens.frame] at other
          exact other rfl
      · rw [split] at waits
        simp only [List.length_append] at waits
        omega

/-- The messages are what is processed exactly if no primitive is cut. -/
theorem feedAll_iff (loop : FeedsLoop feed) {msgs : List (Text × Json)} {last : Text}
    (messages : ∀ m ∈ msgs, ValidMessage m) (blanks : Blanks last) {chunks : List Text}
    (nonempty : ∀ chunk ∈ chunks, chunk ≠ []) {s : Framing}
    (settled : Settled msgs last chunks.flatten s) :
    feedAll feed s chunks = some (msgs.map frame) ↔
      ∀ before after, chunks = before ++ after →
        ¬ CutsPrimitive (s.buffer ++ before.flatten) after.flatten := by
  induction chunks generalizing msgs s with
  | nil =>
      have stream := settled.stream
      rw [List.flatten_nil, List.append_nil] at stream
      have done : msgs = [] := by
        cases msgs with
        | nil => rfl
        | cons m msgs =>
            have waits := settled.waits m rfl
            rw [stream, streamText] at waits
            simp only [List.length_append] at waits
            omega
      subst done
      refine iff_of_true rfl ?_
      intro before after split cut
      obtain ⟨rfl, rfl⟩ := List.append_eq_nil_iff.mp split.symm
      exact cut.2 trivial
  | cons chunk chunks ih =>
      by_cases cut : CutsPrimitive s.buffer (chunk :: chunks).flatten
      · refine iff_of_false (feedAll_cut loop messages blanks nonempty settled cut) fun whole => ?_
        refine whole [] (chunk :: chunks) rfl ?_
        rwa [List.flatten_nil, List.append_nil]
      · rw [List.forall_mem_cons] at nonempty
        have stream := settled.stream
        rw [List.flatten_cons] at stream cut
        have uncut : ¬ CutsPrimitive s.buffer chunk := fun inside =>
          cut ⟨inside.1, fun delimited => inside.2 ((delimited_append nonempty.1 _).mp delimited)⟩
        have nul : '\x00' ∉ s.buffer ++ chunk := fun member => by
          refine nul_not_mem_streamText (fun m there => (messages m there).toMessageText) blanks ?_
          rw [← stream, ← List.append_assoc]
          exact List.mem_append_left _ member
        have onTrack := onTrack_append nul uncut
        rw [← settled.parser] at onTrack
        rw [← List.append_assoc] at stream
        obtain ⟨done, waiting, s', rfl, run, settled', lex⟩ :=
          framingLoop_stream messages blanks stream onTrack (Nat.lt_succ_self _)
        have later : ∀ m ∈ waiting, ValidMessage m := fun m member =>
          messages m (List.mem_append_right _ member)
        have feeds : feedAll feed s (chunk :: chunks) =
            (feedAll feed s' chunks).map fun more => done.map frame ++ more := by
          rw [feedAll, loop s chunk nonempty.1, run]
        have state : ∀ text, Lex.outside.after (s.buffer ++ (chunk ++ text)) =
            Lex.outside.after (s'.buffer ++ text) := fun text => by
          rw [← List.append_assoc, Lex.after_append, ← lex, ← Lex.after_append]
        have tail := ih later nonempty.2 settled'
        rw [feeds, List.map_append]
        constructor
        · intro fed before after split inside
          obtain ⟨more, rest, same⟩ := Option.map_eq_some_iff.mp fed
          have all := List.append_cancel_left same
          subst all
          cases before with
          | nil =>
              rw [List.nil_append] at split
              rw [List.flatten_nil, List.append_nil, ← split, List.flatten_cons] at inside
              exact cut inside
          | cons first before =>
              obtain ⟨rfl, rfl⟩ := List.cons.inj split
              rw [CutsPrimitive, List.flatten_cons, state] at inside
              exact tail.mp rest before after rfl inside
        · intro whole
          rw [tail.mpr fun before after split inside => ?_]
          · rfl
          · refine whole (chunk :: before) after (by rw [split]; rfl) ?_
            rwa [CutsPrimitive, List.flatten_cons, state]

end Feed

/-- A framing loop, on one stream and one way of cutting it. -/
structure FramesWhole (feed : Framing → Text → Option (List Framed × Framing))
    (msgs : List (Text × Json)) (last : Text) (chunks : List Text) : Prop where
  /-- The whole stream at once: each message, with its own datum. -/
  whole : streamText msgs last ≠ [] →
    feedAll feed framingInit [streamText msgs last] = some (msgs.map frame)
  /-- In chunks: the same messages with the same tokens, exactly if no primitive is cut. -/
  chunked : feedAll feed framingInit chunks = some (msgs.map frame) ↔
    ∀ before after, chunks = before ++ after → ¬ CutsPrimitive before.flatten after.flatten

theorem framesWhole_of_loop {feed : Framing → Text → Option (List Framed × Framing)}
    (loop : FeedsLoop feed) {msgs : List (Text × Json)} {last : Text}
    (messages : ∀ m ∈ msgs, ValidMessage m) (blanks : Blanks last) {chunks : List Text}
    (nonempty : ∀ chunk ∈ chunks, chunk ≠ []) (stream : chunks.flatten = streamText msgs last) :
    FramesWhole feed msgs last chunks := by
  have texts : ∀ m ∈ msgs, MessageText m := fun m member => (messages m member).toMessageText
  have start : Settled msgs last (streamText msgs last) framingInit := settled_framingInit texts
  refine ⟨fun further => ?_, ?_⟩
  · have one : ∀ chunk ∈ [streamText msgs last], chunk ≠ [] := by simpa using further
    rw [feedAll_iff loop messages blanks one (by simpa using start)]
    intro before after split cut
    cases before with
    | nil =>
        have inside := cut.1
        cases inside
    | cons chunk before =>
        obtain ⟨-, rest⟩ := List.cons.inj split
        obtain ⟨rfl, rfl⟩ := List.append_eq_nil_iff.mp rest.symm
        exact cut.2 trivial
  · exact feedAll_iff loop messages blanks nonempty (stream ▸ start)

/-- Framing does not depend on how bytes arrive, exactly if no chunk ends inside a primitive. -/
theorem framing_independent_iff {msgs : List (Text × Json)} {last : Text} {chunks : List Text}
    (messages : ∀ m ∈ msgs, ValidMessage m) (blanks : Blanks last)
    (nonempty : ∀ chunk ∈ chunks, chunk ≠ []) (stream : chunks.flatten = streamText msgs last) :
    FramesWhole payzTesterRpcConnFeed msgs last chunks ∧
      FramesWhole payzTesterCommandCheck msgs last chunks :=
  ⟨framesWhole_of_loop payzTesterRpcConnFeed_loop messages blanks nonempty stream,
    framesWhole_of_loop payzTesterCommandCheck_loop messages blanks nonempty stream⟩

/-- `\x7b"a":[12]\x7d`, its key an e with an acute accent in the bytes of UTF-8. -/
theorem framing_independent_iff_two_chunks :
    FramesWhole payzTesterRpcConnFeed
        [([], .object "\x7b\"Ã©\":[12]\x7d".toList
          [("Ã©".toList, .array "[12]".toList [.primitive "12".toList])])]
        "\n".toList ["\x7b\"Ã".toList, "©\":[12]\x7d\n".toList] ∧
      FramesWhole payzTesterCommandCheck
        [([], .object "\x7b\"Ã©\":[12]\x7d".toList
          [("Ã©".toList, .array "[12]".toList [.primitive "12".toList])])]
        "\n".toList ["\x7b\"Ã".toList, "©\":[12]\x7d\n".toList] := by
  have number : PrimitiveText "12".toList :=
    .inr (.inr (.inr ⟨'1', ['2'], rfl, .inr rfl, List.forall_mem_singleton.mpr (.inl rfl)⟩))
  have elem : CommaSep (fun (e : Json) s => s = e.jsonTokFull) [.primitive "12".toList]
      "12".toList := @CommaSep.single _ _ [] "12".toList [] _ Blanks.nil rfl Blanks.nil
  have array : (Json.array "[12]".toList [.primitive "12".toList]).WellFormed :=
    .array (List.forall_mem_singleton.mpr (.primitive number)) elem
  have member : CommaSep MemberText [("Ã©".toList, .array "[12]".toList [.primitive "12".toList])]
      "\"Ã©\":[12]".toList :=
    @CommaSep.single _ _ [] "\"Ã©\":[12]".toList [] _ Blanks.nil
      ⟨[], [], Blanks.nil, Blanks.nil, rfl⟩ Blanks.nil
  have object : (Json.object "\x7b\"Ã©\":[12]\x7d".toList
      [("Ã©".toList, .array "[12]".toList [.primitive "12".toList])]).WellFormed :=
    .object (List.forall_mem_singleton.mpr (StringText.of_plain rfl))
      (List.forall_mem_singleton.mpr array) member
  have nonempty : ∀ chunk ∈ ["\x7b\"Ã".toList, "©\":[12]\x7d\n".toList], chunk ≠ [] := by
    decide +kernel
  have stream : ["\x7b\"Ã".toList, "©\":[12]\x7d\n".toList].flatten =
      streamText [([], .object "\x7b\"Ã©\":[12]\x7d".toList
        [("Ã©".toList, .array "[12]".toList [.primitive "12".toList])])] "\n".toList := by
    decide +kernel
  refine framing_independent_iff (List.forall_mem_singleton.mpr
    ⟨⟨Blanks.nil, object, _, _, rfl⟩, ?_⟩) (List.forall_mem_singleton.mpr (by decide +kernel))
    nonempty stream
  intro raw member
  rw [List.mem_singleton.mp member]
  exact ⟨"é".toList, by decide +kernel, by decide +kernel⟩

/-- A number cut in two becomes two numbers, or what is refused. -/
theorem framing_splits_number :
    feedAll payzTesterRpcConnFeed framingInit ["\x7b\"a\":[1".toList, "2]\x7d".toList] ≠
        feedAll payzTesterRpcConnFeed framingInit ["\x7b\"a\":[12]\x7d".toList] ∧
      feedAll payzTesterRpcConnFeed framingInit ["\x7b\"a\":[12]\x7d".toList] =
        some [frame ([], .object "\x7b\"a\":[12]\x7d".toList
          [("a".toList, .array "[12]".toList [.primitive "12".toList])])] ∧
      (feedAll payzTesterRpcConnFeed framingInit
        ["\x7b\"a\":[1".toList, "2]\x7d".toList]).map (List.map Framed.json) =
          some [.object "\x7b\"a\":[12]\x7d".toList
            [("a".toList, .array "[12]".toList [.primitive "1".toList, .primitive "2".toList])]] ∧
      feedAll payzTesterCommandCheck framingInit
        ["\x7b\"a\":1".toList, "2\x7d".toList] = none := by
  decide +kernel

end Payz
