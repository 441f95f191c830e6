import Payz.Json.Messages

/-! # A stream between two ends

Messages are written at one end of a pipe and framed at the other, while more of them are written.
-/

namespace Payz

open Layout

/-- More of the stream has arrived, and the last chunk did not end inside a primitive: the
    messages that are there in full are found. -/
theorem Settled.feed {msgs : List (Text × Json)} {last chunk future : Text} {s : Framing}
    (settled : Settled msgs last (chunk ++ future) s) (messages : ∀ m ∈ msgs, ValidMessage m)
    (blanks : Blanks last) (nonempty : chunk ≠ [])
    (whole : ¬ CutsPrimitive s.buffer (chunk ++ future)) :
    ∃ done waiting s', msgs = done ++ waiting ∧
      framingLoop ((s.buffer ++ chunk).length + 1) s.parser (s.buffer ++ chunk) =
        some (done.map frame, s') ∧ Settled waiting last future s' ∧
      Lex.outside.after s'.buffer = Lex.outside.after (s.buffer ++ chunk) := by
  have stream := settled.stream
  have uncut : ¬ CutsPrimitive s.buffer chunk := fun inside =>
    whole ⟨inside.1, fun delimited => inside.2 ((delimited_append nonempty _).mp delimited)⟩
  have nul : '\x00' ∉ s.buffer ++ chunk := fun member => by
    refine nul_not_mem_streamText (fun m there => (messages m there).toMessageText) blanks ?_
    rw [← stream, ← List.append_assoc]
    exact List.mem_append_left _ member
  have onTrack := onTrack_append nul uncut
  rw [← settled.parser] at onTrack
  rw [← List.append_assoc] at stream
  exact framingLoop_stream messages blanks stream onTrack (Nat.lt_succ_self _)

/-- What has been sent over a pipe and what has been taken from it, the bytes that are still in
    it, and the state of the reader.  What has been read does not end inside a primitive. -/
structure Carried (sent taken : List Json) (pipe : Text) (s : Framing) : Prop where
  waits : ∃ waiting last, sent = taken ++ waiting.map Prod.snd ∧ Settled waiting last pipe s ∧
    Blanks last ∧ ∀ m ∈ waiting, ValidMessage m
  whole : ¬ CutsPrimitive s.buffer pipe

theorem Carried.nil : Carried [] [] [] framingInit :=
  ⟨⟨[], [], rfl, ⟨rfl, rfl, nofun⟩, Blanks.nil, nofun⟩, fun cut => cut.2 trivial⟩

theorem streamText_snoc (msgs : List (Text × Json)) (last : Text) (j : Json) (sep : Text) :
    streamText (msgs ++ [(last, j)]) sep = streamText msgs last ++ (j.jsonTokFull ++ sep) := by
  induction msgs with
  | nil => rfl
  | cons m msgs ih => simp only [List.cons_append, streamText, ih, List.append_assoc]

theorem Settled.drained {waiting : List (Text × Json)} {last : Text} {s : Framing}
    (settled : Settled waiting last [] s) : waiting = [] ∧ s.buffer = last := by
  have stream := settled.stream
  rw [List.append_nil] at stream
  cases waiting with
  | nil => exact ⟨rfl, stream⟩
  | cons m waiting =>
      have waits := settled.waits m rfl
      rw [stream, streamText] at waits
      simp only [List.length_append] at waits
      omega

theorem Carried.drained {sent taken : List Json} {s : Framing}
    (carried : Carried sent taken [] s) : sent = taken := by
  obtain ⟨waiting, last, split, settled, -, -⟩ := carried.waits
  rw [split, settled.drained.1, List.map_nil, List.append_nil]

theorem Carried.send {sent taken : List Json} {pipe : Text} {s : Framing}
    (carried : Carried sent taken pipe s) {text : Text} {members : List (Text × Json)}
    (encoded : (Json.object text members).Encoded) {sep : Text} (blanks : Blanks sep) :
    Carried (sent ++ [.object text members]) taken (pipe ++ (text ++ sep)) s := by
  obtain ⟨waiting, last, split, settled, before, valid⟩ := carried.waits
  have further : text ≠ [] := by
    obtain ⟨body, bracket⟩ := jsonTokFull_object encoded.wellFormed ⟨_, _, rfl⟩
    rw [Json.jsonTokFull] at bracket
    rw [bracket]
    exact List.cons_ne_nil _ _
  refine ⟨⟨waiting ++ [(last, .object text members)], sep, ?_, ⟨settled.parser, ?_, ?_⟩, blanks,
    ?_⟩, ?_⟩
  · rw [split, List.map_append, List.append_assoc]
    rfl
  · rw [streamText_snoc, ← settled.stream, Json.jsonTokFull, List.append_assoc]
  · cases waiting with
    | nil =>
        have stream := congrArg List.length settled.stream
        have := List.length_pos_iff.mpr further
        rintro m first
        cases first
        rw [streamText, List.length_append] at stream
        rw [Json.jsonTokFull]
        dsimp only
        omega
    | cons m waiting => exact settled.waits
  · rw [List.forall_mem_append]
    exact ⟨valid, List.forall_mem_singleton.mpr (encoded.message before)⟩
  · rintro ⟨inside, goesOn⟩
    cases pipe with
    | nil =>
        rw [settled.drained.2, lex_blanks before] at inside
        cases inside
    | cons c pipe =>
        rw [delimited_append (List.cons_ne_nil c pipe)] at goesOn
        exact carried.whole ⟨inside, goesOn⟩

/-- Some bytes are read, and the last of them is not inside a primitive. -/
theorem Carried.read {sent taken : List Json} {chunk pipe : Text} {s : Framing}
    (carried : Carried sent taken (chunk ++ pipe) s) (nonempty : chunk ≠ [])
    (whole : ¬ CutsPrimitive (s.buffer ++ chunk) pipe) :
    ∃ (done : List (Text × Json)) (s' : Framing),
      framingLoop ((s.buffer ++ chunk).length + 1) s.parser (s.buffer ++ chunk) =
        some (done.map frame, s') ∧
      Carried sent (taken ++ done.map Prod.snd) pipe s' := by
  obtain ⟨waiting, last, split, settled, blanks, valid⟩ := carried.waits
  obtain ⟨done, waiting', s', rfl, run, settled', lex⟩ :=
    settled.feed valid blanks nonempty carried.whole
  refine ⟨done, s', run, ⟨waiting', last, ?_, settled', blanks, fun m member =>
    valid m (List.mem_append_right _ member)⟩, ?_⟩
  · rw [split, List.map_append, List.append_assoc]
  · rw [CutsPrimitive, lex]
    exact whole

end Payz
