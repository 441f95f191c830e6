import Payz.Plugin.Responses
import Payz.Lib.Runs

/-! # The queue of what is written

`ld_send`, `ld_write_json`, `ld_stream_complete` and `plugin_exit` in `plugins/libplugin.c`, over
`json_stream_output` in `common/json_stream.c` and the plans of `ccan/io`.  Every stream in the
queue has been closed, so that nothing is added to it while it is written.
-/

namespace Payz

inductive IoDirection where
  | ioIn
  | ioOut
  deriving Repr, DecidableEq

/-- The plan of a connection that is written to: it waits to be woken, it is due to be called
    again, or some text is left to be written. -/
inductive WritePlan where
  | waiting (dir : IoDirection)
  | always (dir : IoDirection)
  | writing (rest : Text)
  deriving Repr, DecidableEq

def ioWake : WritePlan → WritePlan
  | .waiting dir => .always dir
  | plan => plan

/-- The part of `struct plugin` that writes to lightningd.  From `exiting` on only the output of
    this connection is served, and `broken` is the end of the loop. -/
structure LdWriter where
  jsArr : List Text
  plan : WritePlan
  exiting : Bool
  broken : Bool
  written : Text
  deriving Repr, DecidableEq

/-- As `stdout_conn_init` sets it up.  `io_wait` waits in the direction of the input. -/
def LdWriter.new : LdWriter := ⟨[], .waiting .ioIn, false, false, []⟩

def ldSend (w : LdWriter) (js : Text) : LdWriter :=
  { w with jsArr := w.jsArr ++ [js], plan := ioWake w.plan }

/-- `plugin_exit`, up to its loop. -/
def pluginExit (w : LdWriter) : LdWriter := { w with exiting := true, plan := ioWake w.plan }

/-- `ld_write_json`, `json_stream_output_write` and `ld_stream_complete`, with this queue.  A
    stream without contents is complete at once. -/
def ldWriteJson (w : LdWriter) : List Text → LdWriter
  | [] => { w with jsArr := [], plan := .waiting .ioOut, broken := w.exiting }
  | js :: jsArr =>
      if js = [] then ldWriteJson w jsArr
      else { w with jsArr := js :: jsArr, plan := .writing js }

/-- `do_write`, when `n` bytes can be written, and what follows it. -/
def doWrite (w : LdWriter) (rest : Text) (n : Nat) : LdWriter :=
  let w := { w with written := w.written ++ rest.take n }
  if rest.drop n = [] then ldWriteJson w w.jsArr.tail
  else { w with plan := .writing (rest.drop n) }

/-- What happens to the writer: something is sent or the plugin exits, and `io_loop` calls it
    again or writes some bytes. -/
inductive WriteAct where
  | send (js : Text)
  | exit
  | always
  | write (n : Nat)
  deriving Repr, DecidableEq

def LdWriter.step (w : LdWriter) : WriteAct → Option LdWriter
  | .send js => if w.exiting then none else some (ldSend w js)
  | .exit => if w.exiting then none else some (pluginExit w)
  | .always =>
      match w.plan with
      | .always dir =>
          -- `handle_always` skips what is not exclusive.
          if w.broken = true ∨ w.exiting = true ∧ dir = .ioIn then none
          else some (ldWriteJson w w.jsArr)
      | _ => none
  | .write n =>
      match w.plan with
      | .writing rest =>
          if w.broken = true ∨ n = 0 ∨ rest.length < n then none else some (doWrite w rest n)
      | _ => none

abbrev WriterRun : LdWriter → List WriteAct → LdWriter → Prop :=
  Runs.Run fun w act w' => w.step act = some w'

def sentBy (acts : List WriteAct) : Text :=
  acts.flatMap fun
    | .send js => js
    | _ => []

def LdWriter.pending (w : LdWriter) : Text :=
  match w.plan with
  | .writing rest => rest ++ w.jsArr.tail.flatten
  | _ => w.jsArr.flatten

/-- Some step of the loop can be made. -/
def LdWriter.Busy (w : LdWriter) : Prop :=
  w.step .always ≠ none ∨ ∃ n, w.step (.write n) ≠ none

/-- What holds of the writer at all times. -/
structure LdWriter.Sound (w : LdWriter) : Prop where
  /-- What is written is the head of the queue. -/
  head : ∀ rest, w.plan = .writing rest → w.jsArr ≠ [] ∧ rest ≠ []
  /-- Nothing waits for the writer to be woken. -/
  waiting : ∀ dir, w.plan = .waiting dir → w.jsArr = []
  /-- The loop ends only with an exit, and only when all is written. -/
  broken : w.broken = true ↔ w.exiting = true ∧ ∃ dir, w.plan = .waiting dir

theorem LdWriter.sound_new : LdWriter.new.Sound :=
  ⟨nofun, fun _ _ => rfl, by simp [LdWriter.new]⟩

theorem ldWriteJson_written (w : LdWriter) (jsArr : List Text) :
    (ldWriteJson w jsArr).written = w.written ∧ (ldWriteJson w jsArr).exiting = w.exiting := by
  induction jsArr with
  | nil => exact ⟨rfl, rfl⟩
  | cons js jsArr ih =>
      rw [ldWriteJson]
      split
      · exact ih
      · exact ⟨rfl, rfl⟩

/-- The queue is taken up: only streams without contents are dropped. -/
theorem ldWriteJson_pending (w : LdWriter) (jsArr : List Text) :
    (ldWriteJson w jsArr).pending = jsArr.flatten := by
  induction jsArr with
  | nil => rfl
  | cons js jsArr ih =>
      rw [ldWriteJson]
      split
      · next empty =>
          rw [ih, empty, List.flatten_cons, List.nil_append]
      · rfl

theorem ldWriteJson_plan (w : LdWriter) (jsArr : List Text) :
    (∃ rest, (ldWriteJson w jsArr).plan = .writing rest) ∨
      (ldWriteJson w jsArr).plan = .waiting .ioOut := by
  induction jsArr with
  | nil => exact .inr rfl
  | cons js jsArr ih =>
      rw [ldWriteJson]
      split
      · exact ih
      · exact .inl ⟨_, rfl⟩

theorem LdWriter.Sound.writeJson {w : LdWriter} (open' : w.broken = false) (jsArr : List Text) :
    (ldWriteJson w jsArr).Sound := by
  induction jsArr with
  | nil => exact ⟨nofun, fun _ _ => rfl, by simp [ldWriteJson]⟩
  | cons js jsArr ih =>
      rw [ldWriteJson]
      split
      · exact ih
      · next full =>
          refine ⟨fun rest same => ?_, nofun, by simp [open']⟩
          cases same
          exact ⟨List.cons_ne_nil _ _, full⟩

theorem ioWake_ne_waiting (plan : WritePlan) (dir : IoDirection) : ioWake plan ≠ .waiting dir := by
  cases plan <;> nofun

theorem ioWake_writing {plan : WritePlan} {rest : Text} (same : ioWake plan = .writing rest) :
    plan = .writing rest := by
  cases plan <;> first | exact same | cases same

theorem LdWriter.step_loop {w w' : LdWriter} {act : WriteAct} (takes : w.step act = some w') :
    (∃ js, act = .send js ∧ w.exiting = false ∧ w' = ldSend w js) ∨
    (act = .exit ∧ w.exiting = false ∧ w' = pluginExit w) ∨
    (∃ dir, act = .always ∧ w.plan = .always dir ∧ w.broken = false ∧
      (w.exiting = true → dir = .ioOut) ∧ w' = ldWriteJson w w.jsArr) ∨
    ∃ n rest, act = .write n ∧ w.plan = .writing rest ∧ w.broken = false ∧ 0 < n ∧
      n ≤ rest.length ∧ w' = doWrite w rest n := by
  cases act with
  | send js =>
      rw [step] at takes
      split_ifs at takes with exiting
      exact .inl ⟨js, rfl, Bool.eq_false_iff.mpr exiting, (Option.some.inj takes).symm⟩
  | exit =>
      rw [step] at takes
      split_ifs at takes with exiting
      exact .inr (.inl ⟨rfl, Bool.eq_false_iff.mpr exiting, (Option.some.inj takes).symm⟩)
  | always =>
      rw [step] at takes
      cases plan : w.plan with
      | waiting | writing => simp [plan] at takes
      | always dir =>
          rw [plan] at takes
          dsimp only at takes
          split_ifs at takes with skipped
          rw [not_or, not_and, Bool.not_eq_true] at skipped
          refine .inr (.inr (.inl ⟨dir, rfl, rfl, skipped.1, fun exiting => ?_,
            (Option.some.inj takes).symm⟩))
          have out := skipped.2 exiting
          cases dir with
          | ioIn => exact absurd rfl out
          | ioOut => rfl
  | write n =>
      rw [step] at takes
      cases plan : w.plan with
      | waiting | always => simp [plan] at takes
      | writing rest =>
          rw [plan] at takes
          dsimp only at takes
          split_ifs at takes with refused
          rw [not_or, not_or, Bool.not_eq_true] at refused
          exact .inr (.inr (.inr ⟨n, rest, rfl, rfl, refused.1, Nat.pos_of_ne_zero refused.2.1,
            Nat.le_of_not_lt refused.2.2, (Option.some.inj takes).symm⟩))

theorem LdWriter.Sound.step {w w' : LdWriter} {act : WriteAct} (sound : w.Sound)
    (takes : w.step act = some w') : w'.Sound := by
  have quiet : w.exiting = false → w.broken = false := fun running => by
    rw [Bool.eq_false_iff]
    intro broken
    rw [(sound.broken.mp broken).1] at running
    cases running
  rcases LdWriter.step_loop takes with ⟨js, -, running, rfl⟩ | ⟨-, running, rfl⟩ |
    ⟨dir, -, -, open', -, rfl⟩ | ⟨n, rest, -, plan, open', positive, -, rfl⟩
  · refine ⟨fun rest same => ?_, fun dir same => absurd same (ioWake_ne_waiting _ _), ?_⟩
    · exact ⟨by simp [ldSend], (sound.head rest (ioWake_writing same)).2⟩
    · simp [ldSend, running, quiet running]
  · refine ⟨fun rest same => sound.head rest (ioWake_writing same),
      fun dir same => absurd same (ioWake_ne_waiting _ _), ?_⟩
    simp [pluginExit, quiet running, ioWake_ne_waiting]
  · exact .writeJson open' _
  · unfold doWrite
    dsimp only
    split_ifs with done
    · exact @LdWriter.Sound.writeJson { w with written := w.written ++ rest.take n } open' _
    · refine ⟨fun rest' same => ?_, nofun, by simp [open']⟩
      cases same
      exact ⟨(sound.head rest plan).1, done⟩

/-- What has been written and what is pending is what has been sent. -/
theorem LdWriter.step_pending {w w' : LdWriter} {act : WriteAct} (sound : w.Sound)
    (takes : w.step act = some w') :
    w'.written ++ w'.pending = w.written ++ w.pending ++ sentBy [act] := by
  rcases LdWriter.step_loop takes with ⟨js, rfl, -, rfl⟩ | ⟨rfl, -, rfl⟩ |
    ⟨dir, rfl, plan, -, -, rfl⟩ | ⟨n, rest, rfl, plan, -, -, le, rfl⟩
  · have sent : sentBy [.send js] = js := List.append_nil js
    rw [sent]
    cases plan : w.plan with
    | waiting | always => simp [ldSend, pending, ioWake, plan]
    | writing rest =>
        obtain ⟨head, tail, same⟩ := List.exists_cons_of_ne_nil (sound.head rest plan).1
        simp [ldSend, pending, ioWake, plan, same]
  · cases plan : w.plan <;> simp [pluginExit, pending, ioWake, plan, sentBy]
  · rw [ldWriteJson_pending, (ldWriteJson_written _ _).1]
    simp [pending, plan, sentBy]
  · have split : rest = rest.take n ++ rest.drop n := (List.take_append_drop n rest).symm
    have sent : sentBy [.write n] = [] := rfl
    rw [sent, List.append_nil]
    have before : w.pending = rest ++ w.jsArr.tail.flatten := by simp [pending, plan]
    unfold doWrite
    dsimp only
    split_ifs with done
    · rw [ldWriteJson_pending, (ldWriteJson_written _ _).1, before]
      rw [done, List.append_nil] at split
      rw [← split, List.append_assoc]
    · rw [before]
      dsimp only [pending]
      nth_rewrite 3 [split]
      simp only [List.append_assoc]

theorem LdWriter.step_written {w w' : LdWriter} {act : WriteAct} (takes : w.step act = some w') :
    w.written <+: w'.written := by
  rcases LdWriter.step_loop takes with ⟨js, -, -, rfl⟩ | ⟨-, -, rfl⟩ | ⟨dir, -, -, -, -, rfl⟩ |
    ⟨n, rest, -, -, -, -, -, rfl⟩
  · exact List.prefix_rfl
  · exact List.prefix_rfl
  · have same := (ldWriteJson_written w w.jsArr).1
    exact ⟨[], by rw [same, List.append_nil]⟩
  · unfold doWrite
    dsimp only
    split_ifs
    · rw [(ldWriteJson_written _ _).1]
      exact List.prefix_append _ _
    · exact List.prefix_append _ _

theorem sentBy_append (first second : List WriteAct) :
    sentBy (first ++ second) = sentBy first ++ sentBy second := List.flatMap_append

open Runs in
theorem WriterRun.invariant {acts : List WriteAct} {w : LdWriter} (run : WriterRun .new acts w) :
    w.Sound ∧ w.written ++ w.pending = sentBy acts := by
  have start : LdWriter.new.Sound ∧
      LdWriter.new.written ++ LdWriter.new.pending = sentBy [] := ⟨LdWriter.sound_new, rfl⟩
  refine Run.history (P := fun past w => w.Sound ∧ w.written ++ w.pending = sentBy past)
    (fun past w act w' known takes => ?_) run start
  obtain ⟨sound, kept⟩ := known
  refine ⟨sound.step takes, ?_⟩
  rw [LdWriter.step_pending sound takes, kept, sentBy_append]

/-- There is a step to be made as long as something is to be written, unless the loop skips the
    writer. -/
theorem LdWriter.Sound.busy {w : LdWriter} (sound : w.Sound) (open' : w.broken = false)
    (served : w.exiting = true → w.plan ≠ .always .ioIn)
    (left : (∀ dir, w.plan ≠ .waiting dir) ∨ w.pending ≠ []) : w.Busy := by
  cases plan : w.plan with
  | waiting dir =>
      have none : w.pending = [] := by simp [pending, plan, sound.waiting dir plan]
      rcases left with awake | more
      · exact absurd plan (awake dir)
      · exact absurd none more
  | always dir =>
      refine .inl ?_
      have due : ¬ (w.broken = true ∨ w.exiting = true ∧ dir = .ioIn) := by
        rw [not_or, Bool.not_eq_true]
        refine ⟨open', fun skipped => served skipped.1 ?_⟩
        rw [plan, skipped.2]
      rw [LdWriter.step, plan]
      dsimp only
      rw [if_neg due]
      exact Option.some_ne_none _
  | writing rest =>
      refine .inr ⟨1, ?_⟩
      have length := List.length_pos_iff.mpr (sound.head rest plan).2
      have ready : ¬ (w.broken = true ∨ 1 = 0 ∨ rest.length < 1) := by
        rw [open']
        rintro (ended | zero | short)
        · cases ended
        · cases zero
        · omega
      rw [LdWriter.step, plan]
      dsimp only
      rw [if_neg ready]
      exact Option.some_ne_none _

/-- The writer of a plugin that does not exit rests only when all is written. -/
theorem LdWriter.Sound.idle {w : LdWriter} (sound : w.Sound) (running : w.exiting = false)
    (idle : ¬ w.Busy) : w.pending = [] := by
  have open' : w.broken = false := by
    rw [Bool.eq_false_iff]
    intro broken
    rw [(sound.broken.mp broken).1] at running
    cases running
  by_contra more
  exact idle (sound.busy open' (fun exits => by rw [exits] at running; cases running) (.inr more))

/-- However sends and writes interleave, and however few bytes are written at a time: what has
    been written is what was sent first, and the loop does not run out of steps before all of it
    is written. -/
theorem ld_output_in_order {acts : List WriteAct} {w : LdWriter} (run : WriterRun .new acts w) :
    w.written <+: sentBy acts ∧
      (w.exiting = false → ¬ w.Busy → w.written = sentBy acts) := by
  obtain ⟨sound, kept⟩ := run.invariant
  refine ⟨⟨w.pending, kept⟩, fun running idle => ?_⟩
  rw [← kept, sound.idle running idle, List.append_nil]

/-- A second stream is sent while the first is written. -/
theorem ld_output_in_order_two :
    "\x7b\x7d\n".toList <+: sentBy [.send "\x7b\x7d\n\n".toList, .always, .write 2,
      .send "[]".toList, .write 1] :=
  (ld_output_in_order (w := ⟨["\x7b\x7d\n\n".toList, "[]".toList], .writing ['\n'], false, false,
    "\x7b\x7d\n".toList⟩)
    (.cons rfl (.cons rfl (.cons rfl (.cons rfl (.cons rfl .nil)))))).1

/-! ## Exits -/

/-- The direction of a plan that does not write. -/
def WritePlan.dir? : WritePlan → Option IoDirection
  | .waiting dir | .always dir => some dir
  | .writing _ => none

theorem ioWake_dir (plan : WritePlan) : (ioWake plan).dir? = plan.dir? := by cases plan <;> rfl

theorem ldWriteJson_dir (w : LdWriter) (jsArr : List Text) :
    (ldWriteJson w jsArr).plan.dir? ≠ some .ioIn := by
  rcases ldWriteJson_plan w jsArr with ⟨rest, plan⟩ | plan <;> rw [plan] <;> nofun

/-- Until the loop calls the writer for the first time, its plan is one for input. -/
theorem WriterRun.first {acts : List WriteAct} {w : LdWriter} (run : WriterRun .new acts w) :
    if .always ∈ acts then w.plan.dir? ≠ some .ioIn
    else w.plan.dir? = some .ioIn ∧ w.written = [] := by
  have start : if .always ∈ ([] : List WriteAct) then LdWriter.new.plan.dir? ≠ some .ioIn
      else LdWriter.new.plan.dir? = some .ioIn ∧ LdWriter.new.written = [] := ⟨rfl, rfl⟩
  refine Runs.Run.history (P := fun past w => if .always ∈ past then w.plan.dir? ≠ some .ioIn
    else w.plan.dir? = some .ioIn ∧ w.written = []) (fun past w act w' known takes => ?_) run start
  rcases LdWriter.step_loop takes with ⟨js, rfl, -, rfl⟩ | ⟨rfl, -, rfl⟩ |
    ⟨dir, rfl, -, -, -, rfl⟩ | ⟨n, rest, rfl, plan, -, -, -, rfl⟩
  · simpa [ldSend, ioWake_dir] using known
  · simpa [pluginExit, ioWake_dir] using known
  · simpa using ldWriteJson_dir w w.jsArr
  · have later : .always ∈ past := by
      by_contra first
      rw [if_neg first, plan] at known
      cases known.1
    rw [if_pos (List.mem_append_left _ later)]
    unfold doWrite
    dsimp only
    split_ifs with done
    · exact ldWriteJson_dir _ _
    · nofun

/-- How many steps the loop can still make. -/
def LdWriter.remaining (w : LdWriter) : Nat :=
  match w.plan with
  | .always _ => w.pending.length + 1
  | _ => w.pending.length

theorem ldWriteJson_remaining (w : LdWriter) (jsArr : List Text) :
    (ldWriteJson w jsArr).remaining = jsArr.flatten.length := by
  rw [← ldWriteJson_pending w jsArr]
  rcases ldWriteJson_plan w jsArr with ⟨rest, plan⟩ | plan <;> simp [LdWriter.remaining, plan]

theorem LdWriter.step_exiting {w w' : LdWriter} {act : WriteAct} (exits : w.exiting = true)
    (takes : w.step act = some w') : w'.exiting = true ∧ w'.remaining < w.remaining := by
  rcases LdWriter.step_loop takes with ⟨js, -, running, -⟩ | ⟨-, running, -⟩ |
    ⟨dir, -, plan, -, -, rfl⟩ | ⟨n, rest, -, plan, -, positive, le, rfl⟩
  · rw [exits] at running
    cases running
  · rw [exits] at running
    cases running
  · rw [(ldWriteJson_written _ _).2, ldWriteJson_remaining]
    exact ⟨exits, by simp [remaining, pending, plan]⟩
  · have before : w.remaining = rest.length + w.jsArr.tail.flatten.length := by
      simp [remaining, pending, plan]
    unfold doWrite
    dsimp only
    split_ifs with done
    · rw [(ldWriteJson_written _ _).2, ldWriteJson_remaining, before]
      exact ⟨exits, by omega⟩
    · refine ⟨exits, ?_⟩
      rw [before]
      simp only [remaining, pending, List.length_append, List.length_drop]
      omega

theorem WriterRun.exiting {w w' : LdWriter} {acts : List WriteAct} (run : WriterRun w acts w')
    (exits : w.exiting = true) : w'.exiting = true ∧ acts.length + w'.remaining ≤ w.remaining := by
  induction run with
  | nil => exact ⟨exits, by simp⟩
  | cons takes _ ih =>
      obtain ⟨exits', less⟩ := LdWriter.step_exiting exits takes
      obtain ⟨last, bound⟩ := ih exits'
      refine ⟨last, ?_⟩
      rw [List.length_cons]
      omega

theorem WriterRun.exiting_sentBy {w w' : LdWriter} {acts : List WriteAct}
    (run : WriterRun w acts w') (exits : w.exiting = true) : sentBy acts = [] := by
  induction run with
  | nil => rfl
  | cons takes _ ih =>
      have rest := ih (LdWriter.step_exiting exits takes).1
      rcases LdWriter.step_loop takes with ⟨js, -, running, -⟩ | ⟨-, running, -⟩ |
        ⟨dir, rfl, -⟩ | ⟨n, text, rfl, -⟩
      · rw [exits] at running
        cases running
      · rw [exits] at running
        cases running
      · exact rest
      · exact rest

/-- Nothing goes on behind an exit when the writer has not been called before. -/
theorem LdWriter.step_skipped {w : LdWriter} (exits : w.exiting = true)
    (plan : w.plan = .always .ioIn) (act : WriteAct) : w.step act = none := by
  cases act <;> simp [step, exits, plan]

/-- Exits in every run: if the loop has called the writer before, then all that was sent is written
    after some bounded number of steps, and the loop ends; if not, then nothing is ever written
    and the loop does not end. -/
theorem ld_exit_flushes {before after : List WriteAct} {w : LdWriter}
    (run : WriterRun .new (before ++ .exit :: after) w) :
    if .always ∈ before then
      after.length ≤ (sentBy before).length + 1 ∧
        (w.Busy ∨ w.broken = true ∧ w.written = sentBy before)
    else after = [] ∧ ¬ w.Busy ∧ w.broken = false ∧ w.written = [] := by
  obtain ⟨sound, kept⟩ := run.invariant
  obtain ⟨u, head, tail⟩ := Runs.Run.split run
  obtain ⟨soundU, keptU⟩ := WriterRun.invariant head
  have firstU := WriterRun.first head
  cases tail with
  | cons takes tail =>
      rename_i v
      obtain ⟨running, rfl⟩ : u.exiting = false ∧ v = pluginExit u := by
        rw [LdWriter.step] at takes
        split_ifs at takes with exiting
        exact ⟨Bool.eq_false_iff.mpr exiting, (Option.some.inj takes).symm⟩
      have soundV := soundU.step takes
      obtain ⟨exits, bound⟩ := WriterRun.exiting tail rfl
      have none : sentBy after = [] := WriterRun.exiting_sentBy tail rfl
      have sent : sentBy (.exit :: after) = sentBy after := rfl
      rw [sentBy_append, sent, none, List.append_nil] at kept
      split_ifs at firstU ⊢ with called
      · refine ⟨?_, ?_⟩
        · have most : (pluginExit u).remaining ≤ u.pending.length + 1 := by
            cases plan : u.plan <;>
              simp [LdWriter.remaining, LdWriter.pending, pluginExit, ioWake, plan]
          have length := congrArg List.length keptU
          rw [List.length_append] at length
          omega
        · have dir := WriterRun.first run
          rw [if_pos (List.mem_append_left _ called)] at dir
          cases open' : w.broken with
          | true =>
              obtain ⟨-, waiting, plan⟩ := sound.broken.mp open'
              have all : w.pending = [] := by
                simp [LdWriter.pending, plan, sound.waiting waiting plan]
              rw [all, List.append_nil] at kept
              exact .inr ⟨rfl, kept⟩
          | false =>
              refine .inl (sound.busy open' (fun _ plan => ?_) (.inl fun waiting plan => ?_))
              · rw [plan] at dir
                exact dir rfl
              · have ends := sound.broken.mpr ⟨exits, waiting, plan⟩
                rw [open'] at ends
                cases ends
      · have plan : (pluginExit u).plan = .always .ioIn := by
          obtain ⟨dir, -⟩ := firstU
          cases plan : u.plan <;> rw [plan] at dir <;> cases dir <;> simp [pluginExit, ioWake, plan]
        cases tail with
        | cons takes' =>
            rw [LdWriter.step_skipped rfl plan] at takes'
            cases takes'
        | nil =>
            have skipped := LdWriter.step_skipped (w := pluginExit u) rfl plan
            refine ⟨rfl, ?_, ?_, firstU.2⟩
            · rintro (always | ⟨n, write⟩)
              · exact always (skipped _)
              · exact write (skipped _)
            · rw [Bool.eq_false_iff]
              intro broken
              obtain ⟨-, dir, waiting⟩ := soundV.broken.mp broken
              rw [plan] at waiting
              cases waiting

/-- The plugin exits at the first message it reads: its last words are not written.  When it exits
    while it writes the first of two messages, both are. -/
theorem ld_exit_flushes_both :
    (∃ w : LdWriter, WriterRun .new [.send "\x7b\x7d\n\n".toList, .exit] w ∧ ¬ w.Busy ∧
      w.broken = false ∧ w.written = []) ∧
      ∃ w : LdWriter, WriterRun .new ([.send "\x7b\x7d\n\n".toList, .always, .write 2,
          .send "[]\n\n".toList] ++ .exit :: [.write 2, .write 4]) w ∧
        (w.Busy ∨ w.broken = true ∧ w.written = "\x7b\x7d\n\n[]\n\n".toList) := by
  have silent : WriterRun .new [.send "\x7b\x7d\n\n".toList, .exit]
      ⟨["\x7b\x7d\n\n".toList], .always .ioIn, true, false, []⟩ := .cons rfl (.cons rfl .nil)
  have both : WriterRun .new ([.send "\x7b\x7d\n\n".toList, .always, .write 2,
      .send "[]\n\n".toList] ++ .exit :: [.write 2, .write 4])
      ⟨[], .waiting .ioOut, true, true, "\x7b\x7d\n\n[]\n\n".toList⟩ :=
    .cons rfl (.cons rfl (.cons rfl (.cons rfl (.cons rfl (.cons rfl (.cons rfl .nil))))))
  have never := @ld_exit_flushes [.send "\x7b\x7d\n\n".toList] [] _ silent
  have flushed := ld_exit_flushes both
  rw [if_neg (by decide)] at never
  rw [if_pos (by decide)] at flushed
  exact ⟨⟨_, silent, never.2⟩, _, both, flushed.2⟩

end Payz
