import Payz.Json.Grammar

/-! # The tokenizer reads JSON text back

A run of the tokenizer over the text of a well-formed datum appends the tokens of
that datum and counts it once in the superior token; validation then reads the
datum off again.  Inside a container the superior token moves between the
container and the key that was read last, which is all a comma has to undo.
-/

namespace Payz

open Layout

/-- The loop with as much fuel as it can use. -/
def jsmnRun (p : JsmnParser) (rest : Text) : JsmnParser × Option JsmnErr :=
  jsmnLoop rest.length p rest

theorem jsmnParsePrimitive_pos {c : Char} {rest : Text} {n : Nat} (nul : c ≠ '\x00')
    (inner : endsPrimitive c = false) (scanned : jsmnParsePrimitive (c :: rest) = some n) :
    0 < n := by
  simp only [jsmnParsePrimitive, nul, if_false, inner, Bool.false_eq_true] at scanned
  split at scanned
  · cases scanned
  · cases tail : jsmnParsePrimitive rest with
    | none => simp [tail] at scanned
    | some m =>
        simp only [tail, Option.map_some, Option.some.injEq] at scanned
        omega

/-- Every turn of the loop consumes at least the character it looks at. -/
theorem jsmnStep_shorter {p p' : JsmnParser} {c : Char} {rest rest' : Text} (nul : c ≠ '\x00')
    (step : jsmnStep p c rest = .ok (p', rest')) : rest'.length ≤ rest.length := by
  unfold jsmnStep at step
  split_ifs at step with openObj openArr closeObj closeArr quote blank colon comma
  · cases step; exact le_refl _
  · cases step; exact le_refl _
  · obtain ⟨_, -, same⟩ := eq_of_map_eq_ok step
    cases same; exact le_refl _
  · obtain ⟨_, -, same⟩ := eq_of_map_eq_ok step
    cases same; exact le_refl _
  · obtain ⟨_, -, same⟩ := eq_of_map_eq_ok step
    cases same; simp
  · cases step; exact le_refl _
  · cases step; exact le_refl _
  · cases step; exact le_refl _
  · split at step
    · cases step
    · rename_i n scanned
      cases step
      have inner : endsPrimitive c = false := by
        simp only [not_or] at blank
        simp [endsPrimitive, closeObj, closeArr, blank, colon, comma]
      have := jsmnParsePrimitive_pos nul inner scanned
      simp only [List.length_drop, List.length_cons]
      omega

theorem jsmnLoop_enough {n : Nat} {rest : Text} (p : JsmnParser) (enough : rest.length ≤ n) :
    jsmnLoop n p rest = jsmnRun p rest := by
  induction n using Nat.strongRecOn generalizing p rest with
  | _ n ih =>
      cases rest with
      | nil => cases n <;> rfl
      | cons c rest =>
          cases n with
          | zero => simp at enough
          | succ n =>
              simp only [List.length_cons, Nat.add_le_add_iff_right] at enough
              simp only [jsmnRun, List.length_cons, jsmnLoop]
              split
              · rfl
              · rename_i nul
                split
                · rfl
                · rename_i p' rest' step
                  have shorter := jsmnStep_shorter nul step
                  rw [ih n (Nat.lt_succ_self n) p' (by omega)]
                  rcases Nat.lt_or_ge rest.length n with less | more
                  · exact (ih _ (by omega) p' shorter).symm
                  · have same : rest.length = n := by omega
                    rw [same, ih n (Nat.lt_succ_self n) p' (by omega)]

theorem jsmnRun_step {p p' : JsmnParser} {c : Char} {rest rest' : Text} (nul : c ≠ '\x00')
    (step : jsmnStep p c rest = .ok (p', rest')) : jsmnRun p (c :: rest) = jsmnRun p' rest' := by
  have shorter := jsmnStep_shorter nul step
  simp only [jsmnRun, List.length_cons, jsmnLoop, nul, if_false, step]
  exact jsmnLoop_enough p' shorter

/-! ## Token lists with one container still open at the end -/

theorem lastIdx_append {α : Type} (f : α → Bool) (as bs : List α) :
    lastIdx f (as ++ bs) = match lastIdx f bs with
      | some i => some (as.length + i)
      | none => lastIdx f as := by
  induction as with
  | nil => cases h : lastIdx f bs <;> simp [h, lastIdx]
  | cons a as ih =>
      simp only [List.cons_append, lastIdx, ih]
      cases h : lastIdx f bs with
      | none => simp
      | some i => simp [List.length_cons]; omega

theorem lastIdx_eq_none {α : Type} {f : α → Bool} {as : List α} (no : ∀ a ∈ as, f a = false) :
    lastIdx f as = none := by
  induction as with
  | nil => rfl
  | cons a as ih =>
      rw [List.forall_mem_cons] at no
      simp [lastIdx, ih no.2, no.1]

theorem lastIdx_split {α : Type} {f : α → Bool} {front : List α} {t : α} {inner : List α}
    (here : f t = true) (behind : ∀ a ∈ inner, f a = false) :
    lastIdx f (front ++ t :: inner) = some front.length := by
  rw [lastIdx_append]
  simp [lastIdx, lastIdx_eq_none behind, here]

theorem modify_split {α : Type} (front : List α) (t : α) (inner : List α) (f : α → α) :
    (front ++ t :: inner).modify front.length f = front ++ f t :: inner := by
  induction front with
  | nil => rfl
  | cons a front ih => simpa using ih

theorem incSize_split (front : List JsmnTok) (t : JsmnTok) (inner : List JsmnTok) :
    incSize (some front.length) (front ++ t :: inner) =
      front ++ { t with size := t.size + 1 } :: inner :=
  modify_split front t inner _

@[simp] theorem incSize_length (super : Option Nat) (tokens : List JsmnTok) :
    (incSize super tokens).length = tokens.length := by
  cases super <;> simp [incSize]

theorem lastIdx_modify {f : JsmnTok → Bool} {g : JsmnTok → JsmnTok} (same : ∀ t, f (g t) = f t)
    (tokens : List JsmnTok) (i : Nat) : lastIdx f (tokens.modify i g) = lastIdx f tokens := by
  induction tokens generalizing i with
  | nil => cases i <;> rfl
  | cons t tokens ih =>
      cases i with
      | zero => simp [lastIdx, same]
      | succ i => simp [lastIdx, ih]

@[simp] theorem lastIdx_isOpen_incSize (super : Option Nat) (tokens : List JsmnTok) :
    lastIdx JsmnTok.isOpen (incSize super tokens) = lastIdx JsmnTok.isOpen tokens := by
  cases super with
  | none => rfl
  | some i =>
      exact lastIdx_modify (f := JsmnTok.isOpen) (g := fun t => { t with size := t.size + 1 })
        (fun _ => rfl) tokens i

/-! ## Single turns -/

theorem jsmnRun_blanks {w : Text} (blanks : Blanks w) (p : JsmnParser) (rest : Text) :
    jsmnRun p (w ++ rest) = jsmnRun { p with pos := p.pos + w.length } rest := by
  induction w generalizing p with
  | nil => rfl
  | cons c w ih =>
      rw [Blanks, List.forall_mem_cons] at blanks
      have step : jsmnStep p c (w ++ rest) = .ok ({ p with pos := p.pos + 1 }, w ++ rest) := by
        rcases blanks.1 with rfl | rfl | rfl | rfl <;> rfl
      have nul : c ≠ '\x00' := by
        rintro rfl
        exact absurd blanks.1 (by decide)
      rw [List.cons_append, jsmnRun_step nul step, ih blanks.2]
      simp only [List.length_cons, Nat.add_assoc, Nat.add_comm 1]

theorem jsmnRun_string {raw : Text} (text : StringText raw) (p : JsmnParser) (rest : Text) :
    jsmnRun p ('"' :: (raw ++ '"' :: rest)) =
      jsmnRun (jsmnLeaf p .string (p.pos + 1) (p.pos + 1 + raw.length)
        (p.pos + raw.length + 2)) rest := by
  refine jsmnRun_step (by decide) ?_
  have rest' : (raw ++ '"' :: rest).drop (raw.length + 1) = rest := by
    rw [← List.drop_drop, List.drop_left]
    rfl
  simp only [jsmnStep, jsmnParseString_stringText text, Except.map, rest']
  rfl

/-- What may follow a primitive. -/
def Delimited : Text → Prop
  | [] => True
  | c :: _ => endsPrimitive c = true

theorem delimited_blanks {w rest : Text} (blanks : Blanks w) (delimited : Delimited rest) :
    Delimited (w ++ rest) := by
  cases w with
  | nil => exact delimited
  | cons c w =>
      rcases blanks c (by simp) with rfl | rfl | rfl | rfl <;> rfl

theorem jsmnParsePrimitive_delimited {t rest : Text} (chars : ∀ c ∈ t, PrimitiveChar c)
    (delimited : Delimited rest) : jsmnParsePrimitive (t ++ rest) = some t.length := by
  induction t with
  | nil =>
      cases rest with
      | nil => rfl
      | cons c rest =>
          have ends : endsPrimitive c = true := delimited
          simp [jsmnParsePrimitive, ends]
  | cons c t ih =>
      rw [List.forall_mem_cons] at chars
      obtain ⟨nul, inner, low, high⟩ := chars.1
      have inside : ¬ (c.toNat < 32 ∨ 127 ≤ c.toNat) := by omega
      simp only [Bool.or_eq_true, decide_eq_true_eq, List.cons_append, jsmnParsePrimitive, nul,
        if_false, inner, Bool.false_eq_true, inside, ih chars.2, Option.map_some,
        List.length_cons]

/-- A primitive as the tokenizer accepts it: it is not empty, holds only characters allowed
    in one and does not look like the start of anything else. -/
def PrimitiveShape (t : Text) : Prop :=
  ∃ c rest, t = c :: rest ∧ (∀ d ∈ t, PrimitiveChar d) ∧ c ≠ '{' ∧ c ≠ '[' ∧ c ≠ '"'

theorem PrimitiveText.shape {t : Text} (text : PrimitiveText t) : PrimitiveShape t := by
  rcases text with rfl | rfl | rfl | ⟨c, rest, rfl, head, tail⟩
  · exact ⟨'n', "ull".toList, rfl, forall_mem_of_all rfl, by decide⟩
  · exact ⟨'t', "rue".toList, rfl, forall_mem_of_all rfl, by decide⟩
  · exact ⟨'f', "alse".toList, rfl, forall_mem_of_all rfl, by decide⟩
  · refine ⟨c, rest, rfl, ?_, ?_⟩
    · rw [List.forall_mem_cons]
      refine ⟨?_, fun d member => ?_⟩
      · rcases head with rfl | digit
        · decide
        · exact primitiveChar_of_isDigit digit
      · rcases tail d member with digit | sign
        · exact primitiveChar_of_isDigit digit
        · have marks : ∀ d ∈ ['+', '-', '.', 'e', 'E'], PrimitiveChar d := forall_mem_of_all rfl
          exact marks d sign
    · rcases head with rfl | digit
      · decide
      · have range := toNat_of_isDigit digit
        refine ⟨?_, ?_, ?_⟩ <;> rintro rfl <;> exact absurd range (by decide)

theorem jsmnRun_primitive {t : Text} (shape : PrimitiveShape t) (p : JsmnParser) {rest : Text}
    (delimited : Delimited rest) :
    jsmnRun p (t ++ rest) =
      jsmnRun (jsmnLeaf p .primitive p.pos (p.pos + t.length) (p.pos + t.length)) rest := by
  obtain ⟨c, tail, rfl, chars, brace, bracket, quote⟩ := shape
  have scanned := jsmnParsePrimitive_delimited chars delimited
  obtain ⟨nul, inner, -, -⟩ := chars c (by simp)
  simp only [endsPrimitive, Bool.or_eq_false_iff, beq_eq_false_iff_ne, ne_eq] at inner
  obtain ⟨⟨⟨⟨⟨⟨⟨colon, tab⟩, cr⟩, lf⟩, space⟩, comma⟩, closeArr⟩, closeObj⟩ := inner
  rw [List.cons_append] at scanned ⊢
  refine jsmnRun_step nul ?_
  simp only [jsmnStep, brace, bracket, quote, colon, tab, cr, lf, space, comma, closeArr, closeObj,
    if_false, or_self, scanned]
  rw [← List.cons_append, List.drop_left]

/-! ## Whole data -/

/-- Tokens from which validation reads the datum, leaving the rest alone. -/
structure Reads (buffer : Text) (ts : List JsmnTok) (j : Json) : Prop where
  closed : ∀ t ∈ ts, t.isOpen = false
  validated : ∀ fuel more, ts.length ≤ fuel →
    validateJsmnDatum fuel buffer (ts ++ more) = some (j, more)
  skipped : ∀ n more, skipData (n + 1) (ts ++ more) = skipData n more

/-- Superior token after a datum: closing a container gives it to the container
    around it, a leaf leaves it alone. -/
def superAfter (p : JsmnParser) : Json → Option Nat
  | .primitive _ | .string _ => p.toksuper
  | .array _ _ | .object _ _ => lastIdx JsmnTok.isOpen p.tokens

/-- The parser after a datum with these tokens. -/
def JsmnParser.push (p : JsmnParser) (j : Json) (ts : List JsmnTok) : JsmnParser where
  pos := p.pos + j.jsonTokFull.length
  toksuper := superAfter p j
  tokens := incSize p.toksuper p.tokens ++ ts

/-- The tokenizer reads the datum wherever it stands in front of a delimiter. -/
def Tokenized (j : Json) : Prop :=
  ∀ (buffer : Text) (p : JsmnParser) (rest : Text),
    buffer.drop p.pos = j.jsonTokFull ++ rest → Delimited rest →
    ∃ ts, Reads buffer ts j ∧ jsmnRun p (j.jsonTokFull ++ rest) = jsmnRun (p.push j ts) rest

theorem tokText_of_drop {buffer t rest : Text} {start : Nat} (type : JsmnType) (size : Nat)
    (drop : buffer.drop start = t ++ rest) :
    tokText buffer ⟨type, start, some (start + t.length), size⟩ = t := by
  simp [tokText, drop]

theorem drop_add_of_drop {buffer t rest : Text} {start : Nat}
    (drop : buffer.drop start = t ++ rest) : buffer.drop (start + t.length) = rest := by
  rw [← List.drop_drop, drop, List.drop_left]

theorem tokenized_primitive {t : Text} (shape : PrimitiveShape t) : Tokenized (.primitive t) := by
  intro buffer p rest drop delimited
  refine ⟨[⟨.primitive, p.pos, some (p.pos + t.length), 0⟩], ⟨by simp [JsmnTok.isOpen], ?_, ?_⟩, ?_⟩
  · intro fuel more enough
    cases fuel with
    | zero => simp at enough
    | succ fuel =>
        have text : tokText buffer ⟨.primitive, p.pos, some (p.pos + t.length), 0⟩ = t :=
          tokText_of_drop .primitive 0 drop
        simp only [List.singleton_append, validateJsmnDatum, if_true, text]
  · intro n more
    simp [skipData]
  · exact jsmnRun_primitive shape p delimited

theorem tokenized_string {raw : Text} (text : StringText raw) : Tokenized (.string raw) := by
  intro buffer p rest drop delimited
  have inner : buffer.drop (p.pos + 1) = raw ++ '"' :: rest := by
    rw [← List.drop_drop, drop]
    simp [Json.jsonTokFull]
  refine ⟨[⟨.string, p.pos + 1, some (p.pos + 1 + raw.length), 0⟩],
    ⟨by simp [JsmnTok.isOpen], ?_, ?_⟩, ?_⟩
  · intro fuel more enough
    cases fuel with
    | zero => simp at enough
    | succ fuel =>
        simp only [List.singleton_append, validateJsmnDatum, if_true,
          tokText_of_drop .string 0 inner]
  · intro n more
    simp [skipData]
  · have run := jsmnRun_string text p rest
    simpa [Json.jsonTokFull, jsmnLeaf, JsmnParser.push, superAfter, Nat.add_assoc] using run

/-! ## Inside a container -/

/-- The tokens end with a container `t` that is still open and the tokens read
    inside it. -/
structure Inside (p : JsmnParser) (front : List JsmnTok) (t : JsmnTok)
    (inner : List JsmnTok) : Prop where
  tokens : p.tokens = front ++ t :: inner
  opened : t.isOpen = true
  container : t.isContainer = true
  closed : ∀ u ∈ inner, u.isOpen = false

/-- The superior token is the container or a key inside it. -/
def SuperInside (p : JsmnParser) (front : List JsmnTok) : Prop :=
  ∃ i, p.toksuper = some i ∧
    (i = front.length ∨ (p.tokens[i]?).any JsmnTok.isContainer = false)

/-- A comma makes the container the superior token, whatever came before it. -/
theorem jsmnComma_inside {p : JsmnParser} {front : List JsmnTok} {t : JsmnTok}
    {inner : List JsmnTok} (inside : Inside p front t inner) (super : SuperInside p front) :
    jsmnComma p = { p with pos := p.pos + 1, toksuper := some front.length } := by
  obtain ⟨i, at_i, rfl | key⟩ := super
  · have container : (p.tokens[front.length]?).any JsmnTok.isContainer = true := by
      rw [inside.tokens, List.getElem?_append_right (le_refl _)]
      simpa using inside.container
    rw [jsmnComma, at_i]
    simp only [container, if_true]
  · have last : lastIdx (fun t => t.isContainer && t.isOpen) p.tokens = some front.length := by
      rw [inside.tokens]
      refine lastIdx_split (by simp [inside.container, inside.opened]) fun u member => ?_
      simp [inside.closed u member]
    rw [jsmnComma, at_i]
    simp [key, last]

/-- Tokens from which a list of items is read. -/
structure ReadsMany {α : Type} (read : Nat → List JsmnTok → Option (α × List JsmnTok))
    (ts : List JsmnTok) (items : List α) : Prop where
  closed : ∀ t ∈ ts, t.isOpen = false
  validated : ∀ fuel more, ts.length ≤ fuel →
    readMany (read fuel) items.length (ts ++ more) = some (items, more)
  skipped : ∀ n more, skipData (n + items.length) (ts ++ more) = skipData n more

theorem ReadsMany.nil {α : Type} (read : Nat → List JsmnTok → Option (α × List JsmnTok)) :
    ReadsMany read [] [] :=
  ⟨by simp, fun _ _ _ => rfl, fun _ _ => rfl⟩

theorem ReadsMany.cons {α : Type} {read : Nat → List JsmnTok → Option (α × List JsmnTok)}
    {ts ts' : List JsmnTok} {item : α} {items : List α} (head : ReadsMany read ts [item])
    (tail : ReadsMany read ts' items) : ReadsMany read (ts ++ ts') (item :: items) := by
  refine ⟨?_, ?_, ?_⟩
  · intro t member
    exact (List.mem_append.mp member).elim (head.closed t) (tail.closed t)
  · intro fuel more enough
    rw [List.length_append] at enough
    have first := head.validated fuel (ts' ++ more) (by omega)
    simp only [List.length_singleton, readMany] at first
    rw [List.append_assoc, List.length_cons, readMany]
    cases one : read fuel (ts ++ (ts' ++ more)) with
    | none => simp [one] at first
    | some result =>
        obtain ⟨a, toks⟩ := result
        simp only [one, Option.map_some, Option.some.injEq, Prod.mk.injEq, List.cons.injEq,
          and_true] at first
        obtain ⟨rfl, rfl⟩ := first
        simp [tail.validated fuel more (by omega)]
  · intro n more
    rw [List.append_assoc, List.length_cons, ← Nat.add_assoc]
    have first := head.skipped (n + items.length) (ts' ++ more)
    rw [List.length_singleton] at first
    rw [first, tail.skipped]

/-- The tokenizer reads one item of a container, starting and ending inside it. -/
def ItemTokenized {α : Type} (buffer : Text)
    (read : Nat → List JsmnTok → Option (α × List JsmnTok)) (item : α) (s : Text) : Prop :=
  ∀ (p : JsmnParser) (front : List JsmnTok) (t : JsmnTok) (inner : List JsmnTok) (rest : Text),
    Inside p front t inner → p.toksuper = some front.length →
    buffer.drop p.pos = s ++ rest → Delimited rest →
    ∃ ts p', ReadsMany read ts [item] ∧ p'.pos = p.pos + s.length ∧ SuperInside p' front ∧
      Inside p' front { t with size := t.size + 1 } (inner ++ ts) ∧
      jsmnRun p (s ++ rest) = jsmnRun p' rest

theorem items_tokenized {α : Type} {Text' : α → Text → Prop} {buffer : Text}
    {read : Nat → List JsmnTok → Option (α × List JsmnTok)} {items : List α} {body : Text}
    (sep : CommaSep Text' items body)
    (each : ∀ item ∈ items, ∀ s, Text' item s → ItemTokenized buffer read item s) :
    ∀ (p : JsmnParser) (front : List JsmnTok) (t : JsmnTok) (inner : List JsmnTok) (rest : Text),
      Inside p front t inner → p.toksuper = some front.length →
      buffer.drop p.pos = body ++ rest → Delimited rest →
      ∃ ts p', ReadsMany read ts items ∧ p'.pos = p.pos + body.length ∧
        Inside p' front { t with size := t.size + items.length } (inner ++ ts) ∧
        jsmnRun p (body ++ rest) = jsmnRun p' rest := by
  induction sep with
  | @nil w blanks =>
      intro p front t inner rest inside super drop delimited
      refine ⟨[], { p with pos := p.pos + w.length }, .nil read, rfl, ?_, jsmnRun_blanks blanks p rest⟩
      simpa using ⟨inside.tokens, inside.opened, inside.container, inside.closed⟩
  | @single w s w' item blanks text blanks' =>
      intro p front t inner rest inside super drop delimited
      have drop' : buffer.drop (p.pos + w.length) = s ++ (w' ++ rest) := by
        apply drop_add_of_drop
        simpa using drop
      obtain ⟨ts, p', reads, pos, -, inside', run⟩ := each item (by simp) s text
        { p with pos := p.pos + w.length } front t inner (w' ++ rest)
        ⟨inside.tokens, inside.opened, inside.container, inside.closed⟩ super drop'
        (delimited_blanks blanks' delimited)
      refine ⟨ts, { p' with pos := p'.pos + w'.length }, reads, ?_, ?_, ?_⟩
      · simp [pos]
        omega
      · exact ⟨inside'.tokens, inside'.opened, inside'.container, inside'.closed⟩
      · rw [List.append_assoc, List.append_assoc, jsmnRun_blanks blanks, run,
          jsmnRun_blanks blanks']
  | @cons w s w' item items body blanks text blanks' nonempty sep ih =>
      intro p front t inner rest inside super drop delimited
      have drop' : buffer.drop (p.pos + w.length) = s ++ (w' ++ ',' :: (body ++ rest)) := by
        apply drop_add_of_drop
        simpa using drop
      obtain ⟨ts, p', reads, pos, super', inside', run⟩ := each item (by simp) s text
        { p with pos := p.pos + w.length } front t inner (w' ++ ',' :: (body ++ rest))
        ⟨inside.tokens, inside.opened, inside.container, inside.closed⟩ super drop'
        (delimited_blanks blanks' rfl)
      have blanksDone : Inside { p' with pos := p'.pos + w'.length } front
          { t with size := t.size + 1 } (inner ++ ts) :=
        ⟨inside'.tokens, inside'.opened, inside'.container, inside'.closed⟩
      have comma := jsmnComma_inside blanksDone super'
      have step : jsmnStep { p' with pos := p'.pos + w'.length } ',' (body ++ rest) =
          .ok (⟨p'.pos + w'.length + 1, some front.length, p'.tokens⟩, body ++ rest) := by
        have : jsmnStep { p' with pos := p'.pos + w'.length } ',' (body ++ rest) =
            .ok (jsmnComma { p' with pos := p'.pos + w'.length }, body ++ rest) := rfl
        rw [this, comma]
      have drop'' : buffer.drop (p'.pos + w'.length + 1) = body ++ rest := by
        have read := @drop_add_of_drop buffer (s ++ (w' ++ [','])) (body ++ rest)
          (p.pos + w.length) (by simpa using drop')
        rw [← read, pos]
        congr 1
        simp
        omega
      obtain ⟨ts', q, reads', qpos, insideq, runq⟩ := ih
        (fun item member => each item (List.mem_cons_of_mem _ member))
        ⟨p'.pos + w'.length + 1, some front.length, p'.tokens⟩ front
        { t with size := t.size + 1 } (inner ++ ts) rest
        ⟨inside'.tokens, inside'.opened, inside'.container, inside'.closed⟩ rfl drop'' delimited
      refine ⟨ts ++ ts', q, reads.cons reads', ?_, ?_, ?_⟩
      · rw [qpos, pos]
        simp
        omega
      · simpa [Nat.add_assoc, Nat.add_comm 1] using insideq
      · have whole : w ++ (s ++ (w' ++ ',' :: body)) ++ rest =
            w ++ (s ++ (w' ++ ',' :: (body ++ rest))) := by simp
        rw [whole, jsmnRun_blanks blanks, run, jsmnRun_blanks blanks',
          jsmnRun_step (by decide) step, runq]

theorem elem_tokenized {j : Json} (tokenized : Tokenized j) (buffer : Text) :
    ItemTokenized buffer (fun fuel => validateJsmnDatum fuel buffer) j j.jsonTokFull := by
  intro p front t inner rest inside super drop delimited
  obtain ⟨ts, reads, run⟩ := tokenized buffer p rest drop delimited
  have last : lastIdx JsmnTok.isOpen p.tokens = some front.length := by
    rw [inside.tokens]
    exact lastIdx_split inside.opened inside.closed
  have tokens : (p.push j ts).tokens = front ++ { t with size := t.size + 1 } :: (inner ++ ts) := by
    simp only [JsmnParser.push, super, inside.tokens, incSize_split, List.append_assoc,
      List.cons_append]
  refine ⟨ts, p.push j ts, ⟨reads.closed, ?_, reads.skipped⟩, rfl,
    ⟨front.length, ?_, .inl rfl⟩, ⟨tokens, inside.opened, inside.container, ?_⟩, run⟩
  · intro fuel more enough
    simp [readMany, reads.validated fuel more enough]
  · cases j <;> simp [JsmnParser.push, superAfter, super, last]
  · intro u member
    exact (List.mem_append.mp member).elim (inside.closed u) (reads.closed u)

/-- A member is a key that counts one datum.  After a leaf the key is still the
    superior token. -/
theorem member_tokenized {m : Text × Json} {s : Text} (key : StringText m.1)
    (tokenized : Tokenized m.2) (text : MemberText m s) (buffer : Text) :
    ItemTokenized buffer
      (fun fuel => validateJsmnKeyvalue (validateJsmnDatum fuel buffer) buffer) m s := by
  obtain ⟨w, w', blanks, blanks', rfl⟩ := text
  obtain ⟨k, j⟩ := m
  intro p front t inner rest inside super drop delimited
  simp only at key tokenized drop ⊢
  have keyDrop : buffer.drop (p.pos + 1) =
      k ++ ('"' :: (w ++ ':' :: (w' ++ (j.jsonTokFull ++ rest)))) := by
    rw [← List.drop_drop, drop]
    simp
  let keyTok : JsmnTok := ⟨.string, p.pos + 1, some (p.pos + 1 + k.length), 0⟩
  let counted : JsmnTok := { t with size := t.size + 1 }
  let valuePos := p.pos + k.length + 2 + w.length + 1 + w'.length
  let afterColon : JsmnParser :=
    ⟨valuePos, some (front.length + 1 + inner.length), front ++ counted :: (inner ++ [keyTok])⟩
  have toValue : jsmnRun p ('"' :: (k ++ '"' :: (w ++ ':' :: (w' ++ (j.jsonTokFull ++ rest))))) =
      jsmnRun afterColon (j.jsonTokFull ++ rest) := by
    have leaf : jsmnLeaf p .string (p.pos + 1) (p.pos + 1 + k.length) (p.pos + k.length + 2) =
        ⟨p.pos + k.length + 2, some front.length, front ++ counted :: (inner ++ [keyTok])⟩ := by
      simp only [jsmnLeaf, super, inside.tokens, incSize_split, List.append_assoc,
        List.cons_append, counted, keyTok]
    rw [jsmnRun_string key, leaf, jsmnRun_blanks blanks,
      jsmnRun_step (c := ':') (by decide) rfl, jsmnRun_blanks blanks']
    simp only [jsmnColon, List.length_append, List.length_cons, List.length_nil, afterColon,
      valuePos]
    congr 2
    simp
    omega
  have valueDrop : buffer.drop valuePos = j.jsonTokFull ++ rest := by
    have read := @drop_add_of_drop buffer ('"' :: (k ++ '"' :: (w ++ ':' :: w')))
      (j.jsonTokFull ++ rest) p.pos (by simpa using drop)
    rw [← read]
    congr 1
    simp [valuePos]
    omega
  obtain ⟨ts, reads, run⟩ := tokenized buffer afterColon rest valueDrop delimited
  have inc : incSize afterColon.toksuper afterColon.tokens =
      front ++ counted :: (inner ++ [{ keyTok with size := 1 }]) := by
    have := incSize_split (front ++ counted :: inner) keyTok []
    simpa [afterColon, Nat.add_comm, Nat.add_left_comm, Nat.add_assoc, keyTok] using this
  have tokens : (afterColon.push j ts).tokens =
      front ++ counted :: (inner ++ ({ keyTok with size := 1 } :: ts)) := by
    simp [JsmnParser.push, inc]
  have last : lastIdx JsmnTok.isOpen afterColon.tokens = some front.length := by
    refine lastIdx_split (t := counted) inside.opened fun u member => ?_
    rcases List.mem_append.mp member with member | member
    · exact inside.closed u member
    · rw [List.mem_singleton.mp member]
      rfl
  refine ⟨{ keyTok with size := 1 } :: ts, afterColon.push j ts, ⟨?_, ?_, ?_⟩, ?_, ?_,
    ⟨tokens, inside.opened, inside.container, ?_⟩, ?_⟩
  · rw [List.forall_mem_cons]
    exact ⟨rfl, reads.closed⟩
  · intro fuel more enough
    have value := reads.validated fuel more (by simp at enough; omega)
    have keyText : tokText buffer { keyTok with size := 1 } = k := tokText_of_drop .string 1 keyDrop
    simp [readMany, validateJsmnKeyvalue, value, keyText, keyTok]
  · intro n more
    have := reads.skipped n more
    simpa [skipData, Nat.add_comm] using this
  · simp [JsmnParser.push, afterColon, valuePos]
    omega
  · by_cases leaf : superAfter afterColon j = some front.length
    · exact ⟨front.length, leaf, .inl rfl⟩
    · refine ⟨front.length + 1 + inner.length, ?_, .inr ?_⟩
      · cases j <;> simp [JsmnParser.push, superAfter, afterColon] at leaf ⊢
        all_goals exact absurd last leaf
      · rw [tokens, List.getElem?_append_right (by omega)]
        have : front.length + 1 + inner.length - front.length = inner.length + 1 := by omega
        rw [this, List.getElem?_cons_succ, List.getElem?_append_right (le_refl _)]
        simp [JsmnTok.isContainer, keyTok]
  · intro u member
    rcases List.mem_append.mp member with member | member
    · exact inside.closed u member
    · rcases List.mem_cons.mp member with rfl | member
      · rfl
      · exact reads.closed u member
  · have whole : '"' :: (k ++ '"' :: (w ++ ':' :: (w' ++ j.jsonTokFull))) ++ rest =
        '"' :: (k ++ '"' :: (w ++ ':' :: (w' ++ (j.jsonTokFull ++ rest)))) := by simp
    rw [whole, toValue, run]

/-- How the tokenizer and the validation treat one kind of container. -/
structure ContainerKind {α : Type} (type : JsmnType) (opening closing : Char)
    (build : Text → List α → Json)
    (read : Nat → Text → List JsmnTok → Option (α × List JsmnTok)) : Prop where
  isContainer : type = .array ∨ type = .object
  opens : opening ≠ '\x00' ∧ ∀ p rest, jsmnStep p opening rest = .ok (jsmnOpen p type, rest)
  closes : closing ≠ '\x00' ∧ endsPrimitive closing = true ∧
    ∀ p rest, jsmnStep p closing rest = (jsmnClose p type).map (·, rest)
  validates : ∀ fuel buffer (t : JsmnTok) toks, t.type = type →
    validateJsmnDatum (fuel + 1) buffer (t :: toks) =
      (readMany (read fuel buffer) t.size toks).map fun (items, toks) =>
        (build (tokText buffer t) items, toks)
  full : ∀ text items, (build text items).jsonTokFull = text
  super : ∀ p text items, superAfter p (build text items) = lastIdx JsmnTok.isOpen p.tokens

theorem arrayKind : ContainerKind .array '[' ']' Json.array
    (fun fuel buffer => validateJsmnDatum fuel buffer) where
  isContainer := .inl rfl
  opens := ⟨by decide, fun _ _ => rfl⟩
  closes := ⟨by decide, by decide, fun _ _ => rfl⟩
  validates := by
    intro fuel buffer t toks type
    rw [validateJsmnDatum, type]
  full := fun _ _ => rfl
  super := fun _ _ _ => rfl

theorem objectKind : ContainerKind .object '{' '}' Json.object
    (fun fuel buffer => validateJsmnKeyvalue (validateJsmnDatum fuel buffer) buffer) where
  isContainer := .inr rfl
  opens := ⟨by decide, fun _ _ => rfl⟩
  closes := ⟨by decide, by decide, fun _ _ => rfl⟩
  validates := by
    intro fuel buffer t toks type
    rw [validateJsmnDatum, type]
  full := fun _ _ => rfl
  super := fun _ _ _ => rfl

theorem container_tokenized {α : Type} {type : JsmnType} {opening closing : Char}
    {build : Text → List α → Json}
    {read : Nat → Text → List JsmnTok → Option (α × List JsmnTok)}
    (kind : ContainerKind type opening closing build read) {Text' : α → Text → Prop}
    {items : List α} {body : Text} (sep : CommaSep Text' items body)
    (each : ∀ item ∈ items, ∀ s, Text' item s → ∀ buffer,
      ItemTokenized buffer (fun fuel => read fuel buffer) item s) :
    Tokenized (build (opening :: (body ++ [closing])) items) := by
  intro buffer p rest drop delimited
  rw [kind.full] at drop ⊢
  have whole : opening :: (body ++ [closing]) ++ rest = opening :: (body ++ closing :: rest) := by
    simp
  let front := incSize p.toksuper p.tokens
  let t : JsmnTok := ⟨type, p.pos, none, 0⟩
  have inside : Inside (jsmnOpen p type) front t [] := by
    refine ⟨rfl, rfl, ?_, by simp⟩
    rcases kind.isContainer with rfl | rfl <;> rfl
  have bodyDrop : buffer.drop (p.pos + 1) = body ++ closing :: rest := by
    rw [← List.drop_drop, drop, whole]
    rfl
  obtain ⟨ts, q, reads, pos, insideq, run⟩ := items_tokenized sep
    (fun item member s text => each item member s text buffer) (jsmnOpen p type) front t []
    (closing :: rest) inside (by simp [jsmnOpen, front]) bodyDrop kind.closes.2.1
  simp only [Nat.zero_add, List.nil_append, t] at insideq
  let stopped : JsmnTok := ⟨type, p.pos, some (q.pos + 1), items.length⟩
  have last : lastIdx JsmnTok.isOpen q.tokens = some front.length := by
    rw [insideq.tokens]
    exact lastIdx_split insideq.opened insideq.closed
  have close : jsmnClose q type =
      .ok ⟨q.pos + 1, lastIdx JsmnTok.isOpen p.tokens, front ++ stopped :: ts⟩ := by
    have here : (q.tokens[front.length]?).map JsmnTok.type = some type := by
      rw [insideq.tokens, List.getElem?_append_right (le_refl _)]
      simp
    rw [jsmnClose, last]
    simp only [here, if_true]
    rw [insideq.tokens, modify_split, List.take_left, lastIdx_isOpen_incSize]
  have qpos : q.pos + 1 = p.pos + (opening :: (body ++ [closing])).length := by
    rw [pos]
    simp [jsmnOpen]
    omega
  refine ⟨stopped :: ts, ⟨?_, ?_, ?_⟩, ?_⟩
  · rw [List.forall_mem_cons]
    exact ⟨rfl, reads.closed⟩
  · intro fuel more enough
    cases fuel with
    | zero => simp at enough
    | succ fuel =>
        have text : tokText buffer stopped = opening :: (body ++ [closing]) := by
          simp only [stopped, qpos]
          exact tokText_of_drop type items.length drop
        rw [List.cons_append, kind.validates fuel buffer stopped _ rfl, text]
        simp [stopped, reads.validated fuel more (by simpa using enough)]
  · intro n more
    simpa [skipData, stopped, Nat.add_comm] using reads.skipped n more
  · rw [whole, jsmnRun_step kind.opens.1 (kind.opens.2 p _), run,
      @jsmnRun_step _ ⟨q.pos + 1, lastIdx JsmnTok.isOpen p.tokens, front ++ stopped :: ts⟩ _ _ rest
        kind.closes.1 (by rw [kind.closes.2.2, close]; rfl)]
    simp only [JsmnParser.push, kind.full, kind.super, qpos, front]

theorem Json.WellFormed.tokenized {j : Json} (wellFormed : j.WellFormed) : Tokenized j := by
  induction wellFormed with
  | primitive text => exact tokenized_primitive text.shape
  | string text => exact tokenized_string text
  | array _ sep ih =>
      refine container_tokenized arrayKind sep ?_
      rintro e member s rfl buffer
      exact elem_tokenized (ih e member) buffer
  | object keys _ sep ih =>
      refine container_tokenized objectKind sep ?_
      intro m member s text buffer
      exact member_tokenized (keys m member) (ih m member) text buffer

theorem Tokenized.complete {j : Json} (tokenized : Tokenized j) :
    ∃ toks, jsonParseInput jsmnInit j.jsonTokFull = .complete j toks := by
  obtain ⟨ts, reads, run⟩ := tokenized j.jsonTokFull jsmnInit [] (by simp [jsmnInit]) trivial
  have parsed : jsmnParse jsmnInit j.jsonTokFull = (jsmnInit.push j ts, none) := by
    have loop : jsmnLoop j.jsonTokFull.length jsmnInit (j.jsonTokFull.drop jsmnInit.pos) =
        (jsmnInit.push j ts, none) := by
      rw [List.append_nil] at run
      exact run
    have noneOpen : (jsmnInit.push j ts).tokens.any JsmnTok.isOpen = false := by
      simpa [JsmnParser.push, jsmnInit, incSize] using reads.closed
    rw [jsmnParse, loop]
    simp only [noneOpen, Bool.false_eq_true, if_false]
  have tokens : (jsmnInit.push j ts).tokens = ts := by simp [JsmnParser.push, jsmnInit, incSize]
  have next : jsonNext ts = [] := by
    simpa [jsonNext, skipData] using reads.skipped 0 []
  have datum : validateJsmnDatum ts.length j.jsonTokFull ts = some (j, []) := by
    simpa using reads.validated ts.length [] (le_refl _)
  cases ts with
  | nil => simp [validateJsmnDatum] at datum
  | cons root ts =>
      have rootClosed : root.isOpen = false := reads.closed root (by simp)
      refine ⟨root :: ts, ?_⟩
      simp only [jsonParseInput, parsed, tokens, rootClosed, Bool.false_eq_true, if_false, next,
        List.length_nil, Nat.sub_zero, List.take_length, datum]

/-- `json_parse_simple` reads a JSON text back as the datum it writes. -/
theorem jsonParseSimple_wellFormed {j : Json} (wellFormed : j.WellFormed) :
    jsonParseSimple j.jsonTokFull = some j := by
  obtain ⟨toks, parsed⟩ := wellFormed.tokenized.complete
  rw [jsonParseSimple, parsed]

theorem Json.WellFormed.eq_of_text {i j : Json} (wi : i.WellFormed) (wj : j.WellFormed)
    (same : i.jsonTokFull = j.jsonTokFull) : i = j := by
  have parsed := jsonParseSimple_wellFormed wi
  rw [same, jsonParseSimple_wellFormed wj] at parsed
  exact (Option.some.inj parsed).symm

end Payz
