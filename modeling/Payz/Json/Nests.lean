import Payz.Json.Legible
import Payz.Lib.Arity

/-! # How the tokens nest

What the tokenizer knows of its tokens at any time: they stand in the order of the text,
everything found inside a container ends before the container does, and everything found
later begins behind it.  Once a container has ended, of the tokens in it only the last can
still count another one: a colon behind the bracket makes it the superior token.
-/

namespace Payz

open Arity

/-- Where the characters of a token's own end: the bracket of a container, or the whole text
    of a leaf without its closing quote. -/
def JsmnTok.past (t : JsmnTok) : Nat := if t.isContainer then t.start + 1 else t.stop.getD t.start

/-- How many data each token holds. -/
def sizes (tokens : List JsmnTok) : List Nat := tokens.map JsmnTok.size

/-- A token has its place in the text read so far. -/
structure JsmnTok.Placed (pos : Nat) (t : JsmnTok) : Prop where
  starts : jsonTokFullStart t < t.past
  read : t.past ≤ pos
  ends : ∀ stop, t.stop = some stop →
    t.past ≤ stop ∧ stop ≤ pos ∧ (t.isContainer = true → t.past < stop)
  opened : t.isOpen = true → t.isContainer = true

/-- The tokens in front of `e` are those found in a container at `i` that ends at `stop`.
    Only the last of them can have counted any that was found later. -/
structure Shut (tokens : List JsmnTok) (i stop e : Nat) : Prop where
  order : i < e ∧ e ≤ tokens.length
  inside : ∀ k t, i < k → k < e → tokens[k]? = some t → ∃ inner, t.stop = some inner ∧ inner < stop
  behind : ∀ k t, e ≤ k → tokens[k]? = some t → stop ≤ jsonTokFullStart t
  due : ∀ t, tokens[e - 1]? = some t → due 1 (((sizes tokens).take e).drop i) = some t.size

/-- How the tokens of a parser nest, and which of them counts what is found next. -/
structure JsmnParser.Nests (p : JsmnParser) : Prop where
  placed : ∀ t ∈ p.tokens, t.Placed p.pos
  order : ∀ (k l : Nat) (t u : JsmnTok), k < l → p.tokens[k]? = some t → p.tokens[l]? = some u →
    t.past ≤ jsonTokFullStart u
  last : ∀ t, p.tokens.getLast? = some t → t.size = 0
  opened : ∀ i t, p.tokens[i]? = some t → t.isOpen = true → due 1 ((sizes p.tokens).drop i) = some 0
  -- The superior token is not in the middle of a container that has ended.
  closed : ∀ i t stop, p.tokens[i]? = some t → t.isContainer = true → t.stop = some stop →
    ∃ e, Shut p.tokens i stop e ∧ ∀ s, p.toksuper = some s → s < i ∨ e ≤ s + 1
  super : ∀ s, p.toksuper = some s →
    s < p.tokens.length ∧ ∀ i t, p.tokens[i]? = some t → t.isOpen = true → i ≤ s
  noSuper : p.toksuper = none → ∀ t ∈ p.tokens, t.isOpen = false

theorem JsmnTok.isOpen_eq_false_iff {t : JsmnTok} :
    t.isOpen = false ↔ ∃ stop, t.stop = some stop := by
  rw [JsmnTok.isOpen, Option.isNone_eq_false_iff, Option.isSome_iff_exists]

theorem nests_jsmnInit : jsmnInit.Nests := by
  constructor <;> simp [jsmnInit]

/-! ## Counting one more -/

/-- The token `t`, with one datum more if it is the superior token. -/
def JsmnTok.counted (toksuper : Option Nat) (k : Nat) (t : JsmnTok) : JsmnTok :=
  if toksuper = some k then { t with size := t.size + 1 } else t

section Counted

variable (toksuper : Option Nat) (k : Nat) (t : JsmnTok)

@[simp] theorem JsmnTok.counted_stop : (t.counted toksuper k).stop = t.stop := by
  unfold JsmnTok.counted; split_ifs <;> rfl

@[simp] theorem JsmnTok.counted_isOpen : (t.counted toksuper k).isOpen = t.isOpen := by
  unfold JsmnTok.counted; split_ifs <;> rfl

@[simp] theorem JsmnTok.counted_isContainer :
    (t.counted toksuper k).isContainer = t.isContainer := by
  unfold JsmnTok.counted; split_ifs <;> rfl

@[simp] theorem JsmnTok.counted_past : (t.counted toksuper k).past = t.past := by
  unfold JsmnTok.counted; split_ifs <;> rfl

@[simp] theorem JsmnTok.counted_start :
    jsonTokFullStart (t.counted toksuper k) = jsonTokFullStart t := by
  unfold JsmnTok.counted; split_ifs <;> rfl

end Counted

theorem getElem?_incSize (toksuper : Option Nat) (tokens : List JsmnTok) (k : Nat) :
    (incSize toksuper tokens)[k]? = (tokens[k]?).map (JsmnTok.counted toksuper k) := by
  cases found : tokens[k]? with
  | none =>
      have beyond := List.getElem?_eq_none_iff.mp found
      exact List.getElem?_eq_none (by rwa [incSize_length])
  | some t =>
      cases toksuper with
      | none => exact found
      | some s =>
          rw [incSize, List.getElem?_modify, found, Option.map_some, JsmnTok.counted]
          by_cases same : s = k
          · simp [same]
          · simp [same]

@[simp] theorem length_sizes (tokens : List JsmnTok) : (sizes tokens).length = tokens.length :=
  List.length_map _

theorem getElem?_sizes (tokens : List JsmnTok) (k : Nat) :
    (sizes tokens)[k]? = (tokens[k]?).map JsmnTok.size := List.getElem?_map

theorem sizes_append (front back : List JsmnTok) :
    sizes (front ++ back) = sizes front ++ sizes back := List.map_append

theorem sizes_incSize (s : Nat) (tokens : List JsmnTok) :
    sizes (incSize (some s) tokens) = (sizes tokens).modify s (· + 1) := by
  refine List.ext_getElem? fun k => ?_
  rw [List.getElem?_modify, getElem?_sizes, getElem?_sizes, getElem?_incSize]
  cases tokens[k]? with
  | none => rfl
  | some t =>
      by_cases same : s = k
      · simp [JsmnTok.counted, same]
      · simp [JsmnTok.counted, same]

theorem sizes_modify_stop (tokens : List JsmnTok) (i stop : Nat) :
    sizes (tokens.modify i fun t => { t with stop := some stop }) = sizes tokens := by
  refine List.ext_getElem? fun k => ?_
  rw [getElem?_sizes, getElem?_sizes, List.getElem?_modify]
  cases tokens[k]? with
  | none => rfl
  | some t => by_cases same : i = k <;> simp [same]

theorem getElem?_found {toksuper : Option Nat} {tokens : List JsmnTok} {new t' : JsmnTok} {k : Nat}
    (found : (incSize toksuper tokens ++ [new])[k]? = some t') :
    (∃ t, tokens[k]? = some t ∧ t' = t.counted toksuper k) ∨ k = tokens.length ∧ t' = new := by
  rcases Nat.lt_or_ge k tokens.length with old | late
  · rw [List.getElem?_append_left (by rwa [incSize_length]), getElem?_incSize] at found
    obtain ⟨t, there, same⟩ := Option.map_eq_some_iff.mp found
    exact .inl ⟨t, there, same.symm⟩
  · rw [List.getElem?_append_right (by rwa [incSize_length]), incSize_length] at found
    obtain ⟨here, same⟩ := List.getElem?_eq_some_iff.mp found
    rw [List.length_singleton] at here
    simp only [List.getElem_singleton] at same
    exact .inr ⟨by omega, same.symm⟩

/-! ## One container -/

namespace Shut

variable {tokens : List JsmnTok} {i stop e : Nat}

/-- A token found later leaves a container as it is, unless it is counted in the middle. -/
theorem found (shut : Shut tokens i stop e) {toksuper : Option Nat}
    (super : ∀ s, toksuper = some s → s < i ∨ e ≤ s + 1) {new : JsmnTok}
    (later : stop ≤ jsonTokFullStart new) :
    Shut (incSize toksuper tokens ++ [new]) i stop e := by
  have order := shut.order
  refine ⟨⟨order.1, ?_⟩, fun k t' front back there => ?_, fun k t' back there => ?_,
    fun t' there => ?_⟩
  · rw [List.length_append, incSize_length]
    omega
  · rcases getElem?_found there with ⟨t, old, rfl⟩ | ⟨rfl, -⟩
    · rw [JsmnTok.counted_stop]
      exact shut.inside k t front back old
    · omega
  · rcases getElem?_found there with ⟨t, old, rfl⟩ | ⟨-, rfl⟩
    · rw [JsmnTok.counted_start]
      exact shut.behind k t back old
    · exact later
  · rcases getElem?_found there with ⟨t, old, rfl⟩ | ⟨last, -⟩
    · rw [sizes_append, List.take_append_of_le_length (by rw [length_sizes, incSize_length]; omega)]
      have due := shut.due t old
      cases toksuper with
      | none => exact due
      | some s =>
          rw [sizes_incSize, due_window_modify (by rwa [length_sizes]) due (super s rfl)]
          by_cases last : s + 1 = e
          · have here : s = e - 1 := by omega
            rw [if_pos last, JsmnTok.counted, if_pos (congrArg some here)]
          · have elsewhere : some s ≠ some (e - 1) := fun eq => by cases eq; omega
            rw [if_neg last, JsmnTok.counted, if_neg elsewhere]
    · omega

/-- An open token stands in front of a container that has ended, or behind it. -/
theorem of_open (shut : Shut tokens i stop e) {c : JsmnTok} (here : tokens[i]? = some c)
    (ends : c.stop = some stop) {o : Nat} {t : JsmnTok} (there : tokens[o]? = some t)
    (opened : t.isOpen = true) : o < i ∨ e ≤ o := by
  by_contra within
  have closed : t.isOpen = false := by
    refine JsmnTok.isOpen_eq_false_iff.mpr ?_
    by_cases same : o = i
    · subst same
      cases here.symm.trans there
      exact ⟨stop, ends⟩
    · obtain ⟨inner, ends', -⟩ := shut.inside o t (by omega) (by omega) there
      exact ⟨inner, ends'⟩
  rw [closed] at opened
  cases opened

theorem ended (shut : Shut tokens i stop e) {o : Nat} (outside : o ≤ i ∨ e ≤ o)
    (pos : Nat) :
    Shut (tokens.modify o fun t => { t with stop := some pos }) i stop e := by
  have order := shut.order
  refine ⟨⟨order.1, by rw [List.length_modify]; exact order.2⟩, fun k t' front back there => ?_,
    fun k t' back there => ?_, fun t' there => ?_⟩
  · rw [List.getElem?_modify_ne _ _ (by omega)] at there
    exact shut.inside k t' front back there
  · by_cases same : o = k
    · subst same
      rw [List.getElem?_modify_eq] at there
      obtain ⟨t, old, rfl⟩ := Option.map_eq_some_iff.mp there
      exact shut.behind o t back old
    · rw [List.getElem?_modify_ne _ _ same] at there
      exact shut.behind k t' back there
  · rw [sizes_modify_stop]
    by_cases same : o = e - 1
    · subst same
      rw [List.getElem?_modify_eq] at there
      obtain ⟨t, old, rfl⟩ := Option.map_eq_some_iff.mp there
      exact shut.due t old
    · rw [List.getElem?_modify_ne _ _ same] at there
      exact shut.due t' there

end Shut

/-! ## The container opened last -/

/-- The last token that is still open stands at `o`. -/
structure LastOpen (tokens : List JsmnTok) (o : Nat) : Prop where
  here : ∃ t, tokens[o]? = some t ∧ t.isOpen = true
  last : ∀ k t, o < k → tokens[k]? = some t → t.isOpen = false

theorem lastIdx_none {α : Type} {p : α → Bool} {as : List α} (none : lastIdx p as = none) :
    ∀ a ∈ as, p a = false := by
  induction as with
  | nil => simp
  | cons a as ih =>
      rw [lastIdx] at none
      split at none
      · cases none
      · next later =>
          split_ifs at none with holds
          exact List.forall_mem_cons.mpr ⟨Bool.eq_false_iff.mpr holds, ih later⟩

theorem lastIdx_last {α : Type} {p : α → Bool} {as : List α} {i : Nat}
    (last : lastIdx p as = some i) : ∀ (k : Nat) (a : α), i < k → as[k]? = some a → p a = false := by
  induction as generalizing i with
  | nil => cases last
  | cons a as ih =>
      intro k b further found
      obtain ⟨k, rfl⟩ := Nat.exists_eq_succ_of_ne_zero (Nat.ne_of_gt (Nat.zero_lt_of_lt further))
      rw [List.getElem?_cons_succ] at found
      rw [lastIdx] at last
      split at last
      · next j later =>
          cases last
          exact ih later k b (Nat.lt_of_succ_lt_succ further) found
      · next later => exact lastIdx_none later b (List.mem_of_getElem? found)

theorem le_of_lastIdx {α : Type} {p : α → Bool} {as : List α} {i k : Nat} {a : α}
    (last : lastIdx p as = some i) (found : as[k]? = some a) (holds : p a = true) : k ≤ i := by
  by_contra later
  have fails := lastIdx_last last k a (Nat.lt_of_not_le later) found
  rw [holds] at fails
  cases fails

theorem LastOpen.le {tokens : List JsmnTok} {o k : Nat} {t : JsmnTok} (last : LastOpen tokens o)
    (found : tokens[k]? = some t) (opened : t.isOpen = true) : k ≤ o := by
  by_contra later
  have closed := last.last k t (Nat.lt_of_not_le later) found
  rw [opened] at closed
  cases closed

theorem lastOpen_of_lastIdx {tokens : List JsmnTok} {o : Nat}
    (last : lastIdx JsmnTok.isOpen tokens = some o) : LastOpen tokens o :=
  ⟨lastIdx_some last, lastIdx_last last⟩

theorem getElem?_ended {tokens : List JsmnTok} {o pos k : Nat} {t' : JsmnTok}
    (found : (tokens.modify o fun t => { t with stop := some pos })[k]? = some t') :
    (k = o ∧ ∃ t, tokens[o]? = some t ∧ t' = { t with stop := some pos }) ∨
      k ≠ o ∧ tokens[k]? = some t' := by
  by_cases same : o = k
  · subst same
    rw [List.getElem?_modify_eq] at found
    obtain ⟨t, old, rfl⟩ := Option.map_eq_some_iff.mp found
    exact .inl ⟨rfl, t, old, rfl⟩
  · rw [List.getElem?_modify_ne _ _ same] at found
    exact .inr ⟨Ne.symm same, found⟩

/-! ## All containers -/

theorem JsmnTok.Placed.mono {pos pos' : Nat} {t : JsmnTok} (placed : t.Placed pos)
    (further : pos ≤ pos') : t.Placed pos' := by
  refine ⟨placed.starts, le_trans placed.read further, fun stop ends => ?_, placed.opened⟩
  obtain ⟨past, read, container⟩ := placed.ends stop ends
  exact ⟨past, le_trans read further, container⟩

theorem JsmnTok.ne_string_of_container {t : JsmnTok} (container : t.isContainer = true) :
    t.type ≠ .string := fun type => by
  rw [JsmnTok.isContainer, type] at container
  cases container

theorem jsonTokFullStart_of_container {t : JsmnTok} (container : t.isContainer = true) :
    jsonTokFullStart t = t.start := if_neg (JsmnTok.ne_string_of_container container)

theorem JsmnTok.past_of_container {t t' : JsmnTok} (container : t.isContainer = true)
    (type : t'.type = t.type) (start : t'.start = t.start) : t'.past = t.past := by
  have container' : t'.isContainer = true := by rwa [JsmnTok.isContainer, type]
  rw [JsmnTok.past, JsmnTok.past, if_pos container, if_pos container', start]

theorem JsmnTok.Placed.ended {pos : Nat} {t : JsmnTok} (placed : t.Placed pos)
    (container : t.isContainer = true) :
    JsmnTok.Placed (pos + 1) { t with stop := some (pos + 1) } := by
  have past : JsmnTok.past { t with stop := some (pos + 1) } = t.past :=
    JsmnTok.past_of_container container rfl rfl
  have read := placed.read
  refine ⟨?_, ?_, fun stop ends => ?_, fun opened => ?_⟩
  · rw [past]
    exact placed.starts
  · rw [past]
    omega
  · cases ends
    rw [past]
    exact ⟨by omega, le_rfl, fun _ => by omega⟩
  · cases opened

theorem placed_leaf {type : JsmnType} {start stop pos : Nat}
    (leaf : (type == .array || type == .object) = false)
    (starts : jsonTokFullStart ⟨type, start, some stop, 0⟩ < stop) (read : stop ≤ pos) :
    JsmnTok.Placed pos ⟨type, start, some stop, 0⟩ := by
  have container : JsmnTok.isContainer ⟨type, start, some stop, 0⟩ = false := leaf
  have past : JsmnTok.past ⟨type, start, some stop, 0⟩ = stop := by
    rw [JsmnTok.past, container]
    rfl
  refine ⟨?_, ?_, fun stop' ends => ?_, fun opened => by cases opened⟩
  · rwa [past]
  · rwa [past]
  · cases ends
    rw [past, container]
    exact ⟨le_rfl, read, fun container => by cases container⟩

theorem JsmnTok.Placed.counted {pos : Nat} {t : JsmnTok} (placed : t.Placed pos)
    (toksuper : Option Nat) (k : Nat) : (t.counted toksuper k).Placed pos := by
  refine ⟨?_, ?_, ?_, ?_⟩
  · simpa using placed.starts
  · simpa using placed.read
  · simpa using placed.ends
  · simpa using placed.opened

namespace JsmnParser.Nests

variable {p : JsmnParser}

/-- A container ends behind the characters of all that was found in it, its bracket included. -/
theorem past_lt (nests : p.Nests) {i stop e : Nat} {t : JsmnTok} (shut : Shut p.tokens i stop e)
    (here : p.tokens[i]? = some t) (container : t.isContainer = true) (ends : t.stop = some stop)
    {k : Nat} {u : JsmnTok} (between : i ≤ k ∧ k < e) (there : p.tokens[k]? = some u) :
    u.past < stop := by
  by_cases itself : k = i
  · subst itself
    cases here.symm.trans there
    exact ((nests.placed t (List.mem_of_getElem? here)).ends stop ends).2.2 container
  · obtain ⟨inner, ends', less⟩ := shut.inside k u (by omega) between.2 there
    exact lt_of_le_of_lt ((nests.placed u (List.mem_of_getElem? there)).ends inner ends').1 less

theorem found (nests : p.Nests) {new : JsmnTok} {next : Nat} {super' : Option Nat}
    (empty : new.size = 0) (placed : new.Placed next) (later : p.pos ≤ jsonTokFullStart new)
    (kind : new.isOpen = new.isContainer)
    (super : super' = if new.isOpen then some p.tokens.length else p.toksuper) :
    JsmnParser.Nests ⟨next, super', incSize p.toksuper p.tokens ++ [new]⟩ := by
  have further : p.pos ≤ next := by
    have := placed.starts
    have := placed.read
    omega
  refine ⟨?_, ?_, ?_, ?_, ?_, ?_, ?_⟩
  · intro t' member
    obtain ⟨k, there⟩ := List.mem_iff_getElem?.mp member
    rcases getElem?_found there with ⟨t, old, rfl⟩ | ⟨-, rfl⟩
    · exact ((nests.placed t (List.mem_of_getElem? old)).mono further).counted _ _
    · exact placed
  · intro k l t' u' less there there'
    rcases getElem?_found there with ⟨t, old, rfl⟩ | ⟨rfl, -⟩
    · rw [JsmnTok.counted_past]
      rcases getElem?_found there' with ⟨u, old', rfl⟩ | ⟨-, rfl⟩
      · rw [JsmnTok.counted_start]
        exact nests.order k l t u less old old'
      · exact le_trans (nests.placed t (List.mem_of_getElem? old)).read later
    · have := (List.getElem?_eq_some_iff.mp there').1
      simp only [List.length_append, incSize_length, List.length_singleton] at this
      omega
  · intro t' last
    simp only [List.getLast?_append, List.getLast?_singleton, Option.some_or,
      Option.some.injEq] at last
    rw [← last, empty]
  · intro i t' there opened
    rcases getElem?_found there with ⟨t, old, rfl⟩ | ⟨rfl, -⟩
    · rw [JsmnTok.counted_isOpen] at opened
      have inside := (List.getElem?_eq_some_iff.mp old).1
      have due := nests.opened i t old opened
      cases held : p.toksuper with
      | none =>
          have shut := nests.noSuper held t (List.mem_of_getElem? old)
          rw [opened] at shut
          cases shut
      | some s =>
          obtain ⟨bound, front⟩ := nests.super s held
          have front := front i t old opened
          have more := due_modify (i := s - i) due (by
            rw [List.length_drop, length_sizes]
            omega)
          rw [sizes_append, List.drop_append_of_le_length (by simp; omega), sizes_incSize,
            List.drop_modify_of_ge _ _ _ _ front, due_append, more, sizes, List.map_singleton,
            empty]
          rfl
    · rw [sizes_append, List.drop_left' (by simp), sizes, List.map_singleton, empty]
      rfl
  · intro i t' stop there container ends
    rcases getElem?_found there with ⟨t, old, rfl⟩ | ⟨-, rfl⟩
    · rw [JsmnTok.counted_isContainer] at container
      rw [JsmnTok.counted_stop] at ends
      obtain ⟨e, shut, outside⟩ := nests.closed i t stop old container ends
      have read := ((nests.placed t (List.mem_of_getElem? old)).ends stop ends).2.1
      refine ⟨e, shut.found outside (le_trans read later), fun s here => ?_⟩
      dsimp only at here
      rw [super] at here
      split_ifs at here
      · cases here
        exact .inr (Nat.le_succ_of_le shut.order.2)
      · exact outside s here
    · rw [JsmnTok.isOpen, ends, container] at kind
      cases kind
  · intro s here
    dsimp only at here ⊢
    rw [super] at here
    rw [List.length_append, incSize_length, List.length_singleton]
    split_ifs at here with opens
    · cases here
      refine ⟨Nat.lt_succ_self _, fun i t' there _ => ?_⟩
      have := (List.getElem?_eq_some_iff.mp there).1
      simp only [List.length_append, incSize_length, List.length_singleton] at this
      omega
    · obtain ⟨bound, front⟩ := nests.super s here
      refine ⟨Nat.lt_succ_of_lt bound, fun i t' there opened => ?_⟩
      rcases getElem?_found there with ⟨t, old, rfl⟩ | ⟨-, rfl⟩
      · rw [JsmnTok.counted_isOpen] at opened
        exact front i t old opened
      · exact absurd opened opens
  · intro here t' member
    dsimp only at here
    rw [super] at here
    obtain ⟨k, there⟩ := List.mem_iff_getElem?.mp member
    split_ifs at here with opens
    rcases getElem?_found there with ⟨t, old, rfl⟩ | ⟨-, rfl⟩
    · rw [JsmnTok.counted_isOpen]
      exact nests.noSuper here t (List.mem_of_getElem? old)
    · exact Bool.eq_false_iff.mpr opens

/-- The tokenizer reads on, and another token may become the superior one. -/
theorem moved (nests : p.Nests) {next : Nat} {super' : Option Nat} (further : p.pos ≤ next)
    (super : super' = p.toksuper ∨
      ∃ s, super' = some s ∧ (s + 1 = p.tokens.length ∨ LastOpen p.tokens s)) :
    JsmnParser.Nests ⟨next, super', p.tokens⟩ := by
  refine ⟨fun t member => (nests.placed t member).mono further, nests.order, nests.last,
    nests.opened, fun i t stop there container ends => ?_, fun s here => ?_, fun here => ?_⟩
  · obtain ⟨e, shut, outside⟩ := nests.closed i t stop there container ends
    refine ⟨e, shut, fun s here => ?_⟩
    rcases super with same | ⟨s', same, final | last⟩
    · exact outside s (same ▸ here)
    · cases same.symm.trans here
      have := shut.order.2
      omega
    · cases same.symm.trans here
      obtain ⟨u, found, opened⟩ := last.here
      have := shut.of_open there ends found opened
      omega
  · rcases super with same | ⟨s', same, final | last⟩
    · exact nests.super s (same ▸ here)
    · cases same.symm.trans here
      refine ⟨by dsimp only; omega, fun i t there _ => ?_⟩
      have := (List.getElem?_eq_some_iff.mp there).1
      dsimp only at this
      omega
    · cases same.symm.trans here
      obtain ⟨u, found, -⟩ := last.here
      exact ⟨(List.getElem?_eq_some_iff.mp found).1, fun i t there opened => last.le there opened⟩
  · rcases super with same | ⟨s', same, -⟩
    · exact nests.noSuper (same ▸ here)
    · cases same.symm.trans here

/-- A closing bracket ends the container opened last, around all that was found in it. -/
theorem ended (nests : p.Nests) {o : Nat} (last : LastOpen p.tokens o) :
    JsmnParser.Nests ⟨p.pos + 1, lastIdx JsmnTok.isOpen (p.tokens.take o),
      p.tokens.modify o fun t => { t with stop := some (p.pos + 1) }⟩ := by
  obtain ⟨c, here, opened⟩ := last.here
  have bound := (List.getElem?_eq_some_iff.mp here).1
  have container := (nests.placed c (List.mem_of_getElem? here)).opened opened
  have outer : ∀ s, lastIdx JsmnTok.isOpen (p.tokens.take o) = some s →
      s < o ∧ ∃ t, p.tokens[s]? = some t ∧ t.isOpen = true := by
    intro s found
    obtain ⟨t, there, opens⟩ := lastIdx_some found
    rw [List.getElem?_take] at there
    split_ifs at there with less
    exact ⟨less, t, there, opens⟩
  have front : ∀ k t, k ≠ o → p.tokens[k]? = some t → t.isOpen = true → k < o := by
    intro k t other there opens
    exact lt_of_le_of_ne (last.le there opens) other
  have empty : ∀ t', (p.tokens.modify o fun t => { t with stop := some (p.pos + 1) })[
      p.tokens.length - 1]? = some t' → t'.size = 0 := by
    intro t' there
    rcases getElem?_ended there with ⟨same, t, old, rfl⟩ | ⟨-, old⟩
    · rw [← same] at old
      exact nests.last t (by rw [List.getLast?_eq_getElem?, old])
    · exact nests.last t' (by rw [List.getLast?_eq_getElem?, old])
  refine ⟨?_, ?_, ?_, ?_, ?_, ?_, ?_⟩
  · intro t' member
    obtain ⟨k, there⟩ := List.mem_iff_getElem?.mp member
    rcases getElem?_ended there with ⟨rfl, t, old, rfl⟩ | ⟨-, old⟩
    · cases here.symm.trans old
      exact (nests.placed c (List.mem_of_getElem? here)).ended container
    · exact (nests.placed t' (List.mem_of_getElem? old)).mono (Nat.le_succ _)
  · intro k l t' u' less there there'
    have starts : ∃ u, p.tokens[l]? = some u ∧ jsonTokFullStart u' = jsonTokFullStart u := by
      rcases getElem?_ended there' with ⟨rfl, u, old, rfl⟩ | ⟨-, old⟩
      · exact ⟨u, old, rfl⟩
      · exact ⟨u', old, rfl⟩
    obtain ⟨u, old, same⟩ := starts
    rw [same]
    rcases getElem?_ended there with ⟨rfl, t, old', rfl⟩ | ⟨-, old'⟩
    · cases here.symm.trans old'
      have past : JsmnTok.past { c with stop := some (p.pos + 1) } = c.past :=
        JsmnTok.past_of_container container rfl rfl
      rw [past]
      exact nests.order _ l c u less here old
    · exact nests.order k l t' u less old' old
  · intro t' final
    rw [List.getLast?_eq_getElem?, List.length_modify] at final
    exact empty t' final
  · intro i t' there opens
    rcases getElem?_ended there with ⟨-, t, -, rfl⟩ | ⟨-, old⟩
    · cases opens
    · rw [sizes_modify_stop]
      exact nests.opened i t' old opens
  · intro i t' stop there container' ends
    rcases getElem?_ended there with ⟨rfl, t, -, rfl⟩ | ⟨other, old⟩
    · cases ends
      refine ⟨p.tokens.length, ⟨⟨bound, by rw [List.length_modify]⟩, fun k t' front _ there => ?_,
        fun k t' back there => ?_, fun t' there => ?_⟩, fun s found => .inl (outer s found).1⟩
      · rcases getElem?_ended there with ⟨rfl, -⟩ | ⟨-, old⟩
        · exact absurd front (lt_irrefl _)
        · obtain ⟨stop, inner⟩ := JsmnTok.isOpen_eq_false_iff.mp (last.last k t' front old)
          have read := ((nests.placed t' (List.mem_of_getElem? old)).ends stop inner).2.1
          exact ⟨stop, inner, Nat.lt_succ_of_le read⟩
      · have := (List.getElem?_eq_some_iff.mp there).1
        rw [List.length_modify] at this
        omega
      · have all : (sizes p.tokens).take p.tokens.length = sizes p.tokens :=
          List.take_of_length_le (by rw [length_sizes])
        rw [sizes_modify_stop, all, empty t' there]
        exact nests.opened _ c here opened
    · obtain ⟨e, shut, -⟩ := nests.closed i t' stop old container' ends
      have outside := shut.of_open old ends here opened
      refine ⟨e, shut.ended (by omega) _, fun s found => ?_⟩
      obtain ⟨-, u, old', opens⟩ := outer s found
      have := shut.of_open old ends old' opens
      omega
  · intro s found
    obtain ⟨less, -⟩ := outer s found
    refine ⟨by rw [List.length_modify]; omega, fun i t' there opens => ?_⟩
    rcases getElem?_ended there with ⟨-, t, -, rfl⟩ | ⟨other, old⟩
    · cases opens
    · have before := front i t' other old opens
      exact le_of_lastIdx found ((List.getElem?_take_of_lt before).trans old) opens
  · intro none t' member
    obtain ⟨k, there⟩ := List.mem_iff_getElem?.mp member
    rcases getElem?_ended there with ⟨-, t, -, rfl⟩ | ⟨other, old⟩
    · rfl
    · by_contra opens
      rw [Bool.not_eq_false] at opens
      have before := front k t' other old opens
      have shut := lastIdx_none none t'
        (List.mem_of_getElem? ((List.getElem?_take_of_lt before).trans old))
      rw [opens] at shut
      cases shut

theorem turn (nests : p.Nests) {p' : JsmnParser} {text : Text} {n : Nat}
    (turn : JsmnTurn p text p' n) : p'.Nests := by
  cases turn with
  | @opens c type rest bracket =>
      have container : JsmnTok.isContainer ⟨type, p.pos, none, 0⟩ = true := by
        rcases bracket with ⟨-, rfl⟩ | ⟨-, rfl⟩ <;> rfl
      have starts := jsonTokFullStart_of_container container
      have past : JsmnTok.past ⟨type, p.pos, none, 0⟩ = p.pos + 1 := if_pos container
      refine nests.found rfl ⟨?_, ?_, fun stop ends => ?_, fun _ => container⟩ (le_of_eq starts.symm)
        container.symm rfl
      · rw [starts, past]
        exact Nat.lt_succ_self _
      · rw [past]
      · cases ends
  | closes bracket close =>
      obtain ⟨o, t, last, -, -, rfl⟩ := jsmnClose_ok close
      exact nests.ended (lastOpen_of_lastIdx last)
  | @string rest n scanned =>
      exact nests.found rfl (placed_leaf rfl (by simp only [jsonTokFullStart, if_true]; omega)
        (by omega)) le_rfl rfl rfl
  | blank => exact nests.moved (Nat.le_succ _) (.inl rfl)
  | colon =>
      refine nests.moved (Nat.le_succ _) ?_
      split_ifs with none
      · left
        cases held : p.toksuper with
        | none => rfl
        | some s =>
            have := (nests.super s held).1
            omega
      · exact .inr ⟨_, rfl, .inl (by omega)⟩
  | comma =>
      refine nests.moved (Nat.le_succ _) ?_
      split
      · next held => exact .inl held.symm
      · next i held =>
          split_ifs with container
          · exact .inl held.symm
          · cases last : lastIdx (fun t => t.isContainer && t.isOpen) p.tokens with
            | none => exact .inl held.symm
            | some o =>
                refine .inr ⟨o, rfl, .inr ⟨?_, fun k t further there => ?_⟩⟩
                · obtain ⟨t, there, holds⟩ := lastIdx_some last
                  exact ⟨t, there, (Bool.and_eq_true_iff.mp holds).2⟩
                · have other := lastIdx_last last k t further there
                  by_contra opens
                  rw [Bool.not_eq_false] at opens
                  have container := (nests.placed t (List.mem_of_getElem? there)).opened opens
                  rw [container, opens] at other
                  cases other
  | @primitive c rest n starts scanned positive =>
      have starts : jsonTokFullStart ⟨.primitive, p.pos, some (p.pos + n), 0⟩ = p.pos := rfl
      exact nests.found rfl (placed_leaf rfl (by rw [starts]; omega) le_rfl) (le_of_eq starts.symm)
        rfl rfl

end JsmnParser.Nests

theorem Resumes.nests {p : JsmnParser} {input : Text} (resumes : Resumes p input) : p.Nests := by
  induction resumes with
  | init => exact nests_jsmnInit
  | more arrived before parsed ih =>
      rw [jsonParseInput_incomplete parsed]
      exact jsmnParse_keeps (fun nests turn => nests.turn turn) ih

end Payz
