import Payz.Ecs.Cells
import Payz.Json.Brackets
import Payz.Json.Values

/-! # What `ec_cell_new` copies

A cell gets the text of a datum and the tokens that `json_next` steps over.  The two agree
as long as these tokens lie in that text, and they do unless the tokenizer went on counting
in a container that had ended.
-/

namespace Payz

open Arity

/-- A token of the copy: the same token, moved to the front by `offset`, which lies in the
    copied text and delimits the text it did before. -/
structure CopiedTok (input buffer : Text) (offset : Nat) (t c : JsmnTok) : Prop where
  type : c.type = t.type
  size : c.size = t.size
  start : (c.start : Int) = t.start - offset
  stop : ∃ stop stop', t.stop = some stop ∧ c.stop = some stop' ∧ (stop' : Int) = stop - offset ∧
    c.start ≤ stop' ∧ stop' ≤ buffer.length
  text : tokText buffer c = tokText input t

/-- A cell holds the text of the datum at `t` and copies of its tokens. -/
def CopiesDatum (input : Text) (t : JsmnTok) (more : List JsmnTok) (cell : EcCellTok) : Prop :=
  ∃ fuel j sub rest, validateJsmnDatum fuel input (t :: more) = some (j, rest) ∧
    t :: more = sub ++ rest ∧ cell.buffer = j.jsonTokFull ∧
    List.Forall₂ (CopiedTok input cell.buffer (jsonTokFullStart t)) sub cell.tok

/-- The text between the characters of a token's own and the next token. -/
def gap (input : Text) (t t' : JsmnTok) : Text :=
  (input.drop t.past).take (jsonTokFullStart t' - t.past)

/-- A token that counts others has them directly behind it: no container ends in between. -/
def CountsInside (input : Text) (toks : List JsmnTok) : Prop :=
  toks.IsChain fun t t' => t.size ≠ 0 → ∀ c ∈ gap input t t', ¬ IsClosing c

-- Over the text, and not over all characters there are.
instance (text : Text) : Decidable (∀ c ∈ text, ¬ IsClosing c) := List.decidableBAll _ text

instance (input : Text) (toks : List JsmnTok) : Decidable (CountsInside input toks) :=
  inferInstanceAs (Decidable (toks.IsChain _))

theorem mem_gap {input : Text} {t t' : JsmnTok} {c : Char} :
    c ∈ gap input t t' ↔ ∃ q, t.past ≤ q ∧ q < jsonTokFullStart t' ∧ input[q]? = some c := by
  rw [gap, List.mem_iff_getElem?]
  constructor
  · rintro ⟨k, found⟩
    rw [List.getElem?_take] at found
    split_ifs at found with less
    rw [List.getElem?_drop] at found
    exact ⟨t.past + k, Nat.le_add_right _ _, by omega, found⟩
  · rintro ⟨q, past, before, found⟩
    refine ⟨q - t.past, ?_⟩
    rw [List.getElem?_take_of_lt (by omega), List.getElem?_drop, Nat.add_sub_of_le past, found]

/-! ## One token of the copy -/

theorem jsonTokFullStart_le (t : JsmnTok) : jsonTokFullStart t ≤ t.start := by
  unfold jsonTokFullStart
  split_ifs
  · exact Nat.sub_le _ _
  · exact le_rfl

theorem length_tokTextFull {input : Text} {t : JsmnTok} {stop : Nat} (worded : t.Worded input)
    (ranged : t.Ranged input.length) (ends : t.stop = some stop) :
    (t.type = .string → t.start ≤ stop ∧ 0 < t.start ∧
      (tokTextFull input t).length = stop - t.start + 2) ∧
    (t.type ≠ .string → (tokTextFull input t).length = stop - t.start) := by
  have length := length_tokText ranged
  rw [ends, Option.getD_some] at length
  constructor
  · intro type
    obtain ⟨behind, full⟩ := worded.quoted type
    refine ⟨(ranged.stop stop ends).1, behind, ?_⟩
    rw [full, List.length_cons, List.length_append, length]
    rfl
  · intro type
    rw [tokTextFull, jsonTokFullStart, jsonTokFullLen, if_neg type, if_neg type]
    exact length

theorem exists_copied {input buffer : Text} {offset : Nat} {sub copy : List JsmnTok}
    (copied : List.Forall₂ (CopiedTok input buffer offset) sub copy) {t : JsmnTok}
    (member : t ∈ sub) : ∃ c ∈ copy, CopiedTok input buffer offset t c := by
  induction copied with
  | nil => cases member
  | @cons t' c sub copy first _ ih =>
      rcases List.mem_cons.mp member with rfl | member
      · exact ⟨c, List.mem_cons_self, first⟩
      · obtain ⟨c', there, found⟩ := ih member
        exact ⟨c', List.mem_cons_of_mem c there, found⟩

theorem copiedTok_rebase {input : Text} {t u : JsmnTok} {stop : Nat} (ends : u.stop = some stop)
    (starts : jsonTokFullStart t ≤ u.start) (order : u.start ≤ stop)
    (within : stop ≤ jsonTokFullStart t + (tokTextFull input t).length) :
    CopiedTok input (tokTextFull input t) (jsonTokFullStart t) u (u.rebase (jsonTokFullStart t)) := by
  refine ⟨rfl, rfl, ?_, ⟨stop, stop - jsonTokFullStart t, ends, ?_, ?_, ?_, ?_⟩, ?_⟩
  · simp only [JsmnTok.rebase]
    omega
  · rw [JsmnTok.rebase, ends, Option.map_some]
  · omega
  · simp only [JsmnTok.rebase]
    omega
  · omega
  · have room : (tokTextFull input t).length ≤ jsonTokFullLen t := by
      rw [tokTextFull, List.length_take]
      exact min_le_left _ _
    have width : stop - jsonTokFullStart t - (u.start - jsonTokFullStart t) = stop - u.start := by
      omega
    have all : min (stop - u.start) (jsonTokFullLen t - (u.start - jsonTokFullStart t)) =
        stop - u.start := by
      omega
    simp only [tokText, JsmnTok.rebase, ends, Option.map_some, Option.getD_some]
    rw [width, tokTextFull, List.drop_take, List.take_take, List.drop_drop,
      Nat.add_sub_of_le starts, all]

/-! ## The tokens of a container -/

/-- The tokens `json_next` steps over reach beyond those found in the container exactly if
    the last of these counts another one. -/
theorem Shut.subtree {tokens sub after : List JsmnTok} {i stop e : Nat} {t : JsmnTok}
    (shut : Shut tokens i stop e) (split : tokens.drop i = sub ++ after)
    (one : Arity.due 1 (sizes sub) = some 0) (last : tokens[e - 1]? = some t) :
    e < i + sub.length ↔ t.size ≠ 0 := by
  have order := shut.order
  have due := shut.due t last
  have window : ((sizes tokens).take e).drop i = sizes ((sub ++ after).take (e - i)) := by
    rw [List.drop_take, sizes, ← List.map_drop, split, ← List.map_take]
    rfl
  rw [window] at due
  constructor
  · intro further empty
    rw [List.take_append_of_le_length (by omega), empty] at due
    have all : sizes sub = sizes (sub.take (e - i)) ++ sizes (sub.drop (e - i)) := by
      rw [← sizes_append, List.take_append_drop]
    rw [all] at one
    have none := due_zero_append due (by rw [one]; simp)
    have length := congrArg List.length none
    rw [length_sizes, List.length_drop, List.length_nil] at length
    omega
  · intro counts
    by_contra within
    rw [List.take_append, List.take_of_length_le (by omega), sizes_append, due_append, one,
      Option.bind_some] at due
    cases rest : sizes (after.take (e - i - sub.length)) with
    | nil =>
        rw [rest] at due
        exact counts (Option.some.inj due).symm
    | cons a as =>
        rw [rest] at due
        cases due

theorem jsonParseInput_root_closed {p : JsmnParser} {input : Text} {j : Json}
    {toks : List JsmnTok} (parsed : jsonParseInput p input = .complete j toks) {root : JsmnTok}
    (first : toks[0]? = some root) : root.isOpen = false := by
  unfold jsonParseInput at parsed
  split at parsed
  · cases parsed
  · next q e notInval run =>
      split at parsed
      · cases parsed
      · next root' rest tokens =>
          split_ifs at parsed with opened
          dsimp only at parsed
          split at parsed
          · cases parsed
            rw [List.getElem?_take] at first
            split_ifs at first
            cases first
            exact Bool.eq_false_iff.mpr opened
          · cases parsed

/-- What the tokenizer knows of tokens that are accepted. -/
structure Found (input : Text) (toks : List JsmnTok) (p : JsmnParser) : Prop where
  reading : p.Reading input
  nests : p.Nests
  bracketed : p.Bracketed input
  split : ∃ extra, p.tokens = toks ++ extra
  root : ∀ root, toks[0]? = some root → root.isOpen = false
  worded : ∀ t ∈ toks, t.Worded input

theorem Accepted.found {input : Text} {j : Json} {toks : List JsmnTok}
    (accepted : Accepted input j toks) : ∃ p, Found input toks p := by
  obtain ⟨p, resumes, parsed⟩ := id accepted
  obtain ⟨⟨n, cut⟩, -⟩ := jsonParseInput_complete parsed
  refine ⟨(jsmnParse p input).1, resumes.reading.jsmnParse, ?_, ?_, ?_, ?_, accepted.worded⟩
  · exact jsmnParse_keeps (fun nests turn => nests.turn turn) resumes.nests
  · exact jsmnParse_keeps (fun bracketed turn => bracketed.turn turn) resumes.bracketed
  · exact ⟨_, by rw [cut, List.take_append_drop]⟩
  · exact fun root first => jsonParseInput_root_closed parsed first

theorem countsInside_iff {input : Text} {toks : List JsmnTok} :
    CountsInside input toks ↔ ∀ (k : Nat) (t t' : JsmnTok), toks[k]? = some t →
      toks[k + 1]? = some t' → t.size ≠ 0 → ∀ c ∈ gap input t t', ¬ IsClosing c := by
  rw [CountsInside, List.isChain_iff_getElem]
  constructor
  · intro chain k t t' here next
    obtain ⟨_, rfl⟩ := List.getElem?_eq_some_iff.mp here
    obtain ⟨bound, rfl⟩ := List.getElem?_eq_some_iff.mp next
    exact chain k bound
  · intro each k bound
    exact each k _ _ (List.getElem?_eq_getElem (Nat.lt_of_succ_lt bound))
      (List.getElem?_eq_getElem bound)

theorem rest_of_leaf {t : JsmnTok} {more rest : List JsmnTok} {fuel : Nat} {input : Text} {j : Json}
    (leaf : ¬ t.isContainer = true)
    (valid : validateJsmnDatum fuel input (t :: more) = some (j, rest)) : rest = more := by
  obtain ⟨fuel, datum⟩ := datumRead_cons valid
  cases datum with
  | string | primitive => rfl
  | array type | object type => exact absurd (by rw [JsmnTok.isContainer, type]; rfl) leaf

namespace Found

variable {input : Text} {toks : List JsmnTok} {p : JsmnParser}

theorem getElem?_tokens (found : Found input toks p) {k : Nat} {t : JsmnTok}
    (here : toks[k]? = some t) : p.tokens[k]? = some t := by
  obtain ⟨extra, split⟩ := found.split
  rw [split, List.getElem?_append_left (List.getElem?_eq_some_iff.mp here).1, here]

theorem mem_tokens (found : Found input toks p) {t : JsmnTok} (member : t ∈ toks) :
    t ∈ p.tokens := by
  obtain ⟨k, here⟩ := List.mem_iff_getElem?.mp member
  exact List.mem_of_getElem? (found.getElem?_tokens here)

theorem placed (found : Found input toks p) {t : JsmnTok} (member : t ∈ toks) : t.Placed p.pos :=
  found.nests.placed t (found.mem_tokens member)

theorem ranged (found : Found input toks p) {t : JsmnTok} (member : t ∈ toks) :
    t.Ranged input.length :=
  (found.reading.tokens t (found.mem_tokens member)).mono found.reading.bound

/-- What `json_next` steps over in a container lies inside it, if no token counts what was
    found behind the container. -/
theorem inside (found : Found input toks p) (counts : CountsInside input toks)
    {front inner rest : List JsmnTok} {t : JsmnTok} (split : toks = front ++ (t :: inner ++ rest))
    (one : due 1 (sizes (t :: inner)) = some 0) (container : t.isContainer = true) {stop : Nat}
    (ends : t.stop = some stop) :
    ∀ u ∈ inner, ∃ stop', u.stop = some stop' ∧ stop' < stop ∧ t.past ≤ jsonTokFullStart u := by
  obtain ⟨extra, tokens⟩ := found.split
  have behind : p.tokens.drop front.length = (t :: inner) ++ (rest ++ extra) := by
    rw [tokens, split, List.append_assoc, List.drop_left, List.append_assoc]
  have window : ∀ k, p.tokens[front.length + k]? = (t :: inner ++ (rest ++ extra))[k]? := by
    intro k
    rw [← behind, List.getElem?_drop]
  have here : p.tokens[front.length]? = some t := window 0
  obtain ⟨e, shut, -⟩ := found.nests.closed _ t stop here container ends
  have order := shut.order
  have reaches : front.length + (t :: inner).length ≤ e := by
    by_contra beyond
    have bound : e < toks.length := by
      rw [split, List.length_append, List.length_append]
      omega
    have last : toks[e - 1]? = some toks[e - 1] := List.getElem?_eq_getElem (by omega)
    have next : toks[e - 1 + 1]? = some toks[e] := by
      rw [Nat.sub_add_cancel (by omega)]
      exact List.getElem?_eq_getElem bound
    have size := (shut.subtree behind one (found.getElem?_tokens last)).mp (by omega)
    obtain ⟨q, c, rfl, there, closing⟩ :=
      found.bracketed.ends t (List.mem_of_getElem? here) container stop ends
    have past := found.nests.past_lt shut here container ends (by omega)
      (found.getElem?_tokens last)
    have before := shut.behind e _ le_rfl (found.getElem?_tokens (List.getElem?_eq_getElem bound))
    exact countsInside_iff.mp counts _ _ _ last next size c
      (mem_gap.mpr ⟨q, Nat.le_of_lt_succ past, before, there⟩) closing
  intro u member
  obtain ⟨k, within⟩ := List.mem_iff_getElem?.mp member
  have bound := (List.getElem?_eq_some_iff.mp within).1
  have there : p.tokens[front.length + (k + 1)]? = some u := by
    rw [window, List.getElem?_append_left (by rw [List.length_cons]; omega), List.getElem?_cons_succ,
      within]
  rw [List.length_cons] at reaches
  obtain ⟨stop', ends', less⟩ := shut.inside _ u (by omega) (by omega) there
  exact ⟨stop', ends', less, found.nests.order _ _ t u (by omega) here there⟩

/-- Then every token has an end: a container is open only where the root is. -/
theorem ended (found : Found input toks p) (counts : CountsInside input toks) {fuel : Nat}
    {root : Json} (valid : validateJsmnDatum fuel input toks = some (root, [])) :
    ∀ u ∈ toks, ∃ stop, u.stop = some stop := by
  obtain ⟨sub, split, one⟩ := spans_validateJsmnDatum fuel input valid
  rw [List.append_nil] at split
  subst split
  cases toks with
  | nil => simp
  | cons t inner =>
      obtain ⟨stop, ends⟩ := JsmnTok.isOpen_eq_false_iff.mp (found.root t rfl)
      refine List.forall_mem_cons.mpr ⟨⟨stop, ends⟩, fun u member => ?_⟩
      by_cases container : t.isContainer = true
      · have split : t :: inner = [] ++ (t :: inner ++ []) := by simp
        obtain ⟨stop', ends', -⟩ := found.inside counts split one container ends u member
        exact ⟨stop', ends'⟩
      · rw [← rest_of_leaf container valid] at member
        cases member

theorem copies (found : Found input toks p) (counts : CountsInside input toks) {fuel : Nat}
    {root : Json} (valid : validateJsmnDatum fuel input toks = some (root, [])) {t : JsmnTok}
    {more : List JsmnTok} (value : ValueAt toks (t :: more)) (component : Text) :
    CopiesDatum input t more (ecCellNew component input t more) := by
  obtain ⟨fuel', j, rest, read⟩ := value.read valid
  obtain ⟨sub, split, one⟩ := spans_validateJsmnDatum fuel' input read
  obtain ⟨front, whole⟩ := value.suffix
  have member : t ∈ toks := by rw [← whole]; simp
  have next : jsonNext (t :: more) = rest := by
    rw [jsonNext, split, skipData_due one, skipData_zero]
  have tok : (ecCellNew component input t more).tok =
      sub.map (JsmnTok.rebase (jsonTokFullStart t)) := by
    have count : (sub ++ rest).length - rest.length = sub.length := by
      rw [List.length_append, Nat.add_sub_cancel]
    rw [ecCellNew]
    dsimp only
    rw [next, split, count, List.take_left]
  refine ⟨fuel', j, sub, rest, read, split, ?_, ?_⟩
  · obtain ⟨_, datum⟩ := datumRead_cons read
    exact datum.textFull (found.worded t member)
  · obtain ⟨stop, ends⟩ := found.ended counts valid t member
    have lengths := length_tokTextFull (found.worded t member) (found.ranged member) ends
    rw [tok, List.forall₂_map_right_iff]
    refine List.forall₂_same.mpr fun u within => ?_
    cases sub with
    | nil => cases within
    | cons t' inner =>
        obtain ⟨rfl, behind⟩ := List.cons.inj split
        by_cases container : t.isContainer = true
        · have length := lengths.2 (JsmnTok.ne_string_of_container container)
          have starts := jsonTokFullStart_of_container container
          have order := ((found.ranged member).stop stop ends).1
          rcases List.mem_cons.mp within with rfl | within
          · exact copiedTok_rebase ends (le_of_eq starts) order (by omega)
          · have split' : toks = front ++ (t :: inner ++ rest) := by rw [← whole, split]
            obtain ⟨stop', ends', less, past⟩ :=
              found.inside counts split' one container ends u within
            have member' : u ∈ toks := by
              rw [split']
              simp [within]
            have own := (found.placed member).starts
            have first : jsonTokFullStart u ≤ u.start := jsonTokFullStart_le u
            have order' := ((found.ranged member').stop stop' ends').1
            exact copiedTok_rebase ends' (by omega) order' (by omega)
        · have alone : inner = [] := by
            have rest' := rest_of_leaf container read
            rw [behind] at rest'
            simpa using rest'
          subst alone
          cases List.mem_singleton.mp within
          have order := ((found.ranged member).stop stop ends).1
          refine copiedTok_rebase ends (jsonTokFullStart_le t) order ?_
          by_cases string : t.type = .string
          · obtain ⟨-, behind, length⟩ := lengths.1 string
            rw [length, jsonTokFullStart, if_pos string]
            omega
          · rw [lengths.2 string, jsonTokFullStart, if_neg string]
            omega

/-- A closing bracket between two neighbours ends a container behind the first of them. -/
theorem shut_between (found : Found input toks p) {k : Nat} {t t' : JsmnTok}
    (here : toks[k]? = some t) (next : toks[k + 1]? = some t') {c : Char} (member : c ∈ gap input t t')
    (closing : IsClosing c) :
    ∃ (i : Nat) (u : JsmnTok) (stop : Nat), i ≤ k ∧ toks[i]? = some u ∧ u.isContainer = true ∧
      u.stop = some stop ∧ stop ≤ jsonTokFullStart t' ∧ Shut p.tokens i stop (k + 1) := by
  obtain ⟨q, past, before, there⟩ := mem_gap.mp member
  have here' := found.getElem?_tokens here
  have next' := found.getElem?_tokens next
  have placed := found.nests.placed t (List.mem_of_getElem? here')
  have placed' := found.nests.placed t' (List.mem_of_getElem? next')
  have own := placed.starts
  have own' := placed'.starts
  have read : q < p.pos := lt_of_lt_of_le (lt_trans before own') placed'.read
  obtain ⟨u, member, has⟩ := found.bracketed.belongs q c read there closing
  obtain ⟨i, located⟩ := List.mem_iff_getElem?.mp member
  have placedU := found.nests.placed u member
  have behind : k < i → q < jsonTokFullStart u := by
    intro later
    by_cases same : i = k + 1
    · subst same
      cases next'.symm.trans located
      exact before
    · have := found.nests.order (k + 1) i t' u (by omega) next' located
      omega
  have front : i ≤ k → u.past ≤ q := by
    intro earlier
    by_cases same : i = k
    · subst same
      cases here'.symm.trans located
      exact past
    · have := found.nests.order i k u t (by omega) located here'
      omega
  rcases has with ⟨container, ends⟩ | ⟨-, starts, inside⟩
  · have starts := placedU.starts
    have width := (placedU.ends _ ends).2.2 container
    have early : i ≤ k := by
      by_contra later
      have := behind (by omega)
      omega
    obtain ⟨e, shut, -⟩ := found.nests.closed i u (q + 1) located container ends
    have last : e = k + 1 := by
      have order := shut.order
      by_contra other
      rcases Nat.lt_or_ge e (k + 1) with less | more
      · have := shut.behind k t (by omega) here'
        omega
      · obtain ⟨stop', ends', less⟩ := shut.inside (k + 1) t' (by omega) (by omega) next'
        have := (placed'.ends _ ends').1
        omega
    subst last
    have bound : i < toks.length := lt_of_le_of_lt early (List.getElem?_eq_some_iff.mp here).1
    have same := found.getElem?_tokens (List.getElem?_eq_getElem bound)
    refine ⟨i, u, q + 1, early, ?_, container, ends, before, shut⟩
    rw [List.getElem?_eq_getElem bound, ← same, located]
  · rcases Nat.lt_or_ge k i with later | earlier
    · have := behind later
      omega
    · have := front earlier
      omega

/-- A container whose cell holds copies of its tokens counts none behind its end. -/
theorem countsInside (found : Found input toks p) {fuel : Nat} {root : Json}
    (valid : validateJsmnDatum fuel input toks = some (root, [])) {component : Text}
    (copies : ∀ t more, ValueAt toks (t :: more) →
      CopiesDatum input t more (ecCellNew component input t more)) : CountsInside input toks := by
  refine countsInside_iff.mpr fun k t t' here next counts c member closing => ?_
  obtain ⟨i, u, stop, early, located, container, ends, before, shut⟩ :=
    found.shut_between here next member closing
  have bound := (List.getElem?_eq_some_iff.mp located).1
  have split : toks.drop i = u :: toks.drop (i + 1) := by
    rw [List.drop_eq_getElem_cons bound, (List.getElem?_eq_some_iff.mp located).2]
  have inside : u :: toks.drop (i + 1) <:+ toks := split ▸ List.drop_suffix i toks
  have value := ValueAt.root.container valid inside List.nil_suffix container
  obtain ⟨fuel', j, sub, rest, read, parts, -, copied⟩ := copies u _ value
  obtain ⟨sub', parts', one⟩ := spans_validateJsmnDatum fuel' input read
  have same : sub' = sub := List.append_cancel_right (parts'.symm.trans parts)
  subst same
  obtain ⟨extra, tokens⟩ := found.split
  have behind : p.tokens.drop i = sub' ++ (rest ++ extra) := by
    rw [tokens, List.drop_append_of_le_length (Nat.le_of_lt bound), split, parts, List.append_assoc]
  -- The size of `t` takes `json_next` on to `t'`, which is copied with the container at `u`.
  have further : k + 1 < i + sub'.length :=
    (shut.subtree behind one (found.getElem?_tokens here)).mpr counts
  have within : sub'[k + 1 - i]? = some t' := by
    have offset : i + (k + 1 - i) = k + 1 := Nat.add_sub_of_le (Nat.le_succ_of_le early)
    have there := found.getElem?_tokens next
    rwa [← offset, ← List.getElem?_drop, behind, List.getElem?_append_left (by omega)] at there
  obtain ⟨t'', -, copy⟩ := exists_copied copied (List.mem_of_getElem? within)
  obtain ⟨stop', moved, ends', -, offset, -, width⟩ := copy.stop
  have member := List.mem_of_getElem? located
  have length := (length_tokTextFull (found.worded u member) (found.ranged member) ends).2
    (JsmnTok.ne_string_of_container container)
  have starts := jsonTokFullStart_of_container container
  have order := ((found.ranged member).stop stop ends).1
  have placed := found.placed (List.mem_of_getElem? next)
  have own := placed.starts
  have last := (placed.ends stop' ends').1
  rw [ecCellNew] at width
  dsimp only at width
  omega

end Found

/-- Every value of an accepted input is copied faithfully exactly if the tokens that count
    others have them directly behind them. -/
theorem ecCellNew_copies_iff {input : Text} {root : Json} {toks : List JsmnTok}
    (accepted : Accepted input root toks) (component : Text) :
    (∀ t more, ValueAt toks (t :: more) →
      CopiesDatum input t more (ecCellNew component input t more)) ↔ CountsInside input toks := by
  obtain ⟨p, found⟩ := accepted.found
  obtain ⟨valid, -⟩ := accepted.valid
  constructor
  · exact found.countsInside valid
  · intro counts t more value
    exact found.copies counts valid value component

/-- The cell of the value of `a`. -/
theorem ecCellNew_copies_iff_parse :
    CopiesDatum "\x7b\"a\":[1]\x7d".toList ⟨.array, 5, some 8, 1⟩ [⟨.primitive, 6, some 7, 0⟩]
      (ecCellNew "c".toList "\x7b\"a\":[1]\x7d".toList ⟨.array, 5, some 8, 1⟩
        [⟨.primitive, 6, some 7, 0⟩]) := by
  have accepted : Accepted "\x7b\"a\":[1]\x7d".toList
      (.object "\x7b\"a\":[1]\x7d".toList [("a".toList, .array "[1]".toList [.primitive "1".toList])])
      [⟨.object, 0, some 9, 1⟩, ⟨.string, 2, some 3, 1⟩, ⟨.array, 5, some 8, 1⟩,
        ⟨.primitive, 6, some 7, 0⟩] := ⟨jsmnInit, .init _, by decide +kernel⟩
  have copies := (ecCellNew_copies_iff accepted "c".toList).mpr (by decide)
  exact copies _ _ (.member .root rfl Nat.zero_lt_one rfl)

/-- A colon behind an empty array makes the array count what follows: the copy of the array
    holds a token that ends two characters behind the copied text. -/
theorem not_ecCellNew_copies_colon :
    ¬ ∀ input root toks, Accepted input root toks → ∀ component t more,
      ValueAt toks (t :: more) → CopiesDatum input t more (ecCellNew component input t more) := by
  intro copies
  have accepted : Accepted "\x7b\"a\":[]:3\x7d".toList
      (.object "\x7b\"a\":[]:3\x7d".toList [("a".toList, .array "[]".toList [.primitive "3".toList])])
      [⟨.object, 0, some 10, 1⟩, ⟨.string, 2, some 3, 1⟩, ⟨.array, 5, some 7, 1⟩,
        ⟨.primitive, 8, some 9, 0⟩] := ⟨jsmnInit, .init _, by decide +kernel⟩
  have value : ValueAt [⟨.object, 0, some 10, 1⟩, ⟨.string, 2, some 3, 1⟩, ⟨.array, 5, some 7, 1⟩,
      ⟨.primitive, 8, some 9, 0⟩] [⟨.array, 5, some 7, 1⟩, ⟨.primitive, 8, some 9, 0⟩] :=
    .member .root rfl Nat.zero_lt_one rfl
  obtain ⟨fuel, j, sub, rest, -, -, -, copied⟩ := copies _ _ _ accepted "c".toList _ _ value
  have tok : (ecCellNew "c".toList "\x7b\"a\":[]:3\x7d".toList ⟨.array, 5, some 7, 1⟩
      [⟨.primitive, 8, some 9, 0⟩]).tok =
      [⟨.array, 0, some 2, 1⟩, ⟨.primitive, 3, some 4, 0⟩] := by decide
  have length : (ecCellNew "c".toList "\x7b\"a\":[]:3\x7d".toList ⟨.array, 5, some 7, 1⟩
      [⟨.primitive, 8, some 9, 0⟩]).buffer.length = 2 := by decide
  rw [tok] at copied
  cases copied with
  | cons _ others =>
      cases others with
      | cons copy _ =>
          obtain ⟨stop, stop', -, ends, -, -, width⟩ := copy.stop
          rw [length] at width
          cases ends
          omega

end Payz
