import Payz.Json.Nests

/-! # The closing brackets of a text

Every closing bracket that the tokenizer has read ends a container, or is a character of a
string.
-/

namespace Payz

def IsClosing (c : Char) : Prop := c = '}' ∨ c = ']'

instance (c : Char) : Decidable (IsClosing c) := inferInstanceAs (Decidable (_ ∨ _))

/-- The character at `q` belongs to this token: it is the last one of a container, or one
    of a leaf. -/
def JsmnTok.HasClosing (t : JsmnTok) (q : Nat) : Prop :=
  t.isContainer = true ∧ t.stop = some (q + 1) ∨
    t.isContainer = false ∧ jsonTokFullStart t ≤ q ∧ q < t.past

/-- Containers end with closing brackets, and closing brackets belong to tokens. -/
structure JsmnParser.Bracketed (js : Text) (p : JsmnParser) : Prop where
  ends : ∀ t ∈ p.tokens, t.isContainer = true → ∀ stop, t.stop = some stop →
    ∃ q c, stop = q + 1 ∧ js[q]? = some c ∧ IsClosing c
  belongs : ∀ q c, q < p.pos → js[q]? = some c → IsClosing c → ∃ t ∈ p.tokens, t.HasClosing q

theorem bracketed_jsmnInit (js : Text) : jsmnInit.Bracketed js := by
  constructor <;> simp [jsmnInit]

theorem JsmnTok.HasClosing.counted {t : JsmnTok} {q : Nat} (has : t.HasClosing q)
    (toksuper : Option Nat) (k : Nat) : (t.counted toksuper k).HasClosing q := by
  simpa [JsmnTok.HasClosing] using has

namespace JsmnParser.Bracketed

variable {js : Text} {p : JsmnParser}

theorem moved (bracketed : p.Bracketed js) {next : Nat} {super' : Option Nat}
    (plain : ∀ q c, p.pos ≤ q → q < next → js[q]? = some c → ¬ IsClosing c) :
    JsmnParser.Bracketed js ⟨next, super', p.tokens⟩ := by
  refine ⟨bracketed.ends, fun q c before found closing => ?_⟩
  rcases Nat.lt_or_ge q p.pos with old | late
  · exact bracketed.belongs q c old found closing
  · exact absurd closing (plain q c late before found)

theorem found (bracketed : p.Bracketed js) {new : JsmnTok} {next : Nat} {super' : Option Nat}
    (opened : new.isContainer = true → new.stop = none)
    (plain : ∀ q c, p.pos ≤ q → q < next → js[q]? = some c → IsClosing c → new.HasClosing q) :
    JsmnParser.Bracketed js ⟨next, super', incSize p.toksuper p.tokens ++ [new]⟩ := by
  refine ⟨fun t' member container stop ends => ?_, fun q c before there closing => ?_⟩
  · obtain ⟨k, there⟩ := List.mem_iff_getElem?.mp member
    rcases getElem?_found there with ⟨t, old, rfl⟩ | ⟨-, rfl⟩
    · rw [JsmnTok.counted_isContainer] at container
      rw [JsmnTok.counted_stop] at ends
      exact bracketed.ends t (List.mem_of_getElem? old) container stop ends
    · cases (opened container).symm.trans ends
  · rcases Nat.lt_or_ge q p.pos with old | late
    · obtain ⟨t, member, has⟩ := bracketed.belongs q c old there closing
      obtain ⟨k, here⟩ := List.mem_iff_getElem?.mp member
      refine ⟨t.counted p.toksuper k, List.mem_append_left _ (List.mem_of_getElem? (i := k) ?_),
        has.counted _ _⟩
      rw [getElem?_incSize, here]
      rfl
    · exact ⟨new, by simp, plain q c late before there closing⟩

theorem ended (bracketed : p.Bracketed js) {o : Nat} {t : JsmnTok} {super' : Option Nat}
    (here : p.tokens[o]? = some t) (opened : t.isOpen = true) (container : t.isContainer = true)
    {c : Char} (read : js[p.pos]? = some c) (closing : IsClosing c) :
    JsmnParser.Bracketed js ⟨p.pos + 1, super',
      p.tokens.modify o fun t => { t with stop := some (p.pos + 1) }⟩ := by
  have new : { t with stop := some (p.pos + 1) } ∈
      p.tokens.modify o fun t => { t with stop := some (p.pos + 1) } := by
    refine List.mem_of_getElem? (i := o) ?_
    rw [List.getElem?_modify_eq, here]
    rfl
  refine ⟨fun t' member container' stop ends => ?_, fun q d before there closing' => ?_⟩
  · obtain ⟨k, there⟩ := List.mem_iff_getElem?.mp member
    rcases getElem?_ended there with ⟨-, u, -, rfl⟩ | ⟨-, old⟩
    · cases ends
      exact ⟨p.pos, c, rfl, read, closing⟩
    · exact bracketed.ends t' (List.mem_of_getElem? old) container' stop ends
  · rcases Nat.lt_or_ge q p.pos with old | late
    · obtain ⟨u, member, has⟩ := bracketed.belongs q d old there closing'
      obtain ⟨k, found⟩ := List.mem_iff_getElem?.mp member
      have other : o ≠ k := by
        rintro rfl
        cases here.symm.trans found
        rcases has with ⟨-, ends⟩ | ⟨leaf, -⟩
        · rw [JsmnTok.isOpen, ends] at opened
          cases opened
        · rw [container] at leaf
          cases leaf
      refine ⟨u, List.mem_of_getElem? (i := k) ?_, has⟩
      rw [List.getElem?_modify_ne _ _ other, found]
    · have offset : q = p.pos := by
        dsimp only at before
        omega
      subst offset
      exact ⟨_, new, .inl ⟨container, rfl⟩⟩

theorem turn (bracketed : p.Bracketed js) {p' : JsmnParser} {n : Nat}
    (turn : JsmnTurn p (js.drop p.pos) p' n) : p'.Bracketed js := by
  generalize front : js.drop p.pos = text at turn
  have read : ∀ q c, p.pos ≤ q → js[q]? = some c → text[q - p.pos]? = some c := by
    intro q c late found
    rw [← front, List.getElem?_drop, Nat.add_sub_of_le late, found]
  have single : ∀ {d rest}, text = d :: rest → ¬ IsClosing d → ∀ q c, p.pos ≤ q →
      q < p.pos + 1 → js[q]? = some c → ¬ IsClosing c := by
    intro d rest split plain q c late before found
    have here := read q c late found
    have offset : q - p.pos = 0 := by omega
    rw [offset, split, List.getElem?_cons_zero] at here
    cases here
    exact plain
  cases turn with
  | @opens c type rest bracket =>
      have plain : ¬ IsClosing c := by
        rcases bracket with ⟨rfl, -⟩ | ⟨rfl, -⟩ <;> decide
      refine bracketed.found (fun _ => rfl) fun q d late before found closing => ?_
      exact absurd closing (single rfl plain q d late before found)
  | @closes c type rest p' bracket close =>
      obtain ⟨o, t, last, here, typed, rfl⟩ := jsmnClose_ok close
      obtain ⟨u, found, opened⟩ := lastIdx_some last
      cases here.symm.trans found
      have container : t.isContainer = true := by
        rw [JsmnTok.isContainer, typed]
        rcases bracket with ⟨-, rfl⟩ | ⟨-, rfl⟩ <;> rfl
      have first : js[p.pos]? = some c := by
        rw [← Nat.add_zero p.pos, ← List.getElem?_drop, front]
        rfl
      exact bracketed.ended here opened container first (bracket.imp And.left And.left)
  | @string rest n scanned =>
      refine bracketed.found (fun container => by cases container)
        fun q c late before found closing => .inr ⟨rfl, late, ?_⟩
      by_contra beyond
      have last : q = p.pos + 1 + n := by
        change ¬ q < p.pos + 1 + n at beyond
        omega
      have here := read q c late found
      have offset : q - p.pos = n + 1 := by omega
      rw [offset, List.getElem?_cons_succ, (stringScan_of_ok scanned).closing] at here
      cases here
      exact absurd closing (by decide)
  | blank space =>
      refine bracketed.moved (single rfl ?_)
      rcases space with rfl | rfl | rfl | rfl <;> decide
  | colon => exact bracketed.moved (single rfl (by decide))
  | comma => exact bracketed.moved (single rfl (by decide))
  | @primitive c rest n starts scanned positive =>
      exact bracketed.found (fun container => by cases container)
        fun q d late before found closing => .inr ⟨rfl, late, before⟩

theorem append (bracketed : p.Bracketed js) (read : p.pos ≤ js.length) (more : Text) :
    p.Bracketed (js ++ more) := by
  refine ⟨fun t member container stop ends => ?_, fun q c before found closing => ?_⟩
  · obtain ⟨q, c, rfl, there, closing⟩ := bracketed.ends t member container stop ends
    refine ⟨q, c, rfl, ?_, closing⟩
    rw [List.getElem?_append_left (List.getElem?_eq_some_iff.mp there).1, there]
  · rw [List.getElem?_append_left (by omega)] at found
    exact bracketed.belongs q c before found closing

end JsmnParser.Bracketed

theorem Resumes.bracketed {p : JsmnParser} {input : Text} (resumes : Resumes p input) :
    p.Bracketed input := by
  induction resumes with
  | init => exact bracketed_jsmnInit _
  | more arrived before parsed ih =>
      have reading := before.reading.jsmnParse
      rw [jsonParseInput_incomplete parsed]
      have bracketed := jsmnParse_keeps (fun bracketed turn => bracketed.turn turn) ih
      exact bracketed.append reading.bound arrived

end Payz
