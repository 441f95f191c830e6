import Payz.Json.Legible

/-! # The cells of the table, token by token

`ec_cell_new` of `plugins/payz/ecs/ec.c` as it runs: it cuts the text of a datum out of the
buffer of a request, copies the tokens of the datum and moves them to the start of the copy.
What `json_add_tok` writes of a cell is then the text that stood in the request.
-/

namespace Payz

/-- `struct ec_cell`. -/
structure EcCellTok where
  component : Text
  buffer : Text
  tok : List JsmnTok

/-- A token that has moved to the front by this much. -/
def JsmnTok.rebase (offset : Nat) (t : JsmnTok) : JsmnTok :=
  { t with start := t.start - offset, stop := t.stop.map fun stop => stop - offset }

/-- `ec_cell_new`, of the token `t` with the tokens behind it. -/
def ecCellNew (component buffer : Text) (t : JsmnTok) (toks : List JsmnTok) : EcCellTok where
  component := component
  buffer := tokTextFull buffer t
  tok := ((t :: toks).take ((t :: toks).length - (jsonNext (t :: toks)).length)).map
    (JsmnTok.rebase (jsonTokFullStart t))

/-- What `json_add_tok` writes of a cell. -/
def EcCellTok.written (cell : EcCellTok) : Option Text :=
  cell.tok.head?.map (tokTextFull cell.buffer)

/-- `json_tok_is_null`, of a token. -/
def tokIsNull (buffer : Text) (t : JsmnTok) : Bool :=
  t.type == .primitive && buffer[t.start]? == some 'n'

theorem length_skipData_le (n : Nat) (toks : List JsmnTok) : (skipData n toks).length ≤ toks.length := by
  fun_induction skipData n toks with
  | case1 | case2 => exact le_rfl
  | case3 n t toks ih => exact le_trans ih (Nat.le_succ _)

theorem tokTextFull_rebase {buffer : Text} {t : JsmnTok}
    (behind : t.type = .string → 0 < t.start) :
    tokTextFull (tokTextFull buffer t) (t.rebase (jsonTokFullStart t)) = tokTextFull buffer t := by
  have start : jsonTokFullStart (t.rebase (jsonTokFullStart t)) = 0 := by
    unfold jsonTokFullStart JsmnTok.rebase
    split_ifs with string
    · have := behind string
      dsimp only
      omega
    · exact Nat.sub_self _
  have len : jsonTokFullLen (t.rebase (jsonTokFullStart t)) = jsonTokFullLen t := by
    unfold jsonTokFullLen jsonTokFullStart JsmnTok.rebase
    cases t.stop with
    | none => simp
    | some stop =>
        simp only [Option.map_some, Option.getD_some]
        split_ifs with string
        · have := behind string
          omega
        · omega
  rw [tokTextFull, start, len, List.drop_zero]
  exact List.take_of_length_le (by rw [tokTextFull, List.length_take]; exact min_le_left _ _)

theorem written_ecCellNew (component : Text) {buffer : Text} {t : JsmnTok}
    (behind : t.type = .string → 0 < t.start) (toks : List JsmnTok) :
    (ecCellNew component buffer t toks).written = some (tokTextFull buffer t) := by
  have shorter : (jsonNext (t :: toks)).length ≤ toks.length := by
    rw [jsonNext, skipData]
    exact length_skipData_le _ _
  obtain ⟨copied, count⟩ : ∃ n, (t :: toks).length - (jsonNext (t :: toks)).length = n + 1 :=
    ⟨toks.length - (jsonNext (t :: toks)).length, by rw [List.length_cons]; omega⟩
  rw [EcCellTok.written, ecCellNew]
  dsimp only
  rw [count, List.take_succ_cons, List.map_cons, List.head?_cons, Option.map_some,
    tokTextFull_rebase behind]

/-- The text of a token is the text of the datum that is read from it. -/
theorem DatumRead.textFull {fuel : Nat} {buffer : Text} {t : JsmnTok} {toks rest : List JsmnTok}
    {j : Json} (worded : t.Worded buffer) (datum : DatumRead fuel buffer t toks j rest) :
    tokTextFull buffer t = j.jsonTokFull := by
  have bare : t.type ≠ .string → tokTextFull buffer t = tokText buffer t := by
    intro other
    rw [tokTextFull, jsonTokFullStart, jsonTokFullLen, if_neg other, if_neg other, tokText]
  cases datum with
  | string type => exact (worded.quoted type).2
  | primitive type => exact bare (by rw [type]; decide)
  | array type => exact bare (by rw [type]; decide)
  | object type => exact bare (by rw [type]; decide)

theorem DatumRead.isNull {fuel : Nat} {buffer : Text} {t : JsmnTok} {toks rest : List JsmnTok}
    {j : Json} (worded : t.Worded buffer) (datum : DatumRead fuel buffer t toks j rest) :
    tokIsNull buffer t = j.jsonTokIsNull := by
  cases datum with
  | string type => simp [tokIsNull, type, Json.jsonTokIsNull]
  | array type => simp [tokIsNull, type, Json.jsonTokIsNull]
  | object type => simp [tokIsNull, type, Json.jsonTokIsNull]
  | primitive type =>
      obtain ⟨c, more, text, -⟩ := worded.primitive type
      have first : buffer[t.start]? = some c := by
        have head := congrArg List.head? text
        rw [tokText, List.head?_take, List.head?_drop] at head
        split_ifs at head
        · cases head
        · exact head
      simp [tokIsNull, type, first, Json.jsonTokIsNull, text]

/-- What `ec_set_component` makes of a datum of a request, wherever it stands in there. -/
theorem ecCellNew_of_accepted {input : Text} {root j : Json} {accepted more rest : List JsmnTok}
    {t : JsmnTok} {fuel : Nat} (component : Text) (request : Accepted input root accepted)
    (inside : t :: more <:+ accepted)
    (read : validateJsmnDatum fuel input (t :: more) = some (j, rest)) :
    tokIsNull input t = j.jsonTokIsNull ∧
      (ecCellNew component input t more).written = some j.jsonTokFull := by
  have worded := request.worded t (inside.subset List.mem_cons_self)
  cases fuel with
  | zero => cases read
  | succ fuel =>
      obtain ⟨t', more', same, datum⟩ := validateJsmnDatum_read read
      cases same
      refine ⟨datum.isNull worded, ?_⟩
      rw [written_ecCellNew component (fun type => (worded.quoted type).1), datum.textFull worded]

end Payz
