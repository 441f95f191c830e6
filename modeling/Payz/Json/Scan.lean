import Payz.Json.Access

/-! # Scanning JSON data by a guide

`json_scan` and `json_scanv` in `common/json.c`: a guide is a text that says where the values are
that converters are to be called with.

The grammar is in the comment above `parse_literal`.
-/

namespace Payz

/-- A converter in the list of arguments, as `JSON_SCAN` and `JSON_SCAN_TAL` pass it.  It finds
    `errno` as it is, `true` being `ERANGE`, and may leave it otherwise. -/
structure ScanArg (α : Type) where
  fmtname : Text
  fmt : Bool → Json → Option α × Bool

/-- `JSON_SCAN(json_to_u64, …)`: a number out of range leaves `ERANGE` behind, and where that has
    been left before, the greatest number is refused. -/
def scanU64 : ScanArg Nat where
  fmtname := "json_to_u64".toList
  fmt erange tok :=
    let (value, stop) := strtoull tok.jsonStrdup
    let erange := erange || value.isNone
    let l := value.getD (2 ^ 64 - 1)
    (if stop ≠ [] ∨ l = 2 ^ 64 - 1 ∧ erange = true then none else some l, erange)

/-- The guide and the arguments that are left, what has been stored, and `errno`. -/
structure Scan (α : Type) where
  guide : Text
  ap : List (ScanArg α)
  stored : List α
  erange : Bool

/-- Where a part of a scan ends: at an assertion, with a message, or in front of the next part. -/
inductive Scanned (α : Type) where
  | abort
  | failed (errmsg : Text) (s : Scan α)
  | passed (s : Scan α)

variable {α : Type}

def Scanned.andThen : Scanned α → (Scan α → Scanned α) → Scanned α
  | .abort, _ => .abort
  | .failed errmsg s, _ => .failed errmsg s
  | .passed s, next => next s

/-- The characters of `parse_literal`. -/
def isLiteral (c : Char) : Bool := c.isAlphanum || c == '_' || c == '-'

def parseLiteral (s : Scan α) : Text × Scan α :=
  (s.guide.takeWhile isLiteral, { s with guide := s.guide.dropWhile isLiteral })

/-- `parse_number`, `none` where an assertion fails.  `strtol` does not reset `errno`, so that what
    has been left there counts. -/
def parseNumber (s : Scan α) : Option (Nat × Scan α) :=
  let (negative, unsigned) := scanSign (s.guide.dropWhile isSpace)
  let (l, endp) := scanDigits 10 0 unsigned
  if endp.length = unsigned.length ∨ s.erange = true ∨ 2 ^ 32 ≤ l ∨ negative = true ∧ l ≠ 0 then none
  else some (l, { s with guide := endp })

def guideMustBe (c : Char) (s : Scan α) : Scanned α :=
  match s.guide with
  | [] => .abort
  | actual :: guide => if actual = c then .passed { s with guide := guide } else .abort

def handlePercent (tok : Json) (s : Scan α) : Scanned α :=
  match s.ap with
  | [] => .abort
  | arg :: ap =>
      match arg.fmt s.erange tok with
      | (some value, erange) =>
          .passed { s with ap := ap, stored := s.stored ++ [value], erange := erange }
      | (none, erange) =>
          .failed (arg.fmtname ++ " could not parse ".toList ++ tok.jsonTokFull)
            { s with ap := ap, erange := erange }

/-- The end of `parse_fieldval`. -/
def matchLiteral (tok : Json) (s : Scan α) : Scanned α :=
  let (literal, s) := parseLiteral s
  if tok.jsonStrdup = literal then .passed s
  else .failed (tok.jsonTokFull ++ " does not match expected ".toList ++ literal) s

/-- What `parse_field` and `parse_arrelem` look up. -/
inductive ScanKey where
  | member (memname : Text)
  | index (idx : Nat)
  deriving Repr, DecidableEq

/-- `json_get_membern` and `json_get_arr`. -/
def ScanKey.get (tok : Json) : ScanKey → Option Json
  | .member memname => tok.jsonGetMember memname
  | .index idx =>
      match tok with
      | .array _ elems => elems[idx]?
      | _ => none

/-- The message if there is nothing. -/
def ScanKey.missing (tok : Json) : ScanKey → Text
  | .member memname => "object does not have member ".toList ++ memname
  | .index idx => "token has no index ".toList ++ formatU idx ++ ": ".toList ++ tok.jsonTokFull

/-- The containers that `parse_obj` and `parse_arr` are for. -/
inductive ScanKind where
  | obj
  | arr
  deriving Repr, DecidableEq

def ScanKind.opens : ScanKind → Char
  | .obj => '{'
  | .arr => '['

def ScanKind.closes : ScanKind → Char
  | .obj => '}'
  | .arr => ']'

def ScanKind.fits : ScanKind → Json → Bool
  | .obj, .object _ _ => true
  | .arr, .array _ _ => true
  | _, _ => false

/-- The message if the datum is of some other kind. -/
def ScanKind.misfit (tok : Json) : ScanKind → Text
  | .obj => "token is not an object: ".toList ++ tok.jsonTokFull
  | .arr => "token is not an array: ".toList ++ tok.jsonTokFull

/-- The key at the front of the guide. -/
def parseKey (kind : ScanKind) (s : Scan α) : Option (ScanKey × Scan α) :=
  match kind with
  | .obj =>
      let (memname, s) := parseLiteral s
      some (.member memname, s)
  | .arr => (parseNumber s).map fun (idx, s) => (.index idx, s)

mutual
def parseFieldval : Nat → Json → Scan α → Scanned α
  | 0, _, _ => .abort
  | fuel + 1, tok, s =>
      match s.guide with
      | '{' :: _ => parseContainer fuel .obj tok s
      | '[' :: _ => parseContainer fuel .arr tok s
      | '%' :: guide => handlePercent tok { s with guide := guide }
      | _ => matchLiteral tok s

/-- `parse_obj` and `parse_arr`. -/
def parseContainer : Nat → ScanKind → Json → Scan α → Scanned α
  | 0, _, _, _ => .abort
  | fuel + 1, kind, tok, s =>
      (guideMustBe kind.opens s).andThen fun s =>
        if kind.fits tok then
          (parseEntries fuel kind tok s).andThen (guideMustBe kind.closes)
        else .failed (kind.misfit tok) s

/-- `parse_fieldlist` and `parse_arrlist`. -/
def parseEntries : Nat → ScanKind → Json → Scan α → Scanned α
  | 0, _, _, _ => .abort
  | fuel + 1, kind, tok, s =>
      (parseEntry fuel kind tok s).andThen fun s =>
        match s.guide with
        | ',' :: guide => parseEntries fuel kind tok { s with guide := guide }
        | _ => .passed s

/-- `parse_field` and `parse_arrelem`. -/
def parseEntry : Nat → ScanKind → Json → Scan α → Scanned α
  | 0, _, _, _ => .abort
  | fuel + 1, kind, tok, s =>
      match parseKey kind s with
      | none => .abort
      | some (key, s) =>
          (guideMustBe ':' s).andThen fun s =>
            match key.get tok with
            | none => .failed (key.missing tok) s
            | some member => parseFieldval fuel member s
end

def parseGuide (fuel : Nat) (tok : Json) (s : Scan α) : Scanned α :=
  match s.guide with
  | '{' :: _ => parseContainer fuel .obj tok s
  | '[' :: _ => parseContainer fuel .arr tok s
  | _ => (guideMustBe '%' s).andThen (handlePercent tok)

/-- `json_scanv` and `json_scan`: the message, if there is one, and what has been stored; `none`
    where an assertion fails.  A container takes four calls and two characters at least. -/
def jsonScan (erange : Bool) (tok : Json) (guide : Text) (ap : List (ScanArg α)) :
    Option (Option Text × List α) :=
  match parseGuide (4 * guide.length + 4) tok ⟨guide, ap, [], erange⟩ with
  | .abort => none
  | .failed errmsg s => some (some ("Parsing '".toList ++
      guide.take (guide.length - s.guide.length) ++ "': ".toList ++ errmsg), s.stored)
  | .passed s => if s.guide = [] then some (none, s.stored) else none

/-! ## Guides as trees -/

/-- Where a guide ends: at a converter, or at a text that has to be there. -/
inductive GuideLeaf (α : Type) where
  | percent (arg : ScanArg α)
  | literal (text : Text)

mutual
/-- A guide, with its converters. -/
inductive Guide (α : Type) where
  | leaf (leaf : GuideLeaf α)
  | node (kind : ScanKind) (entries : GuideEntries α)

/-- The fields or the elements of a guide. -/
inductive GuideEntries (α : Type) where
  | last (key : ScanKey) (guide : Guide α)
  | more (key : ScanKey) (guide : Guide α) (rest : GuideEntries α)
end

def GuideLeaf.text : GuideLeaf α → Text
  | .percent _ => ['%']
  | .literal text => text

def GuideLeaf.args : GuideLeaf α → List (ScanArg α)
  | .percent arg => [arg]
  | .literal _ => []

def ScanKey.text : ScanKey → Text
  | .member memname => memname
  | .index idx => formatU idx

mutual
def Guide.text : Guide α → Text
  | .leaf leaf => leaf.text
  | .node kind entries => kind.opens :: (entries.text ++ [kind.closes])

def GuideEntries.text : GuideEntries α → Text
  | .last key guide => key.text ++ ':' :: guide.text
  | .more key guide rest => key.text ++ ':' :: (guide.text ++ ',' :: rest.text)
end

mutual
/-- The converters, in the order of the arguments. -/
def Guide.args : Guide α → List (ScanArg α)
  | .leaf leaf => leaf.args
  | .node _ entries => entries.args

def GuideEntries.args : GuideEntries α → List (ScanArg α)
  | .last _ guide => guide.args
  | .more _ guide rest => guide.args ++ rest.args
end

/-- A key on the way to a leaf: how much of the guide has been read when its container is open, and
    how much behind its colon.  It is read once, for the first leaf below it. -/
structure ScanStep where
  key : ScanKey
  opened : Text
  passed : Text
  first : Bool

/-- A leaf with the way to it, and how much of the guide has been read behind it. -/
structure GuideWay (α : Type) where
  steps : List ScanStep
  leaf : GuideLeaf α
  passed : Text

/-- The same leaf one container further down. -/
def GuideWay.below (way : GuideWay α) (step : ScanStep) : GuideWay α :=
  { way with steps := step :: way.steps }

/-- The leaves below a key. -/
def waysBelow (key : ScanKey) (opened passed : Text) : List (GuideWay α) → List (GuideWay α)
  | [] => []
  | way :: ways =>
      way.below ⟨key, opened, passed, true⟩ :: ways.map (·.below ⟨key, opened, passed, false⟩)

mutual
/-- The leaves in their order, behind what stands in front of the guide. -/
def Guide.ways (front : Text) : Guide α → List (GuideWay α)
  | .leaf leaf => [⟨[], leaf, front ++ leaf.text⟩]
  | .node kind entries => entries.ways (front ++ [kind.opens]) (front ++ [kind.opens])

def GuideEntries.ways (opened front : Text) : GuideEntries α → List (GuideWay α)
  | .last key guide =>
      waysBelow key opened (front ++ key.text ++ [':']) (guide.ways (front ++ key.text ++ [':']))
  | .more key guide rest =>
      waysBelow key opened (front ++ key.text ++ [':']) (guide.ways (front ++ key.text ++ [':'])) ++
        rest.ways opened (front ++ key.text ++ [':'] ++ guide.text ++ [','])
end

/-- A key of the grammar. -/
def ScanKey.Valid : ScanKind → ScanKey → Prop
  | .obj, .member memname => ∀ c ∈ memname, isLiteral c = true
  | .arr, .index idx => idx < 2 ^ 32
  | _, _ => False

def GuideLeaf.Valid : GuideLeaf α → Prop
  | .percent _ => True
  | .literal text => ∀ c ∈ text, isLiteral c = true

mutual
/-- A guide of the grammar. -/
def Guide.Valid : Guide α → Prop
  | .leaf leaf => leaf.Valid
  | .node kind entries => entries.Valid kind

def GuideEntries.Valid (kind : ScanKind) : GuideEntries α → Prop
  | .last key guide => key.Valid kind ∧ guide.Valid
  | .more key guide rest => key.Valid kind ∧ guide.Valid ∧ rest.Valid kind
end

/-! ## What a guide asks for -/

/-- What a part of a guide comes to: an assertion fails, a leaf is not there or not as it should be
    when this much of the guide has been read, or all is stored. -/
inductive Taken (α : Type) where
  | abort
  | failed (values : List α) (front errmsg : Text)
  | passed (values : List α) (erange : Bool)

namespace Taken

/-- What is stored first comes first. -/
def behind (values : List α) : Taken α → Taken α
  | .abort => .abort
  | .failed more front errmsg => .failed (values ++ more) front errmsg
  | .passed more erange => .passed (values ++ more) erange

/-- One part after the other, as far as they pass. -/
def andThen : Taken α → (Bool → Taken α) → Taken α
  | .abort, _ => .abort
  | .failed values front errmsg, _ => .failed values front errmsg
  | .passed values erange, next => (next erange).behind values

/-- The answer of `json_scan`. -/
def answer : Taken α → Option (Option Text × List α)
  | .abort => none
  | .failed values front errmsg =>
      some (some ("Parsing '".toList ++ front ++ "': ".toList ++ errmsg), values)
  | .passed values _ => some (none, values)

theorem behind_behind (front back : List α) (taken : Taken α) :
    (taken.behind back).behind front = taken.behind (front ++ back) := by
  cases taken <;> simp [behind]

theorem behind_nil (taken : Taken α) : taken.behind [] = taken := by
  cases taken <;> rfl

theorem andThen_assoc (taken : Taken α) (next last : Bool → Taken α) :
    (taken.andThen next).andThen last =
      taken.andThen fun erange => (next erange).andThen last := by
  cases taken with
  | abort => rfl
  | failed values front errmsg => rfl
  | passed values erange =>
      show ((next erange).behind values).andThen last = ((next erange).andThen last).behind values
      cases next erange with
      | abort => rfl
      | failed more front errmsg => rfl
      | passed more erange => exact (behind_behind values more (last erange)).symm

theorem andThen_passed (taken : Taken α) :
    (taken.andThen fun erange => .passed [] erange) = taken := by
  cases taken with
  | abort => rfl
  | failed values front errmsg => rfl
  | passed values erange => rw [andThen, behind, List.append_nil]

end Taken

/-- What a leaf stores, or the message. -/
def GuideLeaf.take (front : Text) (erange : Bool) (tok : Json) : GuideLeaf α → Taken α
  | .percent arg =>
      match arg.fmt erange tok with
      | (some value, erange) => .passed [value] erange
      | (none, _) =>
          .failed [] front (arg.fmtname ++ " could not parse ".toList ++ tok.jsonTokFull)
  | .literal text =>
      if tok.jsonStrdup = text then .passed [] erange
      else .failed [] front (tok.jsonTokFull ++ " does not match expected ".toList ++ text)

def ScanKey.kind : ScanKey → ScanKind
  | .member _ => .obj
  | .index _ => .arr

/-- What a leaf stores at the end of its way, or what stops it.  An index must not be read while
    `errno` is `ERANGE`. -/
def takeAt (leaf : GuideLeaf α) (front : Text) (erange : Bool) : Json → List ScanStep → Taken α
  | tok, [] => leaf.take front erange tok
  | tok, step :: steps =>
      if step.key.kind.fits tok then
        if step.first = true ∧ step.key.kind = .arr ∧ erange = true then .abort
        else
          match step.key.get tok with
          | some member => takeAt leaf front erange member steps
          | none => .failed [] step.passed (step.key.missing tok)
      else .failed [] step.opened (step.key.kind.misfit tok)

/-- What the leaves store in their order, up to the first that fails. -/
def takeAll (erange : Bool) (tok : Json) : List (GuideWay α) → Taken α
  | [] => .passed [] erange
  | way :: ways =>
      (takeAt way.leaf way.passed erange tok way.steps).andThen fun erange =>
        takeAll erange tok ways

theorem takeAll_append (erange : Bool) (tok : Json) (front back : List (GuideWay α)) :
    takeAll erange tok (front ++ back) =
      (takeAll erange tok front).andThen fun erange => takeAll erange tok back := by
  induction front generalizing erange with
  | nil => exact (Taken.behind_nil _).symm
  | cons way front ih =>
      rw [List.cons_append, takeAll, takeAll, Taken.andThen_assoc]
      exact congrArg _ (funext ih)

/-- The leaves below a key that has been read are looked for where it leads. -/
theorem takeAll_later {tok member : Json} (step : ScanStep)
    (fits : step.key.kind.fits tok = true) (found : step.key.get tok = some member)
    (later : step.first = false) (erange : Bool) (ways : List (GuideWay α)) :
    takeAll erange tok (ways.map (·.below step)) = takeAll erange member ways := by
  induction ways generalizing erange with
  | nil => rfl
  | cons way ways ih =>
      have here : takeAt way.leaf way.passed erange tok (step :: way.steps) =
          takeAt way.leaf way.passed erange member way.steps := by
        rw [takeAt, if_pos fits, if_neg (by simp [later]), found]
      rw [List.map_cons, takeAll, takeAll]
      exact congrArg₂ Taken.andThen here (funext ih)

/-- All the leaves below a key are looked for in the same place. -/
theorem takeAll_below {tok : Json} {key : ScanKey} (fits : key.kind.fits tok = true)
    (opened passed : Text) (erange : Bool) {ways : List (GuideWay α)} (some' : ways ≠ []) :
    takeAll erange tok (waysBelow key opened passed ways) =
      if key.kind = .arr ∧ erange = true then .abort
      else
        match key.get tok with
        | some member => takeAll erange member ways
        | none => .failed [] passed (key.missing tok) := by
  obtain ⟨way, ways, rfl⟩ := List.exists_cons_of_ne_nil some'
  rw [waysBelow, takeAll, GuideWay.below, takeAt, if_pos fits]
  simp only [true_and]
  split_ifs with stale
  · rfl
  · cases found : key.get tok with
    | none => rfl
    | some member =>
        dsimp only
        rw [takeAll]
        refine congrArg _ (funext fun erange => ?_)
        exact takeAll_later ⟨key, opened, passed, false⟩ fits found rfl erange ways

theorem waysBelow_ne_nil {key : ScanKey} {opened passed : Text} {ways : List (GuideWay α)}
    (some' : ways ≠ []) : waysBelow key opened passed ways ≠ [] := by
  obtain ⟨way, ways, rfl⟩ := List.exists_cons_of_ne_nil some'
  exact List.cons_ne_nil _ _

mutual
theorem Guide.ways_ne_nil (guide : Guide α) (front : Text) : guide.ways front ≠ [] := by
  cases guide with
  | leaf leaf => exact List.cons_ne_nil _ _
  | node kind entries => exact entries.ways_ne_nil _ _
termination_by structural guide

theorem GuideEntries.ways_ne_nil (entries : GuideEntries α) (opened front : Text) :
    entries.ways opened front ≠ [] := by
  cases entries with
  | last key guide => exact waysBelow_ne_nil (guide.ways_ne_nil _)
  | more key guide rest =>
      rw [GuideEntries.ways, Ne, List.append_eq_nil_iff]
      exact fun none => waysBelow_ne_nil (guide.ways_ne_nil _) none.1
termination_by structural entries
end

/-! ## Without a stale `errno` -/

/-- No assertion has failed, and `errno` is not `ERANGE`. -/
def Taken.Quiet : Taken α → Prop
  | .abort => False
  | .failed _ _ _ => True
  | .passed _ erange => erange = false

theorem Taken.Quiet.andThen {taken : Taken α} {next : Bool → Taken α} (first : taken.Quiet)
    (second : (next false).Quiet) : (taken.andThen next).Quiet := by
  cases taken with
  | abort => exact first
  | failed values front errmsg => trivial
  | passed values erange =>
      obtain rfl : erange = false := first
      rw [Taken.andThen]
      cases last : next false with
      | abort => rwa [last] at second
      | failed more front errmsg => trivial
      | passed more erange => rwa [last] at second

theorem Taken.Quiet.answer {taken : Taken α} (quiet : taken.Quiet) : taken.answer ≠ none := by
  cases taken with
  | abort => exact quiet.elim
  | failed values front errmsg => exact Option.some_ne_none _
  | passed values erange => exact Option.some_ne_none _

/-- A converter that leaves no `ERANGE` where there was none. -/
def ScanArg.Quiet (arg : ScanArg α) : Prop := ∀ tok, (arg.fmt false tok).2 = false

theorem takeAt_quiet {leaf : GuideLeaf α} (quiet : ∀ arg ∈ leaf.args, arg.Quiet) (front : Text)
    (tok : Json) (steps : List ScanStep) : (takeAt leaf front false tok steps).Quiet := by
  induction steps generalizing tok with
  | nil =>
      rw [takeAt]
      cases leaf with
      | percent arg =>
          have same := quiet arg List.mem_cons_self tok
          rw [GuideLeaf.take]
          rcases given : arg.fmt false tok with ⟨_ | value, erange⟩
          · trivial
          · rwa [given] at same
      | literal text =>
          rw [GuideLeaf.take]
          split_ifs
          · rfl
          · trivial
  | cons step steps ih =>
      rw [takeAt]
      split_ifs with fits stale
      · exact stale.2.2.elim
      · cases step.key.get tok with
        | none => trivial
        | some member => exact ih member
      · trivial

theorem takeAll_quiet {ways : List (GuideWay α)}
    (quiet : ∀ way ∈ ways, ∀ arg ∈ way.leaf.args, arg.Quiet) (tok : Json) :
    (takeAll false tok ways).Quiet := by
  induction ways with
  | nil => rfl
  | cons way ways ih =>
      rw [List.forall_mem_cons] at quiet
      exact (takeAt_quiet quiet.1 way.passed tok way.steps).andThen (ih quiet.2)

theorem waysBelow_args (key : ScanKey) (opened passed : Text) (ways : List (GuideWay α)) :
    (waysBelow key opened passed ways).flatMap (·.leaf.args) = ways.flatMap (·.leaf.args) := by
  cases ways with
  | nil => rfl
  | cons way ways => simp [waysBelow, GuideWay.below, List.flatMap_map]

mutual
theorem Guide.ways_args (guide : Guide α) (front : Text) :
    (guide.ways front).flatMap (·.leaf.args) = guide.args := by
  cases guide with
  | leaf leaf => exact List.append_nil _
  | node kind entries => exact entries.ways_args _ _

theorem GuideEntries.ways_args (entries : GuideEntries α) (opened front : Text) :
    (entries.ways opened front).flatMap (·.leaf.args) = entries.args := by
  cases entries with
  | last key guide =>
      rw [GuideEntries.ways, waysBelow_args, guide.ways_args, GuideEntries.args]
  | more key guide rest =>
      rw [GuideEntries.ways, List.flatMap_append, waysBelow_args, guide.ways_args, rest.ways_args,
        GuideEntries.args]
end

theorem Guide.quiet {guide : Guide α} (quiet : ∀ arg ∈ guide.args, arg.Quiet) (front : Text) :
    ∀ way ∈ guide.ways front, ∀ arg ∈ way.leaf.args, arg.Quiet := by
  intro way member arg here
  refine quiet arg ?_
  rw [← guide.ways_args front]
  exact List.mem_flatMap.mpr ⟨way, member, here⟩

/-! ## Reading a guide -/

/-- A part of the scan of a whole guide, of which this much is left behind the part. -/
def Scanned.Gives (scanned : Scanned α) (whole : Text) (stored : List α) (rest : Text)
    (ap : List (ScanArg α)) : Taken α → Prop
  | .abort => scanned = .abort
  | .failed values front errmsg => ∃ guide ap' erange, whole = front ++ guide ∧
      scanned = .failed errmsg ⟨guide, ap', stored ++ values, erange⟩
  | .passed values erange => scanned = .passed ⟨rest, ap, stored ++ values, erange⟩

def LiteralEnds (rest : Text) : Prop := ∀ c ∈ rest.head?, isLiteral c = false

theorem parseLiteral_append {text rest : Text} (literal : ∀ c ∈ text, isLiteral c = true)
    (ends : LiteralEnds rest) (ap : List (ScanArg α)) (stored : List α) (erange : Bool) :
    parseLiteral ⟨text ++ rest, ap, stored, erange⟩ = (text, ⟨rest, ap, stored, erange⟩) := by
  have take : (text ++ rest).takeWhile isLiteral = text := by
    rw [List.takeWhile_append_of_pos literal]
    cases rest with
    | nil => simp
    | cons c rest => simp [ends c rfl]
  have drop : (text ++ rest).dropWhile isLiteral = rest := by
    rw [List.dropWhile_append_of_pos literal]
    cases rest with
    | nil => rfl
    | cons c rest => simp [ends c rfl]
  rw [parseLiteral, take, drop]

theorem scanSign_digit {c : Char} (digit : c.isDigit = true) (rest : Text) :
    scanSign ((c :: rest).dropWhile isSpace) = (false, c :: rest) := by
  have range := toNat_of_isDigit digit
  have notSpace : isSpace c = false := by
    have : c ≠ ' ' := by
      rintro rfl
      exact absurd range (by decide)
    simp only [isSpace, Bool.or_eq_false_iff, beq_eq_false_iff_ne, ne_eq, this, not_false_eq_true,
      Bool.and_eq_false_iff, decide_eq_false_iff_not, true_and]
    omega
  rw [List.dropWhile_cons_of_neg (by simp [notSpace])]
  unfold scanSign
  split
  · next same =>
      obtain ⟨rfl, -⟩ := List.cons.inj same
      exact absurd range (by decide)
  · next same =>
      obtain ⟨rfl, -⟩ := List.cons.inj same
      exact absurd range (by decide)
  · rfl

theorem scanDigits_append {digits : Text} (all : ∀ c ∈ digits, c.isDigit = true) (acc : Nat)
    (rest : Text) :
    scanDigits 10 acc (digits ++ ':' :: rest) =
      (Nat.ofDigitChars 10 digits acc, ':' :: rest) := by
  induction digits generalizing acc with
  | nil => rfl
  | cons c digits ih =>
      rw [List.forall_mem_cons] at all
      rw [List.cons_append, scanDigits, digitValue_ten all.1]
      simpa [Nat.ofDigitChars_cons] using ih all.2 _

theorem parseNumber_append {idx : Nat} (bound : idx < 2 ^ 32) (rest : Text)
    (ap : List (ScanArg α)) (stored : List α) :
    parseNumber ⟨formatU idx ++ ':' :: rest, ap, stored, false⟩ =
      some (idx, ⟨':' :: rest, ap, stored, false⟩) := by
  have digits := scanDigits_append (fun c member => isDigit_of_mem_formatU (n := idx) member) 0 rest
  have value : Nat.ofDigitChars 10 (formatU idx) 0 = idx := by
    simp [formatU, Nat.ofDigitChars_ten_toDigits]
  rw [value] at digits
  have sign : scanSign ((formatU idx ++ ':' :: rest).dropWhile isSpace) =
      (false, formatU idx ++ ':' :: rest) := by
    cases front : formatU idx with
    | nil => exact absurd front (formatU_ne_nil idx)
    | cons c tail =>
        exact scanSign_digit (isDigit_of_mem_formatU (n := idx) (by rw [front]; simp)) _
  have further : (':' :: rest).length ≠ (formatU idx ++ ':' :: rest).length := by
    have := List.length_pos_iff.mpr (formatU_ne_nil idx)
    rw [List.length_append]
    omega
  rw [parseNumber, sign]
  dsimp only
  rw [digits, if_neg (by simp only [further, Nat.not_le.mpr bound]; simp)]

theorem parseNumber_stale {s : Scan α} (stale : s.erange = true) : parseNumber s = none := by
  rw [parseNumber]
  exact if_pos (.inr (.inl stale))

theorem ScanKey.Valid.kind {kind : ScanKind} {key : ScanKey} (valid : key.Valid kind) :
    key.kind = kind := by
  cases kind <;> cases key <;> first | rfl | cases valid

theorem parseKey_append {kind : ScanKind} {key : ScanKey} (valid : key.Valid kind) {erange : Bool}
    (fresh : ¬ (key.kind = .arr ∧ erange = true)) (rest : Text) (ap : List (ScanArg α))
    (stored : List α) :
    parseKey kind ⟨key.text ++ ':' :: rest, ap, stored, erange⟩ =
      some (key, ⟨':' :: rest, ap, stored, erange⟩) := by
  have colon : LiteralEnds (':' :: rest) := fun c first => by
    cases first
    rfl
  cases kind with
  | obj =>
      cases key with
      | member memname => rw [parseKey, ScanKey.text, parseLiteral_append valid colon]
      | index idx => exact valid.elim
  | arr =>
      cases key with
      | member memname => exact valid.elim
      | index idx =>
          obtain rfl : erange = false := by simpa [ScanKey.kind] using fresh
          rw [parseKey, ScanKey.text, parseNumber_append valid]
          rfl

theorem parseKey_stale {kind : ScanKind} {key : ScanKey} (valid : key.Valid kind) {s : Scan α}
    (stale : key.kind = .arr ∧ s.erange = true) : parseKey kind s = none := by
  rw [← valid.kind, stale.1, parseKey, parseNumber_stale stale.2]
  rfl

mutual
def Guide.fuel : Guide α → Nat
  | .leaf _ => 1
  | .node _ entries => entries.fuel + 2

def GuideEntries.fuel : GuideEntries α → Nat
  | .last _ guide => guide.fuel + 2
  | .more _ guide rest => max (guide.fuel + 2) (rest.fuel + 1)
end

mutual
theorem Guide.fuel_le (guide : Guide α) : guide.fuel ≤ 4 * guide.text.length + 1 := by
  cases guide with
  | leaf leaf =>
      rw [Guide.fuel]
      omega
  | node kind entries =>
      have := entries.fuel_le
      rw [Guide.fuel, Guide.text, List.length_cons, List.length_append, List.length_singleton]
      omega

theorem GuideEntries.fuel_le (entries : GuideEntries α) :
    entries.fuel ≤ 4 * entries.text.length + 1 := by
  cases entries with
  | last key guide =>
      have := guide.fuel_le
      rw [GuideEntries.fuel, GuideEntries.text, List.length_append, List.length_cons]
      omega
  | more key guide rest =>
      have := guide.fuel_le
      have := rest.fuel_le
      simp only [GuideEntries.fuel, GuideEntries.text, List.length_append, List.length_cons]
      omega
end

/-- The other ways to go on start with a character that is no literal. -/
theorem parseFieldval_literal (fuel : Nat) (tok : Json) {s : Scan α}
    (plain : ∀ c ∈ s.guide.head?, c ≠ '{' ∧ c ≠ '[' ∧ c ≠ '%') :
    parseFieldval (fuel + 1) tok s = matchLiteral tok s := by
  rw [parseFieldval]
  split
  · next same => exact absurd rfl (plain _ (by rw [same]; rfl)).1
  · next same => exact absurd rfl (plain _ (by rw [same]; rfl)).2.1
  · next same => exact absurd rfl (plain _ (by rw [same]; rfl)).2.2
  · rfl

structure GuideEnds (rest : Text) : Prop where
  literal : LiteralEnds rest
  plain : ∀ c ∈ rest.head?, c ≠ '{' ∧ c ≠ '[' ∧ c ≠ '%'

theorem GuideLeaf.gives {leaf : GuideLeaf α} (valid : leaf.Valid) (fuel : Nat) (tok : Json)
    {whole front rest : Text} (here : whole = front ++ leaf.text ++ rest) (ends : GuideEnds rest)
    (ap : List (ScanArg α)) (stored : List α) (erange : Bool) :
    (parseFieldval (fuel + 1) tok ⟨leaf.text ++ rest, leaf.args ++ ap, stored, erange⟩).Gives whole
      stored rest ap (takeAll erange tok [⟨[], leaf, front ++ leaf.text⟩]) := by
  have only : takeAll erange tok [⟨[], leaf, front ++ leaf.text⟩] =
      leaf.take (front ++ leaf.text) erange tok := Taken.andThen_passed _
  rw [only]
  cases leaf with
  | percent arg =>
      have step : parseFieldval (fuel + 1) tok ⟨'%' :: rest, arg :: ap, stored, erange⟩ =
          handlePercent tok ⟨rest, arg :: ap, stored, erange⟩ := rfl
      show (parseFieldval (fuel + 1) tok ⟨'%' :: rest, arg :: ap, stored, erange⟩).Gives _ _ _ _ _
      rw [step, handlePercent, GuideLeaf.take]
      dsimp only
      rcases arg.fmt erange tok with ⟨_ | value, erange'⟩
      · exact ⟨rest, ap, erange', here, by simp⟩
      · rfl
  | literal text =>
      have plain : ∀ c ∈ (text ++ rest).head?, c ≠ '{' ∧ c ≠ '[' ∧ c ≠ '%' := by
        cases text with
        | nil => exact ends.plain
        | cons d text =>
            rintro c first
            cases first
            have literal := valid d List.mem_cons_self
            refine ⟨?_, ?_, ?_⟩ <;>
              · rintro rfl
                exact absurd literal (by decide)
      show (parseFieldval (fuel + 1) tok ⟨text ++ rest, ap, stored, erange⟩).Gives _ _ _ _ _
      rw [parseFieldval_literal fuel tok plain, matchLiteral,
        parseLiteral_append valid ends.literal, GuideLeaf.take]
      dsimp only
      split_ifs
      · simp [Scanned.Gives]
      · exact ⟨rest, ap, erange, here, by simp⟩

theorem Scanned.Gives.behind {scanned : Scanned α} {whole rest : Text} {stored values : List α}
    {ap : List (ScanArg α)} {taken : Taken α}
    (gives : scanned.Gives whole (stored ++ values) rest ap taken) :
    scanned.Gives whole stored rest ap (taken.behind values) := by
  cases taken with
  | abort => exact gives
  | failed more front errmsg =>
      obtain ⟨guide, ap', erange, cut, last⟩ := gives
      exact ⟨guide, ap', erange, cut, by rw [last, List.append_assoc]⟩
  | passed more erange =>
      show scanned = .passed ⟨rest, ap, stored ++ (values ++ more), erange⟩
      rw [← List.append_assoc]
      exact gives

theorem Scanned.Gives.andThen {scanned : Scanned α} {whole mid rest : Text} {stored : List α}
    {ap ap' : List (ScanArg α)} {next : Scan α → Scanned α} {front : Taken α}
    {back : Bool → Taken α} (first : scanned.Gives whole stored mid ap front)
    (second : ∀ stored erange,
      (next ⟨mid, ap, stored, erange⟩).Gives whole stored rest ap' (back erange)) :
    (scanned.andThen next).Gives whole stored rest ap' (front.andThen back) := by
  cases front with
  | abort =>
      rw [show scanned = .abort from first]
      rfl
  | failed values read errmsg =>
      obtain ⟨guide, ap'', erange, cut, last⟩ := first
      exact ⟨guide, ap'', erange, cut, by rw [last, Scanned.andThen]⟩
  | passed values erange =>
      rw [show scanned = .passed ⟨mid, ap, stored ++ values, erange⟩ from first]
      exact (second (stored ++ values) erange).behind

theorem guideMustBe_cons (c : Char) (guide : Text) (ap : List (ScanArg α)) (stored : List α)
    (erange : Bool) :
    guideMustBe c ⟨c :: guide, ap, stored, erange⟩ = .passed ⟨guide, ap, stored, erange⟩ := by
  simp [guideMustBe]

/-- What goes on by reading a part of the guide that asks for nothing. -/
theorem Scanned.Gives.passes {scanned : Scanned α} {whole mid rest : Text} {stored : List α}
    {ap : List (ScanArg α)} {next : Scan α → Scanned α} {taken : Taken α}
    (gives : scanned.Gives whole stored mid ap taken)
    (passes : ∀ stored erange, next ⟨mid, ap, stored, erange⟩ = .passed ⟨rest, ap, stored, erange⟩) :
    (scanned.andThen next).Gives whole stored rest ap taken := by
  have passed : (scanned.andThen next).Gives whole stored rest ap
      (taken.andThen fun erange => .passed [] erange) :=
    gives.andThen fun stored erange => by
      rw [passes]
      exact congrArg (fun stored => Scanned.passed ⟨rest, ap, stored, erange⟩)
        (List.append_nil stored).symm
  rwa [Taken.andThen_passed] at passed

theorem GuideEnds.of_mem {c : Char} (member : c ∈ [',', '}', ']']) (rest : Text) :
    GuideEnds (c :: rest) := by
  have ends : isLiteral c = false ∧ c ≠ '{' ∧ c ≠ '[' ∧ c ≠ '%' := by
    simp only [List.mem_cons, List.not_mem_nil, or_false] at member
    rcases member with rfl | rfl | rfl <;> decide
  exact ⟨fun _ first => by cases first; exact ends.1, fun _ first => by cases first; exact ends.2⟩

theorem ScanKind.guideEnds (kind : ScanKind) (rest : Text) : GuideEnds (kind.closes :: rest) :=
  .of_mem (by cases kind <;> decide) rest

theorem parseEntry_gives {kind : ScanKind} {key : ScanKey} (valid : key.Valid kind)
    {guide : Guide α} {fuel : Nat} {tok : Json} (fits : kind.fits tok = true)
    {whole front rest : Text} (opened : Text)
    (here : whole = front ++ (key.text ++ ':' :: (guide.text ++ rest)))
    {ap : List (ScanArg α)} {stored : List α} {erange : Bool}
    (below : ∀ member,
      (parseFieldval fuel member ⟨guide.text ++ rest, guide.args ++ ap, stored, erange⟩).Gives whole
        stored rest ap (takeAll erange member (guide.ways (front ++ key.text ++ [':'])))) :
    (parseEntry (fuel + 1) kind tok
        ⟨key.text ++ ':' :: (guide.text ++ rest), guide.args ++ ap, stored, erange⟩).Gives whole
      stored rest ap (takeAll erange tok (waysBelow key opened (front ++ key.text ++ [':'])
        (guide.ways (front ++ key.text ++ [':'])))) := by
  rw [← valid.kind] at fits
  rw [takeAll_below fits _ _ _ (guide.ways_ne_nil _), parseEntry]
  split_ifs with stale
  · rw [parseKey_stale valid stale]
    rfl
  · rw [parseKey_append valid stale]
    dsimp only
    rw [guideMustBe_cons, Scanned.andThen]
    cases key.get tok with
    | none => exact ⟨guide.text ++ rest, guide.args ++ ap, erange, by simp [here], by simp⟩
    | some member => exact below member

theorem GuideEntries.takeAll_misfit {kind : ScanKind} {entries : GuideEntries α}
    (valid : entries.Valid kind) {tok : Json} (misfit : ¬ kind.fits tok = true)
    (opened front : Text) (erange : Bool) :
    takeAll erange tok (entries.ways opened front) = .failed [] opened (kind.misfit tok) := by
  have head : ∃ way more steps step, entries.ways opened front = way :: more ∧
      way.steps = step :: steps ∧ step.key.Valid kind ∧ step.opened = opened := by
    cases entries with
    | last key guide =>
        obtain ⟨first, more, ways⟩ := List.exists_cons_of_ne_nil
          (guide.ways_ne_nil (front ++ key.text ++ [':']))
        exact ⟨_, _, _, _, by rw [GuideEntries.ways, ways, waysBelow], rfl, valid.1, rfl⟩
    | more key guide rest =>
        obtain ⟨first, more, ways⟩ := List.exists_cons_of_ne_nil
          (guide.ways_ne_nil (front ++ key.text ++ [':']))
        exact ⟨_, _, _, _, by rw [GuideEntries.ways, ways, waysBelow, List.cons_append], rfl,
          valid.1, rfl⟩
  obtain ⟨way, more, steps, step, ways, below, ofKind, rfl⟩ := head
  rw [ways, takeAll, below, takeAt, ofKind.kind, if_neg misfit]
  rfl

theorem parseContainer_gives {kind : ScanKind} {entries : GuideEntries α}
    (valid : entries.Valid kind) {fuel : Nat} {tok : Json} {whole front rest : Text}
    (here : whole = front ++ kind.opens :: (entries.text ++ kind.closes :: rest))
    {ap : List (ScanArg α)} {stored : List α} {erange : Bool}
    (below : kind.fits tok = true → (parseEntries fuel kind tok
        ⟨entries.text ++ kind.closes :: rest, entries.args ++ ap, stored, erange⟩).Gives whole
      stored (kind.closes :: rest) ap
      (takeAll erange tok (entries.ways (front ++ [kind.opens]) (front ++ [kind.opens])))) :
    (parseContainer (fuel + 1) kind tok
        ⟨kind.opens :: (entries.text ++ kind.closes :: rest), entries.args ++ ap, stored,
          erange⟩).Gives whole stored rest ap
      (takeAll erange tok (entries.ways (front ++ [kind.opens]) (front ++ [kind.opens]))) := by
  rw [parseContainer, guideMustBe_cons, Scanned.andThen]
  split_ifs with fits
  · exact (below fits).passes fun stored erange => guideMustBe_cons kind.closes rest ap stored erange
  · rw [GuideEntries.takeAll_misfit valid fits]
    exact ⟨entries.text ++ kind.closes :: rest, entries.args ++ ap, erange, by simp [here], by simp⟩

theorem ScanKind.closes_ne_comma (kind : ScanKind) : kind.closes ≠ ',' := by
  cases kind <;> decide

theorem parseEntries_last {kind : ScanKind} {fuel : Nat} {tok : Json} {s : Scan α}
    {whole rest : Text} {stored : List α} {ap : List (ScanArg α)} {taken : Taken α}
    (entry : (parseEntry fuel kind tok s).Gives whole stored (kind.closes :: rest) ap taken) :
    (parseEntries (fuel + 1) kind tok s).Gives whole stored (kind.closes :: rest) ap taken := by
  rw [parseEntries]
  refine entry.passes fun stored erange => ?_
  dsimp only
  split
  · next same => exact absurd (List.cons.inj same).1 kind.closes_ne_comma
  · rfl

mutual
theorem Guide.gives (guide : Guide α) (valid : guide.Valid) {fuel : Nat}
    (enough : guide.fuel ≤ fuel) (tok : Json) {whole front rest : Text}
    (here : whole = front ++ guide.text ++ rest) (ends : GuideEnds rest) (ap : List (ScanArg α))
    (stored : List α) (erange : Bool) :
    (parseFieldval fuel tok ⟨guide.text ++ rest, guide.args ++ ap, stored, erange⟩).Gives whole
      stored rest ap (takeAll erange tok (guide.ways front)) := by
  cases guide with
  | leaf leaf =>
      obtain ⟨fuel, rfl⟩ : ∃ n, fuel = n + 1 := ⟨fuel - 1, by rw [Guide.fuel] at enough; omega⟩
      exact leaf.gives valid fuel tok here ends ap stored erange
  | node kind entries =>
      rw [Guide.fuel] at enough
      obtain ⟨fuel, rfl⟩ : ∃ n, fuel = n + 2 := ⟨fuel - 2, by omega⟩
      have text : (Guide.node kind entries).text ++ rest =
          kind.opens :: (entries.text ++ kind.closes :: rest) := by
        rw [Guide.text, List.cons_append, List.append_assoc, List.singleton_append]
      rw [List.append_assoc, text] at here
      have container := parseContainer_gives valid here fun fits : kind.fits tok = true =>
        entries.gives valid (by omega : entries.fuel ≤ fuel) fits (by simp [here]) ap stored erange
      rw [text]
      cases kind <;> exact container

theorem GuideEntries.gives {kind : ScanKind} (entries : GuideEntries α)
    (valid : entries.Valid kind) {fuel : Nat} (enough : entries.fuel ≤ fuel) {tok : Json}
    (fits : kind.fits tok = true) {whole opened front rest : Text}
    (here : whole = front ++ entries.text ++ kind.closes :: rest) (ap : List (ScanArg α))
    (stored : List α) (erange : Bool) :
    (parseEntries fuel kind tok
        ⟨entries.text ++ kind.closes :: rest, entries.args ++ ap, stored, erange⟩).Gives whole
      stored (kind.closes :: rest) ap (takeAll erange tok (entries.ways opened front)) := by
  cases entries with
  | last key guide =>
      rw [GuideEntries.fuel] at enough
      obtain ⟨fuel, rfl⟩ : ∃ n, fuel = n + 2 := ⟨fuel - 2, by omega⟩
      have text : (GuideEntries.last key guide).text ++ kind.closes :: rest =
          key.text ++ ':' :: (guide.text ++ kind.closes :: rest) := by
        rw [GuideEntries.text, List.append_assoc, List.cons_append]
      rw [List.append_assoc, text] at here
      rw [text]
      exact parseEntries_last (parseEntry_gives valid.1 fits opened here fun member =>
        guide.gives valid.2 (by omega : guide.fuel ≤ fuel) member (by simp [here])
          (kind.guideEnds rest) ap stored erange)
  | more key guide more =>
      rw [GuideEntries.fuel] at enough
      obtain ⟨fuel, rfl⟩ : ∃ n, fuel = n + 2 := ⟨fuel - 2, by omega⟩
      have comma : GuideEnds (',' :: (more.text ++ kind.closes :: rest)) :=
        .of_mem (by decide) _
      have text : (GuideEntries.more key guide more).text ++ kind.closes :: rest =
          key.text ++ ':' :: (guide.text ++ ',' :: (more.text ++ kind.closes :: rest)) := by
        simp [GuideEntries.text]
      rw [List.append_assoc, text] at here
      have entry := parseEntry_gives valid.1 fits opened here fun member =>
        guide.gives valid.2.1 (by omega : guide.fuel ≤ fuel) member (by simp [here]) comma
          (more.args ++ ap) stored erange
      rw [text, GuideEntries.args, List.append_assoc, GuideEntries.ways, takeAll_append,
        parseEntries]
      exact entry.andThen fun stored' erange' =>
        more.gives valid.2.2 (by omega : more.fuel ≤ fuel + 1) fits (by simp [here]) ap stored'
          erange'
end

theorem parseGuide_eq {guide : Guide α} (top : ∀ text, guide ≠ .leaf (.literal text)) (fuel : Nat)
    (tok : Json) (erange : Bool) : parseGuide fuel tok ⟨guide.text, guide.args, [], erange⟩ =
      parseFieldval (fuel + 1) tok ⟨guide.text, guide.args, [], erange⟩ := by
  cases guide with
  | leaf leaf =>
      cases leaf with
      | percent arg => rfl
      | literal text => exact absurd rfl (top text)
  | node kind entries => cases kind <;> rfl

theorem Guide.parses {guide : Guide α} (valid : guide.Valid)
    (top : ∀ text, guide ≠ .leaf (.literal text)) (tok : Json) (erange : Bool) :
    (parseGuide (4 * guide.text.length + 4) tok ⟨guide.text, guide.args, [], erange⟩).Gives
      guide.text [] [] [] (takeAll erange tok (guide.ways [])) := by
  have enough : guide.fuel ≤ 4 * guide.text.length + 5 := by
    have := guide.fuel_le
    omega
  have ends : GuideEnds [] := ⟨by simp [LiteralEnds], by simp⟩
  have here : guide.text = [] ++ guide.text ++ [] := by simp
  have gives := guide.gives valid enough tok here ends [] [] erange
  rw [List.append_nil, List.append_nil, ← parseGuide_eq top] at gives
  exact gives

theorem jsonScan_eq (erange : Bool) (tok : Json) {guide : Guide α} (valid : guide.Valid)
    (top : ∀ text, guide ≠ .leaf (.literal text)) :
    jsonScan erange tok guide.text guide.args = (takeAll erange tok (guide.ways [])).answer := by
  have gives := guide.parses valid top tok erange
  rw [jsonScan]
  cases taken : takeAll erange tok (guide.ways []) with
  | abort =>
      rw [taken] at gives
      rw [show parseGuide _ tok _ = _ from gives]
      rfl
  | passed values erange' =>
      rw [taken] at gives
      rw [show parseGuide _ tok _ = _ from gives]
      rfl
  | failed values front errmsg =>
      rw [taken] at gives
      obtain ⟨left, ap, erange', cut, last⟩ := gives
      have read : guide.text.take (guide.text.length - left.length) = front := by
        rw [cut, List.length_append, Nat.add_sub_cancel, List.take_left]
      rw [last]
      dsimp only
      rw [read]
      rfl

/-- A guide of the grammar is read to its end: what its leaves ask for is stored in their order, up
    to the first that is not there or not as it should be.  The message is about that one and shows
    the guide as far as it has been read there.  Only an `errno` that a converter has left, or that
    was there before, stops the scan at an assertion. -/
theorem json_scan_reads_guide (erange : Bool) (tok : Json) {guide : Guide α} (valid : guide.Valid)
    (top : ∀ text, guide ≠ .leaf (.literal text)) :
    jsonScan erange tok guide.text guide.args = (takeAll erange tok (guide.ways [])).answer ∧
      (erange = false → (∀ arg ∈ guide.args, arg.Quiet) →
        jsonScan erange tok guide.text guide.args ≠ none) := by
  have reads := jsonScan_eq erange tok valid top
  refine ⟨reads, ?_⟩
  rintro rfl quiet
  rw [reads]
  exact (takeAll_quiet (guide.quiet quiet []) tok).answer

/-- The second element is not what the guide says, and the rest of the guide is not read. -/
theorem json_scan_reads_guide_literal :
    jsonScan false (.object "\x7b\"a\":[1,true]\x7d".toList [("a".toList,
      .array "[1,true]".toList [.primitive "1".toList, .primitive "true".toList])])
      "\x7ba:[0:%,1:false],b:%\x7d".toList [scanU64, scanU64] =
    some (some "Parsing '\x7ba:[0:%,1:false': true does not match expected false".toList, [1]) := by
  have zero : ScanKey.Valid .arr (.index 0) := by
    show 0 < 2 ^ 32
    decide
  have one : ScanKey.Valid .arr (.index 1) := by
    show 1 < 2 ^ 32
    decide
  have literal : ∀ text : Text, text.all isLiteral = true → ∀ c ∈ text, isLiteral c = true :=
    fun _ all => List.all_eq_true.mp all
  have valid : (Guide.node .obj (.more (.member "a".toList) (.node .arr
      (.more (.index 0) (.leaf (.percent scanU64))
        (.last (.index 1) (.leaf (.literal "false".toList)))))
      (.last (.member "b".toList) (.leaf (.percent scanU64))))).Valid :=
    ⟨literal "a".toList (by decide), ⟨zero, trivial, one, literal "false".toList (by decide)⟩,
      literal "b".toList (by decide), trivial⟩
  exact (json_scan_reads_guide false
    (.object "\x7b\"a\":[1,true]\x7d".toList [("a".toList,
      .array "[1,true]".toList [.primitive "1".toList, .primitive "true".toList])]) valid
    (fun text same => nomatch same)).1

end Payz
