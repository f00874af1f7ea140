import CommandGrammar.Proofs.Folding
import CommandGrammar.Proofs.Recording

/-!
# Lines in pieces

A line is written in pieces: keywords in any case, single characters such as brackets and separators, and quoted
texts, with blanks between them and the end of the text behind them. What a recording run makes of a piece
depends on its state and its captures alone, so the run can be followed piece by piece without any text:
`Table.walk` computes where a line leads and which trace it leaves.

* `Written` — the texts of a line; `written_of_plain` writes one of them.
* `Table.step?`, `Table.walk` — what a table makes of pieces.
* `Token.lexeme?_of_ignores`, `Token.Fits.takes` — what a token makes of a piece in a text.
* `Parser.parse_written` — a run on a text of a line goes where the pieces lead.
-/

namespace CommandGrammar

open Text

/-! ## Lines and their texts -/

/-- What may stand behind a keyword: a blank, a separator, a quote or a mark. -/
def isBreak (c : Char) : Bool :=
  isBlank c || isSeparator c || c == '"' || c == '=' || c == '[' || c == ']'

/-- A piece of a line. -/
inductive Piece where
  /-- A keyword, given in small letters. -/
  | keyword (word : String)
  /-- A single character. -/
  | mark (c : Char)
  /-- A text between quotes. -/
  | quoted (text : String)
  /-- The end of the text. -/
  | theEnd
  deriving DecidableEq, Repr

/-- `piece.Stands taken rest`: `taken` is how the piece may stand in a text in front of `rest`. -/
inductive Piece.Stands : Piece → (taken rest : List Char) → Prop where
  /-- A keyword stands there in any case of its ASCII letters, and it ends where it ends. -/
  | keyword {word : String} {taken rest : List Char} (spelled : foldCase taken = word.toList)
    (ends : ∀ c ∈ rest.head?, isBreak c = true) : Stands (.keyword word) taken rest
  | mark {c : Char} {rest : List Char} : Stands (.mark c) [c] rest
  | quoted {text : String} {rest : List Char} (quotable : Quotable text.toList) :
    Stands (.quoted text) ('"' :: text.toList ++ ['"']) rest
  | theEnd : Stands .theEnd [] []

/-- The texts of a line: its pieces in order, with any blanks in front of each. The last piece, and no other,
is the end of the text. -/
inductive Written : List Piece → List Char → Prop where
  | theEnd : Written [.theEnd] []
  | blank {line : List Piece} {b : Char} {text : List Char} (hb : isBlank b = true)
    (h : Written line text) : Written line (b :: text)
  | next {piece : Piece} {line : List Piece} {taken rest : List Char} (hpiece : piece ≠ .theEnd)
    (stands : piece.Stands taken rest) (h : Written line rest) : Written (piece :: line) (taken ++ rest)

/-! ## Writing lines -/

/-- How a piece is written in small letters. -/
def Piece.chars : Piece → List Char
  | .keyword word => word.toList
  | .mark c => [c]
  | .quoted text => '"' :: text.toList ++ ['"']
  | .theEnd => []

/-- A piece in front of the end of a text that may be written as it is. -/
def Piece.Plain : Piece → Prop
  | .keyword word => foldCase word.toList = word.toList
  | .mark _ => True
  | .quoted text => Quotable text.toList
  | .theEnd => False

/-- Plain pieces may be written with a blank behind each. -/
theorem written_of_plain {pieces : List Piece} (h : ∀ piece ∈ pieces, piece.Plain) :
    Written (pieces ++ [.theEnd]) (pieces.flatMap fun piece => piece.chars ++ [' ']) := by
  induction pieces with
  | nil => exact .theEnd
  | cons piece pieces ih =>
    obtain ⟨hpiece, hpieces⟩ := List.forall_mem_cons.mp h
    have hrest := Written.blank (b := ' ') rfl (ih hpieces)
    rw [List.flatMap_cons, List.append_assoc]
    cases piece with
    | keyword word => exact .next nofun (.keyword hpiece (by simp; rfl)) hrest
    | mark c => exact .next nofun .mark hrest
    | quoted text => exact .next nofun (.quoted hpiece) hrest
    | theEnd => exact hpiece.elim

/-! ## Literals beside other texts -/

/-- Whether two ASCII characters differ in more than their case. -/
def differ (c d : Char) : Bool := c.toNat < 0x80 && d.toNat < 0x80 && c.toLower != d.toLower

/-- Whether a literal cannot be read where another keyword and then a break stand. -/
def clashes : (word literal : List Char) → Bool
  | _, [] => false
  | [], d :: _ => d.toNat < 0x80 && !isBreak d
  | c :: word, d :: literal =>
    differ c d || (c.toNat < 0x80 && d.toNat < 0x80 && clashes word literal)

theorem isBreak_toLower (c : Char) : isBreak c.toLower = isBreak c :=
  apply_toLower (by decide) c

theorem ascii_of_isBreak {c : Char} (h : isBreak c = true) : c.toNat < 0x80 := by
  simp only [isBreak, isBlank, isSeparator, Bool.or_eq_true, beq_iff_eq, or_assoc] at h
  rcases h with rfl | rfl | rfl | rfl | rfl | rfl | rfl | rfl <;> decide

/-- An ASCII character has a small form of its own. -/
theorem lowerAfter_cons {c : Char} (hc : c.toNat < 0x80) (b : Bool) (cs : List Char) :
    ∃ b', lowerAfter b (c :: cs) = c.toLower :: lowerAfter b' cs := by
  have hsigma : ¬c.toNat = 0x3A3 := by omega
  refine ⟨if isCaseIgnorable c then b else isCased c, ?_⟩
  simp only [lowerAfter, lowerChar, if_pos hc, if_neg hsigma, List.singleton_append]

theorem lowerAfter_cons_ne {c d : Char} (h : differ c d = true) (b b' : Bool) (cs ds : List Char) :
    lowerAfter b (c :: cs) ≠ lowerAfter b' (d :: ds) := by
  simp only [differ, Bool.and_eq_true, decide_eq_true_eq, bne_iff_ne] at h
  obtain ⟨⟨hc, hd⟩, hne⟩ := h
  obtain ⟨_, hcs⟩ := lowerAfter_cons hc b cs
  obtain ⟨_, hds⟩ := lowerAfter_cons hd b' ds
  rw [hcs, hds]
  exact fun heq => hne (List.cons.inj heq).1

/-- **A literal that clashes differs in its small form** from as many characters as it has, unless the text is
shorter. -/
theorem lowerAfter_ne_of_clashes {word literal rest : List Char} (h : clashes word literal = true)
    (hrest : ∀ c ∈ rest.head?, isBreak c = true) (b b' : Bool)
    (hlength : ((word ++ rest).take literal.length).length = literal.length) :
    lowerAfter b ((word ++ rest).take literal.length) ≠ lowerAfter b' literal := by
  induction word generalizing literal b b' with
  | nil =>
    cases literal with
    | nil => cases h
    | cons d literal =>
      cases rest with
      | nil => simp at hlength
      | cons c rest =>
        have hbreak := hrest c rfl
        simp only [clashes, Bool.and_eq_true, decide_eq_true_eq, Bool.not_eq_true'] at h
        refine lowerAfter_cons_ne ?_ b b' _ literal
        simp only [differ, Bool.and_eq_true, decide_eq_true_eq, bne_iff_ne]
        refine ⟨⟨ascii_of_isBreak hbreak, h.1⟩, fun heq => ?_⟩
        rw [← isBreak_toLower, ← heq, isBreak_toLower, hbreak] at h
        simp at h
  | cons c word ih =>
    cases literal with
    | nil => cases h
    | cons d literal =>
      simp only [clashes, Bool.or_eq_true, Bool.and_eq_true, decide_eq_true_eq] at h
      rcases h with h | ⟨⟨hc, hd⟩, h⟩
      · exact lowerAfter_cons_ne h b b' _ literal
      · simp only [List.cons_append, List.length_cons, List.take_succ_cons, Nat.add_right_cancel_iff]
          at hlength ⊢
        obtain ⟨x, hx⟩ := lowerAfter_cons hc b ((word ++ rest).take literal.length)
        obtain ⟨y, hy⟩ := lowerAfter_cons hd b' literal
        rw [hx, hy]
        exact fun heq => ih h x y hlength (List.cons.inj heq).2

/-! ## Tokens and pieces -/

namespace Token

/-- Whether the keyword of a literal starts with another character. -/
def startsOther (c : Char) : List Char → Bool
  | [] => false
  | d :: _ => differ c d

/-- Whether a token takes nothing where a piece stands. -/
def ignores (token : Token) : Piece → Bool
  | .keyword word =>
    match token.kind with
    | .literal => clashes word.toList token.keyword
    | .word | .string => false
    | .commandEnd => word.toList.head?.any fun c => !isSeparator c
  | .mark c =>
    match token.kind with
    | .literal => startsOther c token.keyword
    | .word => isWordDelimiter c
    | .string => isSeparator c
    | .commandEnd => !isSeparator c
  | .quoted _ =>
    match token.kind with
    | .literal => startsOther '"' token.keyword
    | .word | .string => false
    | .commandEnd => true
  | .theEnd =>
    match token.kind with
    | .literal => !token.keyword.isEmpty
    | .word | .string => true
    | .commandEnd => false

/-- The lexeme that a token makes of a piece, if it takes exactly that piece. -/
def take? (token : Token) : Piece → Option Lexeme
  | .keyword word =>
    match token.kind with
    | .literal =>
      if token.text = some word ∧ (word.toList.head?.any fun c => !isBlank c) then
        some { value := some word, consumed := word.toList.length }
      else none
    | .word | .string | .commandEnd => none
  | .mark c =>
    match token.kind with
    | .literal =>
      if token.text = some (String.singleton c) ∧ isBlank c = false then
        some { value := some (String.singleton c), consumed := 1 }
      else none
    | .word | .string => none
    | .commandEnd =>
      if isSeparator c then some { value := none, consumed := 1, terminator := some c } else none
  | .quoted text =>
    match token.kind with
    | .word | .string => some { value := some text, consumed := text.toList.length + 2 }
    | .literal | .commandEnd => none
  | .theEnd =>
    match token.kind with
    | .commandEnd => some { value := none, consumed := 1 }
    | .literal | .word | .string => none

variable {token : Token} {piece : Piece} {taken rest : List Char} {lexeme : Lexeme}

theorem literal?_of_startsOther {c : Char} {keyword : String} (h : startsOther c keyword.toList = true) :
    Lexeme.literal? keyword (c :: rest) = none := by
  unfold Lexeme.literal?
  refine if_neg fun hand => ?_
  cases hk : keyword.toList with
  | nil => rw [hk] at h; cases h
  | cons d ds =>
    rw [hk] at h hand
    exact lowerAfter_cons_ne h false false _ ds hand.2

theorem freeText?_cons {delimiter : Char → Bool} {c : Char} (hq : c ≠ '"') (hd : delimiter c = true) :
    Lexeme.freeText? delimiter (c :: rest) = none := by
  unfold Lexeme.freeText?
  split
  · next heq => exact absurd (List.cons.inj heq).1 hq
  · simp [Lexeme.bare?, hd]

theorem literal?_of_clashes {word : List Char} {keyword : String}
    (h : clashes word keyword.toList = true) (hrest : ∀ c ∈ rest.head?, isBreak c = true) :
    Lexeme.literal? keyword (word ++ rest) = none := by
  unfold Lexeme.literal?
  exact if_neg fun hand => lowerAfter_ne_of_clashes h hrest false false hand.1 hand.2

theorem literal?_nil {keyword : String} (h : (!keyword.toList.isEmpty) = true) :
    Lexeme.literal? keyword [] = none := by
  unfold Lexeme.literal?
  refine if_neg fun hand => ?_
  have hempty : keyword.toList = [] := by simpa using hand.1.symm
  simp [hempty] at h

theorem commandEnd?_cons {c : Char} (h : isSeparator c = false) :
    Lexeme.commandEnd? (c :: rest) = none := by
  simp [Lexeme.commandEnd?, h]

/-- What stands for a keyword in any case stands for it in small letters, as far as the tokens see. -/
theorem lexeme?_keyword {word : String} (spelled : foldCase taken = word.toList) :
    (token.lexeme? (taken ++ rest)).map token.fold = token.lexeme? (word.toList ++ foldCase rest) := by
  rw [← lexeme?_foldCase, ← spelled]
  congr 1
  exact List.map_append

theorem isBreak_head?_foldCase (h : ∀ c ∈ rest.head?, isBreak c = true) :
    ∀ c ∈ (foldCase rest).head?, isBreak c = true := by
  cases rest with
  | nil => simp [foldCase]
  | cons d rest =>
    intro c hc
    obtain rfl : d.toLower = c := by simpa [foldCase] using hc
    rw [isBreak_toLower]
    exact h d rfl

/-- **A token takes nothing where a piece stands that it ignores.** -/
theorem lexeme?_of_ignores (hstands : piece.Stands taken rest) (h : token.ignores piece = true) :
    token.lexeme? (taken ++ rest) = none := by
  revert h
  cases hstands with
  | @keyword word _ _ spelled ends =>
    rw [← Option.map_eq_none_iff (f := token.fold), lexeme?_keyword spelled]
    unfold ignores lexeme?
    cases token.kind with
    | literal => exact fun h => literal?_of_clashes h (isBreak_head?_foldCase ends)
    | word | string => exact nofun
    | commandEnd =>
      intro h
      cases hword : word.toList with
      | nil => simp [hword] at h
      | cons c cs => exact commandEnd?_cons (by simpa [hword] using h)
  | mark =>
    unfold ignores lexeme?
    cases token.kind with
    | literal => exact literal?_of_startsOther
    | word | string => exact fun h => freeText?_cons (by rintro rfl; cases h) h
    | commandEnd => exact fun h => commandEnd?_cons (by simpa using h)
  | quoted =>
    unfold ignores lexeme?
    cases token.kind with
    | literal => exact literal?_of_startsOther
    | word | string => exact nofun
    | commandEnd => exact fun _ => commandEnd?_cons rfl
  | theEnd =>
    unfold ignores lexeme?
    cases token.kind with
    | literal => exact literal?_nil
    | word | string => exact fun _ => rfl
    | commandEnd => exact nofun

/-- A token and a piece that it takes, with the lexeme that it makes of the piece. -/
inductive Fits (token : Token) : Piece → Lexeme → Prop where
  | keyword {word : String} (kind : token.kind = .literal) (text : token.text = some word)
    (starts : (word.toList.head?.any fun c => !isBlank c) = true) :
    Fits token (.keyword word) { value := some word, consumed := word.toList.length }
  | mark {c : Char} (kind : token.kind = .literal) (text : token.text = some (String.singleton c))
    (starts : isBlank c = false) :
    Fits token (.mark c) { value := some (String.singleton c), consumed := 1 }
  | separator {c : Char} (kind : token.kind = .commandEnd) (hc : isSeparator c = true) :
    Fits token (.mark c) { value := none, consumed := 1, terminator := some c }
  | word {text : String} (kind : token.kind = .word) :
    Fits token (.quoted text) { value := some text, consumed := text.toList.length + 2 }
  | string {text : String} (kind : token.kind = .string) :
    Fits token (.quoted text) { value := some text, consumed := text.toList.length + 2 }
  | theEnd (kind : token.kind = .commandEnd) : Fits token .theEnd { value := none, consumed := 1 }

theorem fits_of_take? (h : token.take? piece = some lexeme) : token.Fits piece lexeme := by
  unfold take? at h
  cases piece with
  | keyword word =>
    cases hk : token.kind with
    | literal =>
      simp only [hk, Option.ite_none_right_eq_some, Option.some.injEq] at h
      obtain ⟨⟨htext, hstarts⟩, rfl⟩ := h
      exact .keyword hk htext hstarts
    | word | string | commandEnd => simp [hk] at h
  | mark c =>
    cases hk : token.kind with
    | literal =>
      simp only [hk, Option.ite_none_right_eq_some, Option.some.injEq] at h
      obtain ⟨⟨htext, hstarts⟩, rfl⟩ := h
      exact .mark hk htext hstarts
    | word | string => simp [hk] at h
    | commandEnd =>
      simp only [hk, Option.ite_none_right_eq_some, Option.some.injEq] at h
      obtain ⟨hc, rfl⟩ := h
      exact .separator hk hc
  | quoted text =>
    cases hk : token.kind with
    | literal | commandEnd => simp [hk] at h
    | word =>
      obtain rfl : _ = lexeme := by simpa [hk] using h
      exact .word hk
    | string =>
      obtain rfl : _ = lexeme := by simpa [hk] using h
      exact .string hk
  | theEnd =>
    cases hk : token.kind with
    | literal | word | string => simp [hk] at h
    | commandEnd =>
      obtain rfl : _ = lexeme := by simpa [hk] using h
      exact .theEnd hk

/-- **A token takes a piece that fits it**, wherever it stands. -/
theorem Fits.takes (h : token.Fits piece lexeme) (hstands : piece.Stands taken rest) :
    token.Takes taken rest ∧ token.lexemeOf taken = lexeme := by
  cases h with
  | @keyword word kind text =>
    obtain ⟨spelled, -⟩ := hstands
    have hkeyword : token.keyword = word.toList := by simp [Token.keyword, text]
    have hlength : taken.length = word.toList.length := by rw [← spelled, length_foldCase]
    refine ⟨.keyword kind (by rw [hkeyword, hlength]) ?_, by simp [lexemeOf, value?, kind, text, hlength]⟩
    rw [hkeyword, ← spelled, lower_foldCase]
  | mark kind text =>
    cases hstands
    exact ⟨.keyword kind (by simp [Token.keyword, text]) (by simp [Token.keyword, text]),
      by simp [lexemeOf, value?, kind, text]⟩
  | separator kind hc =>
    cases hstands
    exact ⟨.separator kind hc, by simp [lexemeOf, value?, kind]⟩
  | word kind | string kind =>
    cases hstands with
    | quoted quotable =>
      obtain ⟨delimiter, hd⟩ : ∃ delimiter, token.kind.delimiter? = some delimiter :=
        ⟨_, by rw [kind]; rfl⟩
      exact ⟨.quoted hd quotable, by rw [lexemeOf_of_quoted hd, String.ofList_toList]⟩
  | theEnd kind =>
    cases hstands
    exact ⟨.endOfText kind, by simp [lexemeOf, value?, kind]⟩

theorem Fits.lexeme? (h : token.Fits piece lexeme) (hstands : piece.Stands taken rest) :
    token.lexeme? (taken ++ rest) = some lexeme := by
  obtain ⟨htakes, hlexeme⟩ := h.takes hstands
  exact lexeme?_eq_some_iff.mpr ⟨taken, rest, rfl, htakes, hlexeme.symm⟩

/-- A piece that is taken starts with no blank. -/
theorem Fits.isBlank (h : token.Fits piece lexeme) (hstands : piece.Stands taken rest) :
    ∀ c ∈ (taken ++ rest).head?, isBlank c = false := by
  intro d hd
  cases h with
  | keyword kind text starts =>
    obtain ⟨spelled, -⟩ := hstands
    rw [← spelled] at starts
    cases taken with
    | nil => simp [foldCase] at starts
    | cons c taken =>
      obtain rfl : c = d := by simpa using hd
      simpa [foldCase, isBlank_toLower] using starts
  | @mark c kind text starts =>
    cases hstands
    obtain rfl : c = d := by simpa using hd
    exact starts
  | @separator c kind hc =>
    cases hstands
    obtain rfl : c = d := by simpa using hd
    simp only [isSeparator, Bool.or_eq_true, beq_iff_eq] at hc
    rcases hc with rfl | rfl <;> rfl
  | word | string =>
    cases hstands
    obtain rfl : '"' = d := by simpa using hd
    rfl
  | theEnd =>
    cases hstands
    cases hd

/-- A token takes as many characters as the piece has; the end of the text counts as one. -/
theorem Fits.consumed (h : token.Fits piece lexeme) (hstands : piece.Stands taken rest) :
    piece ≠ .theEnd ∧ lexeme.consumed = taken.length
      ∨ piece = .theEnd ∧ taken = [] ∧ rest = [] ∧ lexeme.consumed = 1 := by
  cases h with
  | keyword =>
    obtain ⟨spelled, -⟩ := hstands
    exact Or.inl ⟨nofun, by rw [← spelled, length_foldCase]⟩
  | mark | separator =>
    cases hstands
    exact Or.inl ⟨nofun, rfl⟩
  | word | string =>
    cases hstands
    exact Or.inl ⟨nofun, by simp⟩
  | theEnd =>
    cases hstands
    exact Or.inr ⟨rfl, rfl, rfl, rfl⟩

/-- **The first token that does not ignore a piece is the one chosen**, if the piece fits it. -/
theorem choose?_of_fits {tokens : List Token} (h : token.Fits piece lexeme)
    (hfind : tokens.find? (fun u => !u.ignores piece) = some token) (hstands : piece.Stands taken rest) :
    choose? tokens (taken ++ rest) = some (token, lexeme) := by
  obtain ⟨-, before, after, rfl, hbefore⟩ := List.find?_eq_some_iff_append.mp hfind
  refine choose?_eq_some_iff.mpr ⟨before, after, rfl, fun u hu => ?_, h.lexeme? hstands⟩
  exact lexeme?_of_ignores hstands (by simpa using hbefore u hu)

end Token

/-! ## Following a line through a table -/

theorem Trace.mk_append (calls more : List Call) (m n : Nat) :
    (⟨calls, m⟩ : Trace) ++ ⟨more, n⟩ = ⟨calls ++ more, m + n⟩ := rfl

/-- Where a run stands between two pieces: its state and the captures held. -/
structure Spot where
  state : StateName
  held : List (String × String)
  deriving DecidableEq, Repr

/-- The captures with that of a token behind them, if there is room for it and it is held already under no
identifier. -/
def Token.heldBehind? (token : Token) (lexeme : Lexeme) (room : Nat) (held : List (String × String)) :
    Option (List (String × String)) :=
  match token.capture? lexeme with
  | none => some held
  | some (identifier, value) =>
    if identifier ∉ held.map Prod.fst ∧ held.length < room then some (held ++ [(identifier, value)])
    else none

namespace Table

variable (t : Table)

/-- What a token adds to a trace when the captures are held that it leaves. -/
def recorded (token : Token) (lexeme : Lexeme) (held : List (String × String)) : Trace where
  calls := match token.transition with
    | .goto _ => []
    | .invoke action _ => (t.actionName action).toOption.toList.map (⟨·, held⟩)
  boundaries := if token.kind = .commandEnd ∧ lexeme.completesCommand then 1 else 0

/-- Where a piece leads and what is recorded on the way: the first token of the state that does not ignore the
piece has to take it. -/
def step? (room : Nat) (spot : Spot) (piece : Piece) : Option (Spot × Trace) := do
  let tokens ← t.states.get? spot.state
  let token ← tokens.find? fun u => !u.ignores piece
  let lexeme ← token.take? piece
  let held ← token.heldBehind? lexeme room spot.held
  return (⟨t.target token.transition, if t.resets token.transition then [] else held⟩,
    t.recorded token lexeme held)

/-- Where pieces lead one after another. -/
def walk (room : Nat) : Spot → List Piece → Option (Spot × Trace)
  | spot, [] => some (spot, {})
  | spot, piece :: pieces => do
    let (next, x) ← t.step? room spot piece
    let (last, y) ← walk room next pieces
    return (last, x ++ y)

variable {t} {room : Nat} {spot next last : Spot} {x y : Trace}

theorem walk_cons {piece : Piece} {line : List Piece} (h : t.walk room spot (piece :: line) = some (last, x)) :
    ∃ next y, t.step? room spot piece = some (next, y) ∧ ∃ z, t.walk room next line = some (last, z)
      ∧ x = y ++ z := by
  simp only [walk, Option.bind_eq_bind, Option.bind_eq_some_iff, Option.pure_def, Option.some.injEq,
    Prod.mk.injEq, Prod.exists] at h
  obtain ⟨next, y, hstep, _, z, hwalk, rfl, rfl⟩ := h
  exact ⟨next, y, hstep, z, hwalk, rfl⟩

theorem walk_of_step {piece : Piece} {line : List Piece} (h : t.step? room spot piece = some (next, x))
    (hline : t.walk room next line = some (last, y)) :
    t.walk room spot (piece :: line) = some (last, x ++ y) := by
  simp only [walk, Option.bind_eq_bind, h, hline, Option.bind_some, Option.pure_def]

/-- **Lines may be followed part by part.** -/
theorem walk_append {pieces more : List Piece} (h : t.walk room spot pieces = some (next, x))
    (hmore : t.walk room next more = some (last, y)) :
    t.walk room spot (pieces ++ more) = some (last, x ++ y) := by
  induction pieces generalizing spot x with
  | nil =>
    obtain ⟨rfl, rfl⟩ := Prod.mk.inj (Option.some.inj h)
    rw [List.nil_append, hmore, Trace.empty_append]
  | cons piece pieces ih =>
    obtain ⟨spot', y', hstep, z, hwalk, rfl⟩ := walk_cons h
    rw [List.cons_append, Trace.append_assoc]
    exact walk_of_step hstep (ih hwalk)

end Table

/-! ## Recording runs on lines -/

/-- A step on a chosen token that nothing stops performs the token and moves on, or is complete where the token
takes more than there is. -/
theorem Machine.step_of_performed {σ ρ ε : Type} {m : Machine σ ρ ε} {c : Config σ} {tokens : List Token}
    {token : Token} {lexeme : Lexeme} (ht : m.table.tokens c.state = .ok tokens)
    (hchoose : choose? tokens c.skipBlanks.rest = some (token, lexeme))
    (hending : (m.perform token lexeme c.skipBlanks).ending = none) :
    (m.step c).config = (m.perform token lexeme c.skipBlanks).config.moved lexeme
      ∧ (m.step c).ending
        = if lexeme.consumed ≤ c.skipBlanks.rest.length then none else some .complete := by
  have hs := m.stepped c
  generalize m.step c = q at hs ⊢
  cases hs with
  | lost ht' => cases ht.symm.trans ht'
  | unmatched ht' hc' =>
    obtain rfl := Except.ok.inj (ht.symm.trans ht')
    cases hchoose.symm.trans hc'
  | cut ht' hc' he =>
    obtain rfl := Except.ok.inj (ht.symm.trans ht')
    obtain ⟨rfl, rfl⟩ := Prod.mk.inj (Option.some.inj (hchoose.symm.trans hc'))
    cases hending.symm.trans he
  | moved ht' hc' _ hle =>
    obtain rfl := Except.ok.inj (ht.symm.trans ht')
    obtain ⟨rfl, rfl⟩ := Prod.mk.inj (Option.some.inj (hchoose.symm.trans hc'))
    exact ⟨rfl, (if_pos hle).symm⟩
  | completed ht' hc' _ hlt =>
    obtain rfl := Except.ok.inj (ht.symm.trans ht')
    obtain ⟨rfl, rfl⟩ := Prod.mk.inj (Option.some.inj (hchoose.symm.trans hc'))
    exact ⟨rfl, (if_neg (Nat.not_le_of_lt hlt)).symm⟩

namespace Parser

variable {t : Table} {c : Config Trace} {token : Token} {lexeme : Lexeme}

/-- A recording hook adds a boundary where a command is completed. -/
theorem environment_signal (t : Table) (token : Token) (lexeme : Lexeme) (c : Config Trace) :
    ((tracing t).signal token lexeme c).config.environment = c.environment
      ++ { boundaries := if token.kind = .commandEnd ∧ lexeme.completesCommand then 1 else 0 } := by
  show (if token.kind = .commandEnd ∧ lexeme.completesCommand = true then _ else _ :
    Progress Trace Call TableError).config.environment = _
  split
  · show (⟨c.environment.calls, c.environment.boundaries + 1⟩ : Trace)
      = ⟨c.environment.calls ++ [], c.environment.boundaries + 1⟩
    rw [List.append_nil]
  · exact (Trace.append_empty _).symm

/-- **What a recording run adds to its trace where it accepts a token.** -/
theorem environment_perform
    (hknown : ∀ action next, token.transition = .invoke action next → ∃ name, t.actionName action = .ok name)
    (hroom : Machine.HasRoom token lexeme c) :
    ((tracing t).perform token lexeme c).config.environment = c.environment
      ++ t.recorded token lexeme (c.captures.toList ++ (token.capture? lexeme).toList) := by
  obtain ⟨captures, hheld, -, hq⟩ := Machine.perform_of_room (m := (tracing t).toMachine) hroom
  have hnone := Machine.follow_ending_eq_none (unfailing_tracing t) hknown { c with captures }
  have hf := (tracing t).followed token.transition { c with captures }
  rw [hq, Progress.andThen_note]
  generalize (tracing t).follow token.transition { c with captures } = f at hf hnone ⊢
  show (f.andThen _).config.environment = _
  rw [Progress.config_andThen_of_none hnone, environment_signal]
  rw [← hheld]
  have hcalls : f.config.environment = c.environment
      ++ { calls := (t.recorded token lexeme captures.toList).calls } := by
    unfold Table.recorded
    generalize token.transition = transition at hf hknown
    cases hf with
    | home | away => exact (Trace.append_empty _).symm
    | unknown | failed => cases hnone
    | @performed action next name _ hname =>
      have hname' : t.actionName action = .ok name := hname
      show (Trace.record t action captures c.environment).environment = _
      simp only [Trace.record, hname', Except.toOption, Option.toList_some, List.map_cons, List.map_nil]
      rfl
  rw [hcalls, Trace.append_assoc]
  congr 1
  show (⟨_ ++ [], 0 + _⟩ : Trace) = _
  rw [List.append_nil, Nat.zero_add]
  rfl

theorem hasRoom_of_heldBehind? {room : Nat} {held : List (String × String)}
    (h : token.heldBehind? lexeme room c.captures.toList = some held) (hroom : room ≤ c.captures.capacity) :
    Machine.HasRoom token lexeme c ∧ held = c.captures.toList ++ (token.capture? lexeme).toList := by
  unfold Token.heldBehind? at h
  cases hc : token.capture? lexeme with
  | none =>
    rw [hc] at h
    refine ⟨fun identifier value e hcapture => ?_, ?_⟩
    · rw [hc] at hcapture
      cases hcapture
    · rw [← Option.some.inj h]
      exact (List.append_nil _).symm
  | some capture =>
    obtain ⟨identifier, value⟩ := capture
    rw [hc] at h
    simp only [Option.ite_none_right_eq_some, Option.some.injEq] at h
    obtain ⟨⟨hfresh, hlt⟩, rfl⟩ := h
    refine ⟨fun identifier' value' e hcapture hpush => ?_, rfl⟩
    obtain ⟨rfl, rfl⟩ := Prod.mk.inj (Option.some.inj (hc.symm.trans hcapture))
    rcases Captures.push_eq_error_iff.mp hpush with ⟨hm, -⟩ | ⟨-, hfull, -⟩
    · exact hfresh hm
    · omega

/-- A recording run stands at a spot, with room for so many captures at least. -/
structure StandsAt (room : Nat) (spot : Spot) (c : Config Trace) : Prop where
  state : c.state = spot.state
  held : c.captures.toList = spot.held
  room : room ≤ c.captures.capacity

variable {room : Nat} {spot next : Spot} {x : Trace} {piece : Piece} {taken rest : List Char}

/-- **A step over a piece goes where the piece leads.** -/
theorem step_of_stands (h : t.Consistent) (hc : StandsAt room spot c)
    (hrest : c.rest = taken ++ rest) (hstands : piece.Stands taken rest)
    (hstep : t.step? room spot piece = some (next, x)) :
    ((tracing t).step c).config.environment = c.environment ++ x
      ∧ (piece = .theEnd → ((tracing t).step c).ending = some .complete)
      ∧ (piece ≠ .theEnd → ((tracing t).step c).ending = none
        ∧ StandsAt room next ((tracing t).step c).config ∧ ((tracing t).step c).config.rest = rest) := by
  simp only [Table.step?, Option.bind_eq_bind, Option.bind_eq_some_iff, Option.pure_def, Option.some.injEq,
    Prod.mk.injEq] at hstep
  obtain ⟨tokens, htokens, token, hfind, lexeme, htake, held, hheld, rfl, rfl⟩ := hstep
  have hfits := Token.fits_of_take? htake
  have ht : t.tokens c.state = .ok tokens := by
    rw [hc.state]
    exact Table.tokens_eq_ok_iff.mpr htokens
  -- Nothing is skipped in front of the piece.
  have hskip : c.skipBlanks.rest = taken ++ rest := by
    show c.rest.dropWhile isBlank = _
    rw [hrest]
    exact dropWhile_append_of_stop (x := []) (by simp) (hfits.isBlank hstands)
  have hchoose : choose? tokens c.skipBlanks.rest = some (token, lexeme) := by
    rw [hskip]
    exact Token.choose?_of_fits hfits hfind hstands
  have hknown := h.actions c.state token ⟨tokens, ht, List.mem_of_find?_eq_some hfind⟩
  have hheld' : token.heldBehind? lexeme room c.skipBlanks.captures.toList = some held := by
    rw [Config.captures_skipBlanks, hc.held, hheld]
  obtain ⟨hroom, rfl⟩ := hasRoom_of_heldBehind? hheld' hc.room
  have hending := Machine.perform_ending_eq_none (m := (tracing t).toMachine) (unfailing_tracing t) hroom hknown
  have henvironment := environment_perform (t := t) hknown hroom
  have hstate := Machine.perform_state (m := (tracing t).toMachine) hending
  have hcaptures : ((tracing t).perform token lexeme c.skipBlanks).config.captures.toList = _ :=
    Machine.perform_captures (by rw [hending]; simp) (by rw [hending]; simp)
  obtain ⟨-, hplace, hcapacity⟩ := Machine.perform_place (tracing t).toMachine token lexeme c.skipBlanks
  obtain ⟨hconfig, hend⟩ := Machine.step_of_performed (m := (tracing t).toMachine) ht hchoose hending
  rw [hconfig, hend]
  rcases hfits.consumed hstands with ⟨hne, hlength⟩ | ⟨rfl, rfl, rfl, hone⟩
  · have hle : lexeme.consumed ≤ c.skipBlanks.rest.length := by
      rw [hskip, hlength, List.length_append]
      exact Nat.le_add_right _ _
    rw [if_pos hle]
    refine ⟨henvironment, fun hp => absurd hp hne, fun _ => ⟨rfl, ⟨hstate, hcaptures, ?_⟩, ?_⟩⟩
    · exact hc.room.trans_eq hcapacity.symm
    · show (Machine.perform _ _ _ _).config.rest.drop _ = rest
      rw [hplace, hskip, hlength, List.drop_left]
  · rw [if_neg (by simp [hskip, hone])]
    exact ⟨henvironment, fun _ => rfl, fun hp => absurd rfl hp⟩

/-- A blank in front of a text does not matter. -/
theorem step_blank {b : Char} {text : List Char} (hb : isBlank b = true) (hrest : c.rest = b :: text) :
    (tracing t).step c = (tracing t).step { c with position := c.position + 1, rest := text } := by
  have hskip : c.skipBlanks
      = ({ c with position := c.position + 1, rest := text } : Config Trace).skipBlanks := by
    simp only [Config.skipBlanks, hrest, List.takeWhile_cons_of_pos hb, List.dropWhile_cons_of_pos hb,
      List.length_cons]
    congr 1
    omega
  unfold Machine.step
  rw [hskip]

/-- **A run on a text of a line goes where its pieces lead**, and is complete. -/
theorem complete_of_written (h : t.Consistent) {line : List Piece} {text : List Char}
    (hwritten : Written line text) (hwalk : t.walk room spot line = some (next, x))
    (hc : StandsAt room spot c) (hrest : c.rest = text) :
    ∃ n, ((tracing t).steps (n + 1) c).ending = some .complete
      ∧ ((tracing t).steps (n + 1) c).config.environment = c.environment ++ x := by
  induction hwritten generalizing c spot x with
  | theEnd =>
    obtain ⟨spot', y, hstep, z, hnil, rfl⟩ := Table.walk_cons hwalk
    obtain ⟨rfl, rfl⟩ := Prod.mk.inj (Option.some.inj hnil)
    have hnothing : c.rest = [] ++ [] := hrest
    obtain ⟨henvironment, hend, -⟩ := step_of_stands h hc hnothing .theEnd hstep
    refine ⟨0, ?_⟩
    rw [Machine.steps_one, Trace.append_empty]
    exact ⟨hend rfl, henvironment⟩
  | @blank line b text hb _ ih =>
    obtain ⟨n, hn⟩ := ih (c := { c with position := c.position + 1, rest := text }) hwalk
      ⟨hc.state, hc.held, hc.room⟩ rfl
    refine ⟨n, ?_⟩
    rwa [Machine.steps_one_add, step_blank hb hrest, ← Machine.steps_one_add]
  | @next piece line taken rest hpiece hstands _ ih =>
    obtain ⟨spot', y, hstep, z, hline, rfl⟩ := Table.walk_cons hwalk
    obtain ⟨henvironment, -, hgoes⟩ := step_of_stands h hc hrest hstands hstep
    obtain ⟨hnone, hstands', hrest'⟩ := hgoes hpiece
    obtain ⟨n, hcomplete, hadds⟩ := ih hline hstands' hrest'
    refine ⟨n + 1, ?_⟩
    rw [Machine.steps_one_add, Progress.ending_andThen_of_none hnone,
      Progress.config_andThen_of_none hnone, hadds, henvironment, Trace.append_assoc]
    exact ⟨hcomplete, rfl⟩

/-- **A parser that records on a table accepts the texts of a line** that leads through the table with the
captures for which there is room, and the trace is that of the line. -/
theorem parse_written (hvalid : t.validate = .ok t) {capacity : Int} (hroom : (room : Int) ≤ capacity)
    (hpos : 1 ≤ capacity) {line : List Piece} {text : String} (hwritten : Written line text.toList)
    (hwalk : t.walk room ⟨t.initial, []⟩ line = some (next, x)) :
    (∃ o, ((limited t capacity none).parse text {}).verdict = .ok o ∧ o.ok = true)
      ∧ ((limited t capacity none).parse text {}).environment = x := by
  have hcons := Table.consistent_of_validate hvalid
  obtain ⟨captures, hempty, hnil, hcapacity⟩ := empty?_of_pos hpos
  have hexceeds : (limited t capacity none).exceeds text = none := rfl
  obtain ⟨hparse, hends⟩ := parse_limited hcons hempty hexceeds
  obtain ⟨e, he⟩ := Option.ne_none_iff_exists'.mp hends
  obtain ⟨n, hcomplete, hadds⟩ := complete_of_written hcons hwritten hwalk
    (c := (tracing t).start text captures {}) ⟨rfl, hnil, by
      show room ≤ captures.capacity
      omega⟩ rfl
  have hsame := (tracing t).steps_eq_of_ended hcomplete he
  rw [hsame] at hcomplete hadds
  rw [hparse, conclude_environment]
  exact ⟨conclude_ok_iff.mpr hcomplete, hadds.trans (Trace.empty_append x)⟩

end Parser

end CommandGrammar
