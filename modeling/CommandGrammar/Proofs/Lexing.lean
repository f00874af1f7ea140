import CommandGrammar.Lexeme
import Mathlib.Data.List.TakeWhile

/-!
# What tokens take

`Token.Takes` says without any scanning which part of a text a token takes: `token.Takes taken rest`
holds where `taken` and then `rest` stand and the token takes exactly `taken`. The main statement is
`lexeme?_eq_some_iff`: the lexeme found by scanning is the one that this relation allows, with the value
and the terminator that follow from what was taken.

* `Quotable` — what may stand between two quotes.
* `Takes.consumed`, `Takes.length_pos` — a lexeme does not reach behind the end, except the one of a
  command that ends there, and takes at least one character.
-/

namespace CommandGrammar

open Text

/-! ## Runs up to a delimiter -/

variable {α : Type}

theorem takeWhile_append_of_stop {p : α → Bool} {x rest : List α} (hx : ∀ c ∈ x, p c = true)
    (hrest : ∀ c ∈ rest.head?, p c = false) : (x ++ rest).takeWhile p = x := by
  rw [List.takeWhile_append_of_pos hx]
  cases rest with
  | nil => simp
  | cons c tail => simp [hrest c rfl]

theorem dropWhile_append_of_stop {p : α → Bool} {x rest : List α} (hx : ∀ c ∈ x, p c = true)
    (hrest : ∀ c ∈ rest.head?, p c = false) : (x ++ rest).dropWhile p = rest := by
  rw [List.dropWhile_append_of_pos hx]
  cases rest with
  | nil => rfl
  | cons c tail => simp [hrest c rfl]

theorem drop_length_takeWhile (p : α → Bool) (l : List α) :
    l.drop (l.takeWhile p).length = l.dropWhile p := by
  calc l.drop (l.takeWhile p).length
      = (l.takeWhile p ++ l.dropWhile p).drop (l.takeWhile p).length := by
        rw [List.takeWhile_append_dropWhile]
    _ = l.dropWhile p := List.drop_left

theorem head?_dropWhile_eq_false {p : α → Bool} (l : List α) :
    ∀ c ∈ (l.dropWhile p).head?, p c = false := by
  intro c hc
  have h := List.head?_dropWhile_not p l
  rw [Option.mem_def.mp hc] at h
  exact h

/-! ## Quoted text -/

/--
A text that may stand between two double quotes: each double quote in it directly follows a backslash, and
it does not end in one. What stands in front of its first character is the opening quote.
-/
def Quotable (v : List Char) : Prop :=
  v.getLastD '"' ≠ '\\' ∧ ∀ u w, v = u ++ '"' :: w → u.getLastD '"' = '\\'

/-- **Text is cut at the first mark that no backslash precedes.** -/
theorem upToMark?_eq_some_iff {mark before : Char} {cs v : List Char} :
    Text.upToMark? mark before cs = some v
      ↔ ∃ rest, cs = v ++ mark :: rest ∧ v.getLastD before ≠ '\\'
        ∧ ∀ u w, v = u ++ mark :: w → u.getLastD before = '\\' := by
  -- The character in front is part of the induction: whether a mark counts depends on it.
  induction cs generalizing before v with
  | nil => simp [upToMark?]
  | cons c cs ih =>
    rw [upToMark?]
    by_cases hc : c = mark ∧ before ≠ '\\'
    · rw [if_pos hc]
      obtain ⟨rfl, hb⟩ := hc
      constructor
      · intro h
        obtain rfl := Option.some.inj h
        exact ⟨cs, rfl, hb, by simp⟩
      · rintro ⟨rest, hcs, _, hin⟩
        cases v with
        | nil => rfl
        | cons d v =>
          obtain ⟨rfl, -⟩ := List.cons.inj hcs
          exact absurd (hin [] v rfl) hb
    · rw [if_neg hc, Option.map_eq_some_iff]
      constructor
      · rintro ⟨v', hv', rfl⟩
        obtain ⟨rest, rfl, hlast, hin⟩ := ih.mp hv'
        refine ⟨rest, rfl, by rwa [List.getLastD_cons], ?_⟩
        intro u w huw
        cases u with
        | nil =>
          obtain ⟨rfl, -⟩ := List.cons.inj huw
          exact Classical.not_not.mp fun hb => hc ⟨rfl, hb⟩
        | cons d u =>
          obtain ⟨rfl, htail⟩ := List.cons.inj huw
          rw [List.getLastD_cons]
          exact hin u w htail
      · rintro ⟨rest, hcs, hlast, hin⟩
        cases v with
        | nil =>
          obtain ⟨rfl, -⟩ := List.cons.inj hcs
          exact absurd ⟨rfl, hlast⟩ hc
        | cons d v =>
          obtain ⟨rfl, rfl⟩ := List.cons.inj hcs
          rw [List.getLastD_cons] at hlast
          refine ⟨v, ih.mpr ⟨rest, rfl, hlast, ?_⟩, rfl⟩
          intro u w huw
          rw [← List.getLastD_cons (a := before)]
          exact hin (c :: u) w (by rw [huw]; rfl)

/-! ## Taking -/

/-- What ends the unquoted text of a kind of token, if it takes free text at all. -/
def TokenKind.delimiter? : TokenKind → Option (Char → Bool)
  | .word => some isWordDelimiter
  | .string => some isSeparator
  | .literal | .commandEnd => none

/-- The text between the quotes, or the whole of a text without quotes. -/
def unquoted : List Char → List Char
  | '"' :: body => body.dropLast
  | x => x

namespace Token

/-- The keyword of a literal. -/
def keyword (token : Token) : List Char := (token.text.getD "").toList

/-- `token.Takes taken rest`: where `taken` and then `rest` stand, the token takes exactly `taken`. -/
inductive Takes (token : Token) : (taken rest : List Char) → Prop where
  /-- A literal takes as many characters as it has, if they agree with it in small letters. -/
  | keyword {x rest : List Char} (hk : token.kind = .literal) (hl : x.length = token.keyword.length)
    (hx : lower x = lower token.keyword) : Takes token x rest
  /-- A word or string takes the longest run without delimiters, which is not empty. -/
  | bare {delimiter : Char → Bool} {x rest : List Char} (hk : token.kind.delimiter? = some delimiter)
    (hne : x ≠ []) (hq : x.head? ≠ some '"') (hx : ∀ c ∈ x, delimiter c = false)
    (hrest : ∀ c ∈ rest.head?, delimiter c = true) : Takes token x rest
  /-- A word or string that starts with a quote takes everything up to the next quote that does not
  directly follow a backslash. -/
  | quoted {delimiter : Char → Bool} {v rest : List Char} (hk : token.kind.delimiter? = some delimiter)
    (hv : Quotable v) : Takes token ('"' :: v ++ ['"']) rest
  /-- The end of a command takes a separator. -/
  | separator {c : Char} {rest : List Char} (hk : token.kind = .commandEnd)
    (hc : isSeparator c = true) : Takes token [c] rest
  /-- At the end of the text the end of a command takes nothing. -/
  | endOfText (hk : token.kind = .commandEnd) : Takes token [] []

/-- The value that a token has for the text it took: a literal its own spelling, a word or string the text
without quotes. -/
def value? (token : Token) (taken : List Char) : Option String :=
  match token.kind with
  | .literal => some (token.text.getD "")
  | .word | .string => some (String.ofList (unquoted taken))
  | .commandEnd => none

/-- The lexeme of a token for the text it took. The end of the text counts as one character. -/
def lexemeOf (token : Token) (taken : List Char) : Lexeme :=
  { value := token.value? taken
    consumed := if token.kind = .commandEnd then 1 else taken.length
    terminator := if token.kind = .commandEnd then taken.head? else none }

end Token

/-! ## Scanning finds what is taken -/

namespace Lexeme

theorem literal?_eq_some_iff {keyword : String} {cs : List Char} {l : Lexeme} :
    literal? keyword cs = some l
      ↔ ∃ x rest, cs = x ++ rest ∧ x.length = keyword.toList.length
        ∧ lower x = lower keyword.toList
        ∧ l = { value := some keyword, consumed := keyword.toList.length } := by
  unfold literal?
  simp only [Option.ite_none_right_eq_some, Option.some.injEq]
  constructor
  · rintro ⟨⟨hlen, hlow⟩, rfl⟩
    exact ⟨cs.take keyword.toList.length, cs.drop keyword.toList.length,
      (List.take_append_drop _ _).symm, hlen, hlow, rfl⟩
  · rintro ⟨x, rest, rfl, hlen, hlow, rfl⟩
    rw [← hlen, List.take_left]
    exact ⟨⟨rfl, hlow⟩, rfl⟩

theorem quoted?_eq_some_iff {body : List Char} {l : Lexeme} :
    quoted? body = some l
      ↔ ∃ v rest, body = v ++ '"' :: rest ∧ Quotable v
        ∧ l = { value := some (String.ofList v), consumed := v.length + 2 } := by
  unfold quoted?
  rw [Option.map_eq_some_iff]
  constructor
  · rintro ⟨v, hv, rfl⟩
    obtain ⟨rest, hbody, hq⟩ := upToMark?_eq_some_iff.mp hv
    exact ⟨v, rest, hbody, hq, rfl⟩
  · rintro ⟨v, rest, hbody, hq, rfl⟩
    exact ⟨v, upToMark?_eq_some_iff.mpr ⟨rest, hbody, hq⟩, rfl⟩

theorem bare?_eq_some_iff {delimiter : Char → Bool} {cs : List Char} {l : Lexeme} :
    bare? delimiter cs = some l
      ↔ ∃ x rest, cs = x ++ rest ∧ x ≠ [] ∧ (∀ c ∈ x, delimiter c = false)
        ∧ (∀ c ∈ rest.head?, delimiter c = true)
        ∧ l = { value := some (String.ofList x), consumed := x.length } := by
  unfold bare?
  constructor
  · split
    · simp
    · next x hne =>
      intro h
      refine ⟨cs.takeWhile fun c => !delimiter c, cs.dropWhile fun c => !delimiter c,
        List.takeWhile_append_dropWhile.symm, hne, ?_, ?_, (Option.some.inj h).symm⟩
      · intro c hc
        simpa using List.mem_takeWhile_imp hc
      · intro c hc
        simpa using head?_dropWhile_eq_false _ c hc
  · rintro ⟨x, rest, rfl, hne, hx, hrest, rfl⟩
    rw [takeWhile_append_of_stop (by simpa using hx) (by simpa using hrest)]
    cases x with
    | nil => exact absurd rfl hne
    | cons c x => rfl

theorem freeText?_eq_some_iff {delimiter : Char → Bool} {cs : List Char} {l : Lexeme} :
    freeText? delimiter cs = some l
      ↔ (∃ x rest, cs = x ++ rest ∧ x ≠ [] ∧ x.head? ≠ some '"' ∧ (∀ c ∈ x, delimiter c = false)
          ∧ (∀ c ∈ rest.head?, delimiter c = true)
          ∧ l = { value := some (String.ofList x), consumed := x.length })
        ∨ ∃ v rest, cs = '"' :: v ++ '"' :: rest ∧ Quotable v
          ∧ l = { value := some (String.ofList v), consumed := v.length + 2 } := by
  unfold freeText?
  split
  · next body =>
    rw [quoted?_eq_some_iff]
    constructor
    · rintro ⟨v, rest, rfl, hv, hl⟩
      exact Or.inr ⟨v, rest, rfl, hv, hl⟩
    · rintro (⟨x, rest, hcs, hne, hq, -⟩ | ⟨v, rest, hcs, hv, hl⟩)
      · cases x with
        | nil => exact absurd rfl hne
        | cons c x =>
          obtain ⟨rfl, -⟩ := List.cons.inj hcs
          exact absurd rfl hq
      · exact ⟨v, rest, (List.cons.inj hcs).2, hv, hl⟩
  · next hnq =>
    rw [bare?_eq_some_iff]
    constructor
    · rintro ⟨x, rest, rfl, hne, hx, hrest, hl⟩
      refine Or.inl ⟨x, rest, rfl, hne, ?_, hx, hrest, hl⟩
      intro hq
      cases x with
      | nil => exact hne rfl
      | cons c x => exact hnq (x ++ rest) (by rw [Option.some.inj hq]; rfl)
    · rintro (⟨x, rest, hcs, hne, -, hx, hrest, hl⟩ | ⟨v, rest, hcs, -⟩)
      · exact ⟨x, rest, hcs, hne, hx, hrest, hl⟩
      · exact absurd hcs (hnq _)

theorem commandEnd?_eq_some_iff {cs : List Char} {l : Lexeme} :
    commandEnd? cs = some l
      ↔ cs = [] ∧ l = { value := none, consumed := 1 }
        ∨ ∃ c rest, cs = c :: rest ∧ isSeparator c = true
          ∧ l = { value := none, consumed := 1, terminator := some c } := by
  cases cs with
  | nil =>
    constructor
    · intro h
      exact Or.inl ⟨rfl, (Option.some.inj h).symm⟩
    · rintro (⟨-, rfl⟩ | ⟨c, rest, h, -⟩)
      · rfl
      · cases h
  | cons c rest =>
    rw [commandEnd?, Option.ite_none_right_eq_some]
    constructor
    · rintro ⟨hc, hl⟩
      exact Or.inr ⟨c, rest, rfl, hc, (Option.some.inj hl).symm⟩
    · rintro (⟨h, -⟩ | ⟨d, tail, h, hd, rfl⟩)
      · cases h
      · obtain ⟨rfl, -⟩ := List.cons.inj h
        exact ⟨hd, rfl⟩

end Lexeme

namespace Token

variable {token : Token}

theorem unquoted_of_head?_ne {x : List Char} (h : x.head? ≠ some '"') : unquoted x = x := by
  unfold unquoted
  split
  · exact absurd rfl h
  · rfl

theorem kind_of_delimiter? {delimiter : Char → Bool} (h : token.kind.delimiter? = some delimiter) :
    token.kind = .word ∨ token.kind = .string := by
  cases hk : token.kind <;> simp_all [TokenKind.delimiter?]

theorem lexemeOf_of_bare {delimiter : Char → Bool} (hk : token.kind.delimiter? = some delimiter)
    {x : List Char} (hq : x.head? ≠ some '"') :
    token.lexemeOf x = { value := some (String.ofList x), consumed := x.length } := by
  rcases kind_of_delimiter? hk with hk | hk <;>
    simp [lexemeOf, value?, hk, unquoted_of_head?_ne hq]

theorem lexemeOf_of_quoted {delimiter : Char → Bool} (hk : token.kind.delimiter? = some delimiter)
    (v : List Char) :
    token.lexemeOf ('"' :: v ++ ['"'])
      = { value := some (String.ofList v), consumed := v.length + 2 } := by
  rcases kind_of_delimiter? hk with hk | hk <;> simp [lexemeOf, value?, hk, unquoted]

/-- **Scanning finds what the token takes**, and nothing else. -/
theorem lexeme?_eq_some_iff {cs : List Char} {l : Lexeme} :
    token.lexeme? cs = some l
      ↔ ∃ taken rest, cs = taken ++ rest ∧ token.Takes taken rest ∧ l = token.lexemeOf taken := by
  -- Words and strings differ in nothing but their delimiters.
  have hfree : ∀ delimiter, token.kind.delimiter? = some delimiter →
      (Lexeme.freeText? delimiter cs = some l
        ↔ ∃ taken rest, cs = taken ++ rest ∧ token.Takes taken rest ∧ l = token.lexemeOf taken) := by
    intro delimiter hd
    rw [Lexeme.freeText?_eq_some_iff]
    constructor
    · rintro (⟨x, rest, hcs, hne, hq, hx, hrest, rfl⟩ | ⟨v, rest, rfl, hv, rfl⟩)
      · exact ⟨x, rest, hcs, .bare hd hne hq hx hrest, (lexemeOf_of_bare hd hq).symm⟩
      · exact ⟨'"' :: v ++ ['"'], rest, by simp, .quoted hd hv, (lexemeOf_of_quoted hd v).symm⟩
    · rintro ⟨x, rest, hcs, htakes, rfl⟩
      cases htakes with
      | keyword hk => rw [hk] at hd; cases hd
      | bare hk hne hq hx hrest =>
        obtain rfl : delimiter = _ := Option.some.inj (hd.symm.trans hk)
        exact Or.inl ⟨x, rest, hcs, hne, hq, hx, hrest, lexemeOf_of_bare hd hq⟩
      | @quoted _ v _ hk hv =>
        exact Or.inr ⟨v, rest, by rw [hcs]; simp, hv, lexemeOf_of_quoted hd v⟩
      | separator hk => rw [hk] at hd; cases hd
      | endOfText hk => rw [hk] at hd; cases hd
  unfold lexeme?
  cases hk : token.kind with
  | literal =>
    have hl : ∀ x : List Char, x.length = token.keyword.length →
        token.lexemeOf x
          = { value := some (token.text.getD ""), consumed := (token.text.getD "").toList.length } := by
      intro x hx
      simp [lexemeOf, value?, hk, hx, keyword]
    rw [Lexeme.literal?_eq_some_iff]
    constructor
    · rintro ⟨x, rest, hcs, hlen, hlow, rfl⟩
      exact ⟨x, rest, hcs, .keyword hk hlen hlow, (hl x hlen).symm⟩
    · rintro ⟨x, rest, hcs, htakes, rfl⟩
      cases htakes with
      | keyword _ hlen hlow => exact ⟨x, rest, hcs, hlen, hlow, hl x hlen⟩
      | bare h => rw [hk] at h; cases h
      | quoted h => rw [hk] at h; cases h
      | separator h => rw [hk] at h; cases h
      | endOfText h => rw [hk] at h; cases h
  | word => exact hfree _ (by rw [hk]; rfl)
  | string => exact hfree _ (by rw [hk]; rfl)
  | commandEnd =>
    have hl : ∀ x, token.lexemeOf x = { value := none, consumed := 1, terminator := x.head? } := by
      intro x
      simp [lexemeOf, value?, hk]
    rw [Lexeme.commandEnd?_eq_some_iff]
    constructor
    · rintro (⟨rfl, rfl⟩ | ⟨c, rest, rfl, hc, rfl⟩)
      · exact ⟨[], [], rfl, .endOfText hk, (hl []).symm⟩
      · exact ⟨[c], rest, rfl, .separator hk hc, (hl [c]).symm⟩
    · rintro ⟨x, rest, hcs, htakes, rfl⟩
      cases htakes with
      | keyword h => rw [hk] at h; cases h
      | bare h => rw [hk] at h; cases h
      | quoted h => rw [hk] at h; cases h
      | @separator c _ _ hc => exact Or.inr ⟨c, rest, hcs, hc, hl [c]⟩
      | endOfText => exact Or.inl ⟨hcs, hl []⟩

/-- A word or a string takes something wherever no quote and no delimiter stands first. -/
theorem exists_takes_of_head {delimiter : Char → Bool} (hk : token.kind.delimiter? = some delimiter) {c : Char}
    (hc : delimiter c = false) (hq : c ≠ '"') (cs : List Char) :
    ∃ x rest, c :: cs = x ++ rest ∧ token.Takes x rest := by
  refine ⟨(c :: cs).takeWhile fun d => !delimiter d, (c :: cs).dropWhile fun d => !delimiter d,
    List.takeWhile_append_dropWhile.symm, .bare hk ?_ ?_ ?_ ?_⟩
  · simp [hc]
  · simpa [List.takeWhile_cons, hc] using hq
  · intro d hd
    simpa using List.mem_takeWhile_imp hd
  · intro d hd
    simpa using head?_dropWhile_eq_false _ d hd

/-! ## Sizes -/

/-- Only the end of a command takes nothing, and only at the end of the text, if literals have a text. -/
theorem Takes.length_pos {taken rest : List Char} (h : token.Takes taken rest)
    (hlit : token.kind = .literal → token.text.getD "" ≠ "") :
    0 < taken.length ∨ taken = [] ∧ rest = [] ∧ token.kind = .commandEnd := by
  cases h with
  | keyword hk hl =>
    refine Or.inl ?_
    rw [hl, List.length_pos_iff]
    intro hnil
    exact hlit hk (String.toList_eq_nil_iff.mp hnil)
  | bare _ hne => exact Or.inl (List.length_pos_iff.mpr hne)
  | quoted => exact Or.inl (by simp)
  | separator => exact Or.inl (by simp)
  | endOfText hk => exact Or.inr ⟨rfl, rfl, hk⟩

/-- The characters to move on are those taken; only the end of the text counts as one that is not there. -/
theorem Takes.consumed {taken rest : List Char} (h : token.Takes taken rest) :
    (token.lexemeOf taken).consumed = taken.length
      ∨ taken = [] ∧ rest = [] ∧ token.kind = .commandEnd
        ∧ token.lexemeOf taken = { value := none, consumed := 1 } := by
  cases h with
  | keyword hk | separator hk => left; simp [lexemeOf, hk]
  | bare hk | quoted hk =>
    left
    rcases kind_of_delimiter? hk with hk | hk <;> simp [lexemeOf, hk]
  | endOfText hk => right; simp [lexemeOf, value?, hk]

end Token

end CommandGrammar
