import CommandGrammar.Proofs.Steps

/-!
# Texts up to the case of their ASCII letters

`foldCase` puts the ASCII letters of a text in small form and leaves every other character alone. Nothing
that the parser looks at in a text changes with it: delimiters, quotes and backslashes are no letters, and
a literal is compared in small letters, where the ASCII letters around a sigma count as letters in either
form.

* `apply_toLower` — what the ASCII letters share in both forms does not see the case.
* `lower_foldCase` — the small form of a text.
* `Token.lexeme?_foldCase` — what a token takes.
* `choose?_foldCase`, `triedTokens_foldCase` — the search among tokens.
-/

namespace CommandGrammar

namespace Text

/-- A text with its ASCII letters in small form. -/
def foldCase (cs : List Char) : List Char := cs.map Char.toLower

/-- A string with its ASCII letters in small form. -/
def foldText (text : String) : String := String.ofList (foldCase text.toList)

@[simp] theorem length_foldCase (cs : List Char) : (foldCase cs).length = cs.length :=
  List.length_map _

@[simp] theorem toList_foldText (text : String) : (foldText text).toList = foldCase text.toList :=
  String.toList_ofList

theorem foldText_ofList (cs : List Char) :
    foldText (String.ofList cs) = String.ofList (foldCase cs) := by
  rw [foldText, String.toList_ofList]

/-! ## Characters -/

/-- **What the ASCII letters share in both forms does not see the case of any character.** -/
theorem apply_toLower {α : Type} {f : Char → α}
    (h : ∀ n < 0x80, f (Char.ofNat n).toLower = f (Char.ofNat n)) (c : Char) : f c.toLower = f c := by
  by_cases hc : c.toNat < 0x80
  · have := h c.toNat hc
    rwa [Char.ofNat_toNat] at this
  · -- Beyond ASCII there is nothing to put in small form.
    have : c.toLower = c := by
      unfold Char.toLower
      rw [dif_neg]
      rintro ⟨-, hle⟩
      have : c.toNat ≤ 'Z'.toNat := hle
      have : 'Z'.toNat = 90 := rfl
      omega
    rw [this]

theorem isBlank_toLower (c : Char) : isBlank c.toLower = isBlank c :=
  apply_toLower (by decide) c

theorem isSeparator_toLower (c : Char) : isSeparator c.toLower = isSeparator c :=
  apply_toLower (by decide) c

theorem isWordDelimiter_toLower (c : Char) : isWordDelimiter c.toLower = isWordDelimiter c :=
  apply_toLower (by decide) c

/-- A character that is no letter is the small form of itself alone. -/
theorem toLower_eq_iff {d : Char} (hd : ∀ n < 0x80, (Char.ofNat n).toLower = d ↔ Char.ofNat n = d)
    (c : Char) : c.toLower = d ↔ c = d := by
  have := apply_toLower (f := fun c => (c = d : Prop)) (fun n hn => propext (hd n hn)) c
  exact Eq.to_iff this

theorem isCaseIgnorable_toLower (c : Char) : isCaseIgnorable c.toLower = isCaseIgnorable c :=
  apply_toLower (by decide) c

theorem isCased_toLower (c : Char) : isCased c.toLower = isCased c :=
  apply_toLower (by decide) c

theorem lowerChar_toLower (c : Char) : lowerChar c.toLower = lowerChar c :=
  apply_toLower (by decide) c

theorem toNat_toLower_eq_sigma_iff (c : Char) : c.toLower.toNat = 0x3A3 ↔ c.toNat = 0x3A3 := by
  have := apply_toLower (f := fun c : Char => decide (c.toNat = 0x3A3)) (by decide) c
  simpa using this

/-! ## Runs of characters -/

theorem takeWhile_foldCase {p : Char → Bool} (h : ∀ c : Char, p c.toLower = p c) (cs : List Char) :
    (foldCase cs).takeWhile p = foldCase (cs.takeWhile p) := by
  unfold foldCase
  rw [List.takeWhile_map]
  congr 2
  funext c
  exact h c

theorem dropWhile_foldCase {p : Char → Bool} (h : ∀ c : Char, p c.toLower = p c) (cs : List Char) :
    (foldCase cs).dropWhile p = foldCase (cs.dropWhile p) := by
  unfold foldCase
  rw [List.dropWhile_map]
  congr 2
  funext c
  exact h c

/-! ## Small forms -/

theorem startsCased_foldCase (cs : List Char) : startsCased (foldCase cs) = startsCased cs := by
  unfold startsCased
  rw [dropWhile_foldCase isCaseIgnorable_toLower]
  cases cs.dropWhile isCaseIgnorable with
  | nil => rfl
  | cons c rest => exact isCased_toLower c

theorem lowerAfter_foldCase (b : Bool) (cs : List Char) :
    lowerAfter b (foldCase cs) = lowerAfter b cs := by
  induction cs generalizing b with
  | nil => rfl
  | cons c rest ih =>
    show lowerAfter b (c.toLower :: foldCase rest) = _
    rw [lowerAfter, lowerAfter, ih, startsCased_foldCase, isCaseIgnorable_toLower, isCased_toLower,
      lowerChar_toLower, if_congr (toNat_toLower_eq_sigma_iff c) rfl rfl]

/-- **The small form of a text does not see the case of ASCII letters**, next to a sigma either. -/
theorem lower_foldCase (cs : List Char) : lower (foldCase cs) = lower cs :=
  lowerAfter_foldCase false cs

/-! ## Delimited text -/

theorem upToMark?_foldCase (before : Char) (cs : List Char) :
    upToMark? '"' before.toLower (foldCase cs) = (upToMark? '"' before cs).map foldCase := by
  have hquote : ∀ c : Char, c.toLower = '"' ↔ c = '"' := toLower_eq_iff (by decide)
  have hbackslash : ∀ c : Char, c.toLower = '\\' ↔ c = '\\' := toLower_eq_iff (by decide)
  induction cs generalizing before with
  | nil => rfl
  | cons c rest ih =>
    show upToMark? '"' before.toLower (c.toLower :: foldCase rest) = _
    rw [upToMark?, upToMark?, ih]
    simp only [hquote, ne_eq, hbackslash]
    by_cases hc : c = '"' ∧ ¬before = '\\'
    · rw [if_pos hc, if_pos hc]
      rfl
    · rw [if_neg hc, if_neg hc, Option.map_map, Option.map_map]
      rfl

end Text

open Text

/-! ## Lexemes -/

/-- A lexeme of free text with the ASCII letters of its value in small form. -/
def Lexeme.fold (l : Lexeme) : Lexeme := { l with value := l.value.map foldText }

/-- A lexeme with the ASCII letters of its value in small form, unless a literal has taken it: the value of
that one is the literal's own. -/
def Token.fold (token : Token) (l : Lexeme) : Lexeme :=
  if token.kind = .literal then l else l.fold

namespace Token

@[simp] theorem consumed_fold (token : Token) (l : Lexeme) :
    (token.fold l).consumed = l.consumed := by
  unfold fold
  split <;> rfl

@[simp] theorem terminator_fold (token : Token) (l : Lexeme) :
    (token.fold l).terminator = l.terminator := by
  unfold fold
  split <;> rfl

end Token

namespace Lexeme

theorem literal?_foldCase (keyword : String) (cs : List Char) :
    literal? keyword (foldCase cs) = literal? keyword cs := by
  have htake : (foldCase cs).take keyword.toList.length = foldCase (cs.take keyword.toList.length) :=
    List.map_take.symm
  simp only [literal?, htake, length_foldCase, lower_foldCase]

theorem quoted?_foldCase (body : List Char) : quoted? (foldCase body) = (quoted? body).map fold := by
  have h := upToMark?_foldCase '"' body
  rw [show '"'.toLower = '"' from rfl] at h
  simp only [quoted?, h, Option.map_map]
  congr 1
  funext text
  simp [fold, foldText_ofList]

theorem bare?_foldCase {delimiter : Char → Bool} (hd : ∀ c : Char, delimiter c.toLower = delimiter c)
    (cs : List Char) : bare? delimiter (foldCase cs) = (bare? delimiter cs).map fold := by
  have htake := takeWhile_foldCase (p := fun c => !delimiter c) (fun c => by rw [hd]) cs
  unfold bare?
  rw [htake]
  cases cs.takeWhile fun c => !delimiter c with
  | nil => rfl
  | cons c rest =>
    show some (Lexeme.mk (some (String.ofList (foldCase (c :: rest)))) (foldCase (c :: rest)).length
      none) = _
    rw [← foldText_ofList, length_foldCase]
    rfl

theorem freeText?_foldCase {delimiter : Char → Bool}
    (hd : ∀ c : Char, delimiter c.toLower = delimiter c) (cs : List Char) :
    freeText? delimiter (foldCase cs) = (freeText? delimiter cs).map fold := by
  have hquote : ∀ c : Char, c.toLower = '"' ↔ c = '"' := toLower_eq_iff (by decide)
  by_cases h : cs.head? = some '"'
  · obtain ⟨body, rfl⟩ : ∃ body, cs = '"' :: body := by
      cases cs with
      | nil => cases h
      | cons c body => exact ⟨body, by rw [Option.some.inj h]⟩
    exact quoted?_foldCase body
  · -- A text that starts with no quote starts with none in small form.
    have hfolded : (foldCase cs).head? ≠ some '"' := by
      cases cs with
      | nil => simp [foldCase]
      | cons c body =>
        intro hc
        exact h (congrArg some ((hquote c).mp (Option.some.inj hc)))
    have hfree : ∀ {x : List Char}, x.head? ≠ some '"' → freeText? delimiter x = bare? delimiter x := by
      intro x hx
      unfold freeText?
      split
      · exact absurd rfl hx
      · rfl
    rw [hfree h, hfree hfolded, bare?_foldCase hd]

theorem commandEnd?_foldCase (cs : List Char) :
    commandEnd? (foldCase cs) = (commandEnd? cs).map fold := by
  cases cs with
  | nil => rfl
  | cons c rest =>
    show (if isSeparator c.toLower then some _ else none) = _
    rw [isSeparator_toLower, commandEnd?]
    cases hc : isSeparator c with
    | false => rfl
    | true =>
      -- A separator is no letter.
      have hlower : c.toLower = c := by
        simp only [isSeparator, Bool.or_eq_true, beq_iff_eq] at hc
        rcases hc with rfl | rfl <;> rfl
      rw [hlower]
      rfl

end Lexeme

/-- **What a token takes does not depend on the case of ASCII letters**, and its value only as far as it
is read off the text. -/
theorem Token.lexeme?_foldCase (token : Token) (cs : List Char) :
    token.lexeme? (foldCase cs) = (token.lexeme? cs).map token.fold := by
  cases hk : token.kind with
  | literal =>
    have hfold : token.fold = id := by funext l; simp [Token.fold, hk]
    simp only [Token.lexeme?, hk, Lexeme.literal?_foldCase, hfold, Option.map_id_fun, id]
  | word =>
    have hfold : token.fold = Lexeme.fold := by funext l; simp [Token.fold, hk]
    simp only [Token.lexeme?, hk, hfold, Lexeme.freeText?_foldCase isWordDelimiter_toLower]
  | string =>
    have hfold : token.fold = Lexeme.fold := by funext l; simp [Token.fold, hk]
    simp only [Token.lexeme?, hk, hfold, Lexeme.freeText?_foldCase isSeparator_toLower]
  | commandEnd =>
    have hfold : token.fold = Lexeme.fold := by funext l; simp [Token.fold, hk]
    simp only [Token.lexeme?, hk, hfold, Lexeme.commandEnd?_foldCase]

/-! ## Searches -/

/-- **The same token is chosen**, with a lexeme that differs in letter case alone. -/
theorem choose?_foldCase (tokens : List Token) (cs : List Char) :
    choose? tokens (foldCase cs) = (choose? tokens cs).map fun x => (x.1, x.1.fold x.2) := by
  induction tokens with
  | nil => rfl
  | cons u us ih =>
    unfold choose? at ih ⊢
    rw [List.findSome?_cons, List.findSome?_cons, Token.lexeme?_foldCase, ih]
    cases u.lexeme? cs <;> rfl

/-- The same tokens are tried. -/
theorem triedTokens_foldCase (tokens : List Token) (cs : List Char) :
    triedTokens tokens (foldCase cs) = triedTokens tokens cs := by
  simp only [triedTokens, Token.lexeme?_foldCase, Option.isNone_map, Option.isSome_map]

end CommandGrammar
