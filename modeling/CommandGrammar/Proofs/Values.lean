import CommandGrammar.Proofs.Positions

/-!
# Which values can be written

A value that a word or a string may have can be written between quotes or without them. Between quotes it must
keep its own quotes behind backslashes and must not end in one, which would take the closing quote with it;
without quotes it must not be empty, hold no delimiter and not begin with a quote. Any other value is read as
something else, or not at all.

* `QuotesEscaped` — every double quote directly follows a backslash; `quotable_iff` finds it in `Quotable`.
* `Token.reads_values` — the statement about words and strings.
-/

namespace CommandGrammar

open Text

/-! ## Escaped quotes -/

/-- Every double quote in a text is immediately preceded by a backslash of that text. -/
def QuotesEscaped (v : List Char) : Prop :=
  ∀ i : Nat, v[i]? = some '"' → ∃ j, i = j + 1 ∧ v[j]? = some '\\'

/-- What stands in front of a quote, with the opening one in front of all, is a backslash of the text or none. -/
theorem escaped_at_iff {v : List Char} {i : Nat} :
    ('"' :: v)[i]? = some '\\' ↔ ∃ j, i = j + 1 ∧ v[j]? = some '\\' := by
  cases i with
  | zero => simp
  | succ i => simp

/-- **No quote closes a text exactly if all quotes in it are escaped.** -/
theorem upToMark?_eq_none_iff {v : List Char} :
    upToMark? '"' '"' v = none ↔ QuotesEscaped v := by
  rw [upToMark?_eq_find?, Option.map_eq_none_iff, List.find?_eq_none]
  unfold QuotesEscaped
  constructor
  · intro h i hi
    have hlt : i < v.length := (List.getElem?_eq_some_iff.mp hi).1
    have hfree := h i (by simpa using hlt)
    rw [← escaped_at_iff]
    simpa [hi] using hfree
  · intro h i _ hfree
    simp only [Bool.and_eq_true, beq_iff_eq, bne_iff_ne, ne_eq] at hfree
    exact hfree.2 (escaped_at_iff.mpr (h i hfree.1))

/-- The character in front of a place in a text, or the opening quote in front of the first one. -/
theorem getLastD_eq_iff {u w : List Char} :
    u.getLastD '"' = '\\' ↔ ∃ j, u.length = j + 1 ∧ (u ++ w)[j]? = some '\\' := by
  cases u using List.reverseRec with
  | nil => simp
  | append_singleton u d =>
    rw [List.getLastD_concat]
    constructor
    · rintro rfl
      exact ⟨u.length, by simp, by simp⟩
    · rintro ⟨j, hj, hget⟩
      obtain rfl : u.length = j := by simpa using hj
      simpa using hget

/-- A text may stand between quotes if its own quotes are escaped and its last character escapes nothing. -/
theorem quotable_iff {v : List Char} :
    Quotable v ↔ QuotesEscaped v ∧ v.getLast? ≠ some '\\' := by
  have hlast : v.getLastD '"' ≠ '\\' ↔ v.getLast? ≠ some '\\' := by
    rw [List.getLastD_eq_getLast?]
    cases v.getLast? with
    | none => simp
    | some d => simp
  have hquotes : (∀ u w, v = u ++ '"' :: w → u.getLastD '"' = '\\') ↔ QuotesEscaped v := by
    constructor
    · intro h i hi
      obtain ⟨hlt, hget⟩ := List.getElem?_eq_some_iff.mp hi
      have hsplit : v = v.take i ++ '"' :: v.drop (i + 1) := by
        rw [← hget, List.getElem_cons_drop, List.take_append_drop]
      obtain ⟨j, hj, hbefore⟩ := getLastD_eq_iff (w := '"' :: v.drop (i + 1)) |>.mp (h _ _ hsplit)
      rw [← hsplit] at hbefore
      exact ⟨j, by rw [← hj, List.length_take_of_le hlt.le], hbefore⟩
    · rintro h u w rfl
      exact getLastD_eq_iff.mpr (h u.length (by simp))
  rw [Quotable, hlast, hquotes, and_comm]

/-! ## Values of words and strings -/

/-- What a token matches at a cursor has a value, and the run moves on by so many characters. -/
def Cursor.Yields (c : Cursor) (token : Token) (value : String) (count : Nat) : Prop :=
  ∃ l, c.match? token = some l ∧ l.value = some value ∧ l.consumed = count

/-- Which texts a word or a string has for its values, and how they are written in front of a rest. -/
structure Token.ReadsValues (token : Token) (delimiter : Char → Bool) (v r : String) : Prop where
  /-- A text between quotes is read as that text exactly if its quotes are escaped and it does not end in a
  backslash. -/
  quoted : (Cursor.mk ("\"" ++ v ++ "\"" ++ r) 0).Yields token v (v.length + 2)
    ↔ QuotesEscaped v.toList ∧ v.toList.getLast? ≠ some '\\'
  /-- A text in front of a delimiter or of the end is read as it stands exactly if it is not empty, holds no
  delimiter and does not begin with a quote. -/
  bare : (∀ d ∈ r.toList.head?, delimiter d = true) →
    ((Cursor.mk (v ++ r) 0).Yields token v v.length
      ↔ v ≠ "" ∧ (∀ d ∈ v.toList, delimiter d = false) ∧ v.toList.head? ≠ some '"')
  /-- Nothing is read from a quote on exactly if no later quote closes it. -/
  opened : (Cursor.mk ("\"" ++ v) 0).match? token = none ↔ QuotesEscaped v.toList

namespace Token

variable {token : Token} {delimiter : Char → Bool}

/-- A word or a string reads free text up to its own delimiters. -/
theorem lexeme?_of_delimiter? (hk : token.kind.delimiter? = some delimiter) (cs : List Char) :
    token.lexeme? cs = Lexeme.freeText? delimiter cs := by
  unfold lexeme?
  cases h : token.kind with
  | literal => rw [h] at hk; cases hk
  | word => rw [h] at hk; rw [← Option.some.inj hk]
  | string => rw [h] at hk; rw [← Option.some.inj hk]
  | commandEnd => rw [h] at hk; cases hk

/-- Behind a quote the value is what stands in front of the first quote that closes it. -/
theorem yields_quoted_iff (hk : token.kind.delimiter? = some delimiter) (v r : String) :
    (Cursor.mk ("\"" ++ v ++ "\"" ++ r) 0).Yields token v (v.length + 2) ↔ Quotable v.toList := by
  have hrest : (Cursor.mk ("\"" ++ v ++ "\"" ++ r) 0).rest = '"' :: (v.toList ++ '"' :: r.toList) := by
    simp [Cursor.rest]
  unfold Cursor.Yields
  rw [Cursor.match?_eq_lexeme?, hrest, lexeme?_of_delimiter? hk]
  constructor
  · rintro ⟨l, hl, hvalue, -⟩
    obtain ⟨w, rest, -, hw, rfl⟩ := Lexeme.quoted?_eq_some_iff.mp hl
    rwa [← Option.some.inj hvalue, String.toList_ofList]
  · intro hv
    exact ⟨_, Lexeme.quoted?_eq_some_iff.mpr ⟨v.toList, r.toList, rfl, hv, rfl⟩,
      by rw [String.ofList_toList], by rw [String.length_toList]⟩

/-- Without a quote in front the value is what stands in front of the first delimiter. -/
theorem yields_bare_iff (hk : token.kind.delimiter? = some delimiter) {v r : String}
    (hr : ∀ d ∈ r.toList.head?, delimiter d = true) :
    (Cursor.mk (v ++ r) 0).Yields token v v.length
      ↔ v ≠ "" ∧ (∀ d ∈ v.toList, delimiter d = false) ∧ v.toList.head? ≠ some '"' := by
  have hrest : (Cursor.mk (v ++ r) 0).rest = v.toList ++ r.toList := by simp [Cursor.rest]
  unfold Cursor.Yields
  rw [Cursor.match?_eq_lexeme?, hrest, lexeme?_of_delimiter? hk]
  constructor
  · rintro ⟨l, hl, hvalue, hcount⟩
    rcases Lexeme.freeText?_eq_some_iff.mp hl with
      ⟨x, rest, -, hne, hquote, hfree, -, rfl⟩ | ⟨w, rest, -, -, rfl⟩
    · obtain rfl : v.toList = x := by rw [← Option.some.inj hvalue, String.toList_ofList]
      exact ⟨fun hempty => hne (by rw [hempty]; rfl), hfree, hquote⟩
    · -- Between quotes two characters more are taken than the value has.
      have hw : w.length = v.length := by
        rw [← Option.some.inj hvalue, ← String.length_toList, String.toList_ofList]
      simp only at hcount
      omega
  · rintro ⟨hne, hfree, hquote⟩
    exact ⟨_, Lexeme.freeText?_eq_some_iff.mpr (.inl ⟨v.toList, r.toList, rfl,
      fun hnil => hne (String.toList_eq_nil_iff.mp hnil), hquote, hfree, hr, rfl⟩),
      by rw [String.ofList_toList], by rw [String.length_toList]⟩

/-- **Which values can be written**: the ones that a word or a string reads back, with quotes and without. -/
theorem reads_values (hk : token.kind.delimiter? = some delimiter) (v r : String) :
    token.ReadsValues delimiter v r := by
  refine
    { quoted := (yields_quoted_iff hk v r).trans quotable_iff
      bare := fun hr => yields_bare_iff hk hr
      opened := ?_ }
  have hrest : (Cursor.mk ("\"" ++ v) 0).rest = '"' :: v.toList := by simp [Cursor.rest]
  rw [Cursor.match?_eq_lexeme?, hrest, lexeme?_of_delimiter? hk, ← upToMark?_eq_none_iff]
  exact Option.map_eq_none_iff

/-- A word whose value ends in a backslash takes the closing quote with it and goes on in what follows. -/
theorem reads_values_backslash :
    (word (.goto "INITIAL")).kind.delimiter? = some isWordDelimiter
      ∧ (word (.goto "INITIAL")).ReadsValues isWordDelimiter "a\\" " b\" c"
      ∧ (Cursor.mk "\"a\\\" b\" c" 0).Yields (word (.goto "INITIAL")) "a\\\" b" 7 :=
  ⟨rfl, reads_values rfl _ _, { value := some "a\\\" b", consumed := 7 }, by decide +kernel, rfl, rfl⟩

end Token

end CommandGrammar
