import CommandGrammar.Proofs.Blanks

/-!
# Reading at positions

A cursor reads its text at absolute positions, and a run hands on what is left to read. The two find the same: a
slice that the end of the text cuts off, the character in front of a quote, and what lies behind the end come out
alike. So what a run does at a position depends on the rest of its text alone.

* `Cursor.match?_eq_lexeme?` — a token matches at a cursor what it matches at the beginning of the rest.
* `Machine.stepAt` — a step that goes by its position alone; `stepAt_eq` says that it is a step.
* `Machine.goes_by_rest` — the statement about tokens and about runs from a position on.
-/

namespace CommandGrammar

open Text

/-! ## Searching by positions -/

/-- A search from a position on is a search from the beginning, that much further on. -/
theorem find?_range'_add (test : Nat → Bool) (k n : Nat) :
    (List.range' k n).find? test = ((List.range' 0 n).find? fun i => test (k + i)).map (k + ·) := by
  have hrange : List.range' k n = (List.range' 0 n).map (k + ·) := (List.map_add_range' 0 n 1).symm
  rw [hrange, List.find?_map]
  rfl

theorem find?_range'_succ (test : Nat → Bool) (n : Nat) :
    (List.range' 0 (n + 1)).find? test
      = if test 0 then some 0 else ((List.range' 0 n).find? fun i => test (1 + i)).map (1 + ·) := by
  rw [List.range'_succ, List.find?_cons, find?_range'_add test 1]
  cases test 0 <;> rfl

/-- The first place without a property lies behind the longest run with it. -/
theorem find?_getD_eq_length_takeWhile (test : Char → Bool) (cs : List Char) :
    ((List.range' 0 cs.length).find? fun i => !(cs[i]?).any test).getD cs.length
      = (cs.takeWhile test).length := by
  induction cs with
  | nil => rfl
  | cons c cs ih =>
    rw [List.length_cons, find?_range'_succ]
    cases hc : test c with
    | false => simp [hc]
    | true =>
      rw [List.takeWhile_cons_of_pos hc, List.length_cons, ← ih]
      have hrest : (fun i => !((c :: cs)[1 + i]?).any test) = fun i => !(cs[i]?).any test := by
        funext i
        rw [Nat.add_comm, List.getElem?_cons_succ]
      rw [hrest]
      cases (List.range' 0 cs.length).find? fun i => !(cs[i]?).any test with
      | none => simp [hc]
      | some i => simp [hc, Nat.add_comm]

/-- A mark is found by its place as it is found by reading on, with the character in front at hand. -/
theorem upToMark?_eq_find? (mark before : Char) (cs : List Char) :
    upToMark? mark before cs
      = ((List.range' 0 cs.length).find? fun i =>
          cs[i]? == some mark && (before :: cs)[i]? != some '\\').map cs.take := by
  induction cs generalizing before with
  | nil => rfl
  | cons c cs ih =>
    rw [upToMark?, List.length_cons, find?_range'_succ]
    by_cases hc : c = mark ∧ before ≠ '\\'
    · simp [hc]
    · have hfirst : ((c :: cs)[0]? == some mark && (before :: c :: cs)[0]? != some '\\') = false := by
        simpa using hc
      rw [if_neg hc, hfirst, ih c]
      have hrest : (fun i => (c :: cs)[1 + i]? == some mark && (before :: c :: cs)[1 + i]? != some '\\')
          = fun i => cs[i]? == some mark && (c :: cs)[i]? != some '\\' := by
        funext i
        rw [Nat.add_comm, List.getElem?_cons_succ, List.getElem?_cons_succ]
      rw [hrest]
      simp [Function.comp_def, Nat.add_comm 1]

namespace Cursor

variable (c : Cursor)

theorem charAt?_add (i : Nat) : c.charAt? (c.position + i) = c.rest[i]? := by
  rw [charAt?, rest, List.getElem?_drop]

theorem slice_add (i j : Nat) : c.slice (c.position + i) (c.position + j) = c.rest.extract i j := by
  simp [slice, rest, List.extract, Nat.add_sub_add_left]

theorem length_rest : c.rest.length = c.text.length - c.position := by
  rw [rest, List.length_drop, String.length_toList]

theorem seek?_add (i : Nat) (test : Nat → Bool) :
    c.seek? (c.position + i) test
      = ((List.range' i (c.rest.length - i)).find? fun k => test (c.position + k)).map
          (c.position + ·) := by
  rw [seek?, find?_range'_add, find?_range'_add _ i, length_rest, Nat.sub_sub, Option.map_map]
  congr 1
  · funext k; simp [Nat.add_assoc]
  · simp [Nat.add_assoc]

/-- The run from a cursor on is the longest one at the beginning of what is left. -/
theorem behind_eq (test : Char → Bool) :
    c.behind test = c.position + (c.rest.takeWhile test).length := by
  have hseek := c.seek?_add 0 fun i => !(c.charAt? i).any test
  simp only [Nat.add_zero, Nat.sub_zero, charAt?_add] at hseek
  rw [behind, hseek, ← find?_getD_eq_length_takeWhile]
  cases (List.range' 0 c.rest.length).find? fun i => !(c.rest[i]?).any test with
  | some i => rfl
  | none =>
    have hlen := c.length_rest
    simp only [Option.map_none, Option.getD_none]
    omega

theorem skipBlanks_position :
    c.skipBlanks.position = c.position + (c.rest.takeWhile isBlank).length := c.behind_eq isBlank

theorem rest_skipBlanks : c.skipBlanks.rest = c.rest.dropWhile isBlank := by
  show c.text.toList.drop c.skipBlanks.position = _
  rw [skipBlanks_position, ← List.drop_drop]
  exact drop_length_takeWhile isBlank c.rest

theorem current_eq : c.current = c.rest.head? := by
  rw [List.head?_eq_getElem?, ← charAt?_add, Nat.add_zero, current]

theorem literal?_eq (keyword : String) : c.literal? keyword = Lexeme.literal? keyword c.rest := by
  have hslice := c.slice_add 0 keyword.toList.length
  simp only [Nat.add_zero] at hslice
  simp only [literal?, Lexeme.literal?, hslice, List.extract, Nat.sub_zero, List.drop_zero]

theorem quoted?_eq {body : List Char} (h : c.rest = '"' :: body) :
    c.quoted? = Lexeme.quoted? body := by
  have hseek := c.seek?_add 1 fun i => c.charAt? i == some '"' && c.charAt? (i - 1) != some '\\'
  rw [find?_range'_add _ 1, h] at hseek
  unfold quoted? Lexeme.quoted?
  rw [hseek, upToMark?_eq_find?]
  -- The character in front of the one at `1 + i` is the one at `i`, the opening quote included.
  have htest : ∀ i, (c.charAt? (c.position + (1 + i)) == some '"'
        && c.charAt? (c.position + (1 + i) - 1) != some '\\')
      = (body[i]? == some '"' && ('"' :: body)[i]? != some '\\') := by
    intro i
    have hbefore : c.position + (1 + i) - 1 = c.position + i := by omega
    rw [hbefore, charAt?_add, charAt?_add, h, Nat.add_comm 1, List.getElem?_cons_succ]
  simp only [htest, List.length_cons, Nat.add_sub_cancel]
  cases hfind : (List.range' 0 body.length).find? fun i =>
      body[i]? == some '"' && ('"' :: body)[i]? != some '\\' with
  | none => rfl
  | some i =>
    have hi : i < body.length := by simpa using List.mem_of_find?_eq_some hfind
    have hslice := c.slice_add 1 (1 + i)
    rw [h] at hslice
    simp [hslice, List.extract]
    omega

theorem freeText?_eq (isDelimiter : Char → Bool) :
    c.freeText? isDelimiter = Lexeme.freeText? isDelimiter c.rest := by
  unfold freeText? Lexeme.freeText?
  rw [current_eq]
  split
  · next hquote =>
    obtain ⟨body, hbody⟩ : ∃ body, c.rest = '"' :: body := by
      cases hr : c.rest with
      | nil => rw [hr] at hquote; cases hquote
      | cons d body => rw [hr] at hquote; exact ⟨body, by rw [Option.some.inj hquote]⟩
    rw [hbody]
    exact c.quoted?_eq hbody
  · next hquote =>
    split
    · next body hbody => simp [hbody] at hquote
    · -- What stands between the cursor and the end of the run is the run.
      have hbehind := c.behind_eq fun d => !isDelimiter d
      have hslice := c.slice_add 0 (c.rest.takeWhile fun d => !isDelimiter d).length
      rw [← hbehind, Nat.add_zero] at hslice
      have htake : c.rest.extract 0 (c.rest.takeWhile fun d => !isDelimiter d).length
          = c.rest.takeWhile fun d => !isDelimiter d :=
        (List.prefix_iff_eq_take.mp (List.takeWhile_prefix _)).symm
      simp only [hslice, htake]
      unfold Lexeme.bare?
      cases hrun : c.rest.takeWhile fun d => !isDelimiter d with
      | nil => simp [hbehind, hrun]
      | cons d run => simp [hbehind, hrun]

theorem commandEnd?_eq : c.commandEnd? = Lexeme.commandEnd? c.rest := by
  unfold commandEnd?
  rw [current_eq]
  cases hr : c.rest with
  | nil => rw [if_pos (rest_eq_nil_iff.mp hr)]; rfl
  | cons d rest =>
    rw [if_neg fun hend => by simp [rest_eq_nil_iff.mpr hend] at hr]
    simp [Lexeme.commandEnd?, Option.filter, apply_ite]

/-- **Reading at positions finds what reading on finds.** -/
theorem match?_eq_lexeme? (token : Token) : c.match? token = token.lexeme? c.rest := by
  unfold match? Token.lexeme?
  cases token.kind with
  | literal => exact c.literal?_eq _
  | word => exact c.freeText?_eq _
  | string => exact c.freeText?_eq _
  | commandEnd => exact c.commandEnd?_eq

end Cursor

/-! ## Runs that read at positions -/

namespace Cursor

/-- The first token that matches at a cursor, with what it matches. -/
def choose? (c : Cursor) (tokens : List Token) : Option (Token × Lexeme) :=
  tokens.findSome? fun token => (c.match? token).map (token, ·)

/-- The tokens that are tried at a cursor. -/
def tried (c : Cursor) (tokens : List Token) : List Token :=
  tokens.takeWhile (fun token => (c.match? token).isNone)
    ++ (tokens.find? fun token => (c.match? token).isSome).toList

/-- The configuration of a run that stands at a cursor. -/
def config {σ : Type} (c : Cursor) (state : StateName) (captures : Captures) (environment : σ) :
    Config σ :=
  { position := c.position, rest := c.rest, state, captures, environment }

theorem choose?_eq (c : Cursor) (tokens : List Token) :
    c.choose? tokens = CommandGrammar.choose? tokens c.rest := by
  simp only [choose?, CommandGrammar.choose?, match?_eq_lexeme?]

theorem tried_eq (c : Cursor) (tokens : List Token) : c.tried tokens = triedTokens tokens c.rest := by
  simp only [tried, triedTokens, match?_eq_lexeme?]

end Cursor

/-- A configuration put at a cursor. -/
def Config.standing {σ : Type} (c : Config σ) (k : Cursor) : Config σ :=
  { c with position := k.position, rest := k.rest }

namespace Machine

variable {σ ρ ε : Type} (m : Machine σ ρ ε)

/-- The position moves behind the lexeme, and a position behind the text completes the run. -/
def advanceAt (text : String) (lexeme : Lexeme) (c : Config σ) : Progress σ ρ ε :=
  let next := Cursor.mk text (c.position + lexeme.consumed)
  if next.position ≤ text.length then .note (c.standing next) [] else .stop (c.standing next) .complete

/--
One step of a run that reads its text at absolute positions: it goes by its position alone, and never looks at
what it has been told is left to read.
-/
def stepAt (text : String) (start : Config σ) : Progress σ ρ ε :=
  let k := (Cursor.mk text start.position).skipBlanks
  let c := start.standing k
  match m.table.tokens c.state with
  | .error e => .stop c (.abandoned (.table e))
  | .ok tokens =>
    Progress.note c ((k.tried tokens).map (Event.tried c.state)) |>.andThen fun c =>
      match k.choose? tokens with
      | some (token, lexeme) => (m.perform token lexeme c).andThen (advanceAt text lexeme)
      | none => .stop c (.unmatched (tokens.map Token.displayName))

/-- The first `n` steps of such a run, or fewer if it ends before. -/
def stepsAt (text : String) : (n : Nat) → Config σ → Progress σ ρ ε
  | 0, c => .note c []
  | n + 1, c => (m.stepAt text c).andThen (stepsAt text n)

variable {m} {text : String} {c : Config σ}

/-- Blanks are skipped alike. -/
theorem standing_skipBlanks (h : c.Within text.toList) :
    c.standing (Cursor.mk text c.position).skipBlanks = c.skipBlanks := by
  have hrest : (Cursor.mk text c.position).rest = c.rest := h.2.symm
  unfold Config.standing Config.skipBlanks
  rw [Cursor.skipBlanks_position, Cursor.rest_skipBlanks, hrest]

/-- So does the position move on. -/
theorem advanceAt_eq (h : c.Within text.toList) (lexeme : Lexeme) :
    (advanceAt text lexeme c : Progress σ ρ ε) = advance lexeme c := by
  have hmoved : c.standing (Cursor.mk text (c.position + lexeme.consumed)) = c.moved lexeme := by
    unfold Config.standing Config.moved
    rw [h.2, List.drop_drop]
    rfl
  have hlen := h.position_add
  rw [String.length_toList] at hlen
  unfold advanceAt
  simp only [hmoved]
  by_cases hle : lexeme.consumed ≤ c.rest.length
  · rw [advance_of_le hle, if_pos (by omega)]
  · rw [advance_of_lt (Nat.lt_of_not_le hle), if_neg (by omega)]

/-- **A step that reads at positions is a step** that reads on from where it stands. -/
theorem stepAt_eq (h : c.Within text.toList) : m.stepAt text c = m.step c := by
  have hskip := standing_skipBlanks h
  have hrest : (Cursor.mk text c.position).skipBlanks.rest = c.skipBlanks.rest := by
    rw [← hskip]; rfl
  have htried : ∀ tokens, (Cursor.mk text c.position).skipBlanks.tried tokens
      = triedTokens tokens c.skipBlanks.rest := fun tokens => by rw [Cursor.tried_eq, hrest]
  have hchoose : ∀ tokens, (Cursor.mk text c.position).skipBlanks.choose? tokens
      = choose? tokens c.skipBlanks.rest := fun tokens => by rw [Cursor.choose?_eq, hrest]
  unfold stepAt step
  simp only [hskip, htried, hchoose]
  cases m.table.tokens c.skipBlanks.state with
  | error e => rfl
  | ok tokens =>
    simp only [Progress.andThen_note]
    cases choose? tokens c.skipBlanks.rest with
    | none => rfl
    | some chosen =>
      obtain ⟨token, lexeme⟩ := chosen
      obtain ⟨hposition, hsame, -⟩ := perform_place m token lexeme c.skipBlanks
      have hadvance := advanceAt_eq (ρ := ρ) (ε := ε) (h.skipBlanks.congr hposition hsame) lexeme
      simp only
      rw [accept_eq, ← Progress.andThen_const, hadvance, Progress.andThen_const]

/-- **Any number of steps that read at positions are as many steps.** -/
theorem stepsAt_eq (h : c.Within text.toList) (n : Nat) : m.stepsAt text n c = m.steps n c := by
  induction n generalizing c with
  | zero => rfl
  | succ n ih =>
    rw [stepsAt, stepAt_eq h, steps_one_add]
    cases he : (m.step c).ending with
    | some e => rw [Progress.andThen_of_some he, Progress.andThen_of_some he]
    | none =>
      rw [Progress.andThen_of_none he, Progress.andThen_of_none he, ih (step_within h he)]

/-! ## The rest of a text -/

/-- What lies in front of a position has no part in what is done there. -/
structure GoesByRest (m : Machine σ ρ ε) (text : String) (position : Nat) : Prop where
  /-- Every token matches at the position what it matches at the beginning of the rest of the text, behind the
  end of the text as well. -/
  tokens : ∀ token : Token, (Cursor.mk text position).match? token
    = (Cursor.mk (textFrom text position) 0).match? token
  /-- In any state, with any captures held and room for any number of them, a run that stands at the position
  takes the steps of one that reads the whole text at positions. -/
  positional : position ≤ text.length → ∀ state captures environment n,
    m.steps n ((Cursor.mk text position).config state captures environment)
      = m.stepsAt text n ((Cursor.mk text position).config state captures environment)
  /-- These are the steps on the rest of the text from its beginning, only so much further on. -/
  shifted : position ≤ text.length → ∀ state captures environment n,
    m.stepsAt text n ((Cursor.mk text position).config state captures environment)
      = (Embedding.shift position).progress (m.stepsAt (textFrom text position) n
          ((Cursor.mk (textFrom text position) 0).config state captures environment))
  /-- These are all positions at which there is a run to go on with: one that goes on never stands behind the end
  of its text. -/
  within : position ≤ text.length → ∀ state captures environment n,
    (m.steps n ((Cursor.mk text position).config state captures environment)).ending = none →
    (m.steps n ((Cursor.mk text position).config state captures environment)).config.position
      ≤ text.length
  /-- It has come to its end behind one step for each character of the rest and one more. -/
  ends : position ≤ text.length → ∀ state captures environment, ∃ e,
    (m.steps (text.length - position + 1)
      ((Cursor.mk text position).config state captures environment)).ending = some e

/-- **What a run does at a position depends on the rest of its text alone**, up to the place where it stands. -/
theorem goes_by_rest (m : Machine σ ρ ε) (hvalid : m.table.validate = .ok m.table) (text : String)
    (position : Nat) : m.GoesByRest text position := by
  have hlit := (Table.consistent_of_validate hvalid).literals
  have hfrom : (Cursor.mk (textFrom text position) 0).rest = (Cursor.mk text position).rest := by
    simp [Cursor.rest, textFrom]
  have hwithin : position ≤ text.length → ∀ state captures (environment : σ),
      ((Cursor.mk text position).config state captures environment).Within text.toList :=
    fun hle _ _ _ => ⟨by rwa [String.length_toList], rfl⟩
  have hstart : ∀ state captures (environment : σ),
      ((Cursor.mk (textFrom text position) 0).config state captures environment).Within
        (textFrom text position).toList := fun _ _ _ => ⟨Nat.zero_le _, rfl⟩
  refine
    { tokens := fun token => by rw [Cursor.match?_eq_lexeme?, Cursor.match?_eq_lexeme?, hfrom]
      positional := fun hle state captures environment n => (stepsAt_eq (hwithin hle _ _ _) n).symm
      shifted := fun hle state captures environment n => ?_
      within := fun hle state captures environment n hgoing => ?_
      ends := fun hle state captures environment => ?_ }
  · have hconfig : (Cursor.mk text position).config state captures environment
        = (Embedding.shift position).config
            ((Cursor.mk (textFrom text position) 0).config state captures environment) := by
      unfold Cursor.config Embedding.config Embedding.shift
      simp [hfrom]
    rw [stepsAt_eq (hwithin hle _ _ _), stepsAt_eq (hstart _ _ _), hconfig]
    exact steps_embed (respects_shift position) rfl n _
  · have hin := ((paced_steps hlit (hwithin hle state captures environment) n).going hgoing).1.1
    rwa [String.length_toList] at hin
  · refine exists_ending hlit (hwithin hle state captures environment) ?_
    show (Cursor.mk text position).rest.length < _
    rw [Cursor.length_rest]
    exact Nat.lt_succ_self _

/-- A run in the middle of a quoted comment with an escaped quote, where the rest of the text starts with that
quote. -/
theorem goes_by_rest_window :
    Window.grammar.validate = .ok Window.grammar
      ∧ (Parser.tracing Window.grammar).GoesByRest "nop \"a\\\"b\"; kill" 7
      ∧ textFrom "nop \"a\\\"b\"; kill" 7 = "\"b\"; kill"
      ∧ (Cursor.mk "nop \"a\\\"b\"; kill" 7).match? (.string (.goto "INITIAL"))
        = some { value := some "b", consumed := 3 } :=
  ⟨Window.validate_grammar,
    goes_by_rest (Parser.tracing Window.grammar).toMachine Window.validate_grammar _ _, by decide +kernel,
    by decide +kernel⟩

end Machine

end CommandGrammar
