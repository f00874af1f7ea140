import CommandGrammar.Proofs.Effects
import CommandGrammar.Proofs.Language
import CommandGrammar.Proofs.Positions

/-!
# Diagnoses

A run in which no token matches ends with a diagnostic, and what the diagnostic says is true. Everything in front
of its position is blanks and the pieces that the accepted tokens took, and these tokens lead to its state; where
it stands no blank is left to skip and no token of the state matches; and it names all of them. What the run did
before is what its accepted tokens ask for.

* `Table.Reads` — the front of a text cut into blanks and the pieces of tokens.
* `Machine.hasRead_steps` — steps that go on read the front of their text.
* `Parser.tells_truth` — the statement about whole texts.
-/

namespace CommandGrammar

/-! ## The front of a text -/

/--
The front of a text is cut into blanks and the pieces that tokens take, each of them the first one of its state
that takes anything there. The tokens are accepted where their pieces begin, and lead from the initial state to
one in which the rest is left to read.
-/
inductive Table.Reads (t : Table) :
    (front : List Char) → List Acceptance → StateName → (rest : List Char) → Prop where
  | start (text : List Char) : Reads t [] [] t.initial text
  | next {front blanks piece rest : List Char} {accepted : List Acceptance} {state : StateName} {token : Token}
    (hfront : Reads t front accepted state (blanks ++ piece ++ rest))
    (hblanks : ∀ c ∈ blanks, isBlank c = true) (hpiece : piece ≠ [])
    (hstop : ∀ c ∈ piece.head?, isBlank c = false)
    (hfirst : t.FirstTakes state token piece rest) :
    Reads t (front ++ blanks ++ piece)
      (accepted ++ [((front ++ blanks).length, state, token, token.lexemeOf piece)])
      (t.target token.transition) rest

namespace Machine

variable {σ ρ ε : Type} {m : Machine σ ρ ε} {text : List Char} {c : Config σ}

/-- A stretch has read the front of a text and stands behind it. -/
def HasRead (m : Machine σ ρ ε) (text : List Char) (q : Progress σ ρ ε) : Prop :=
  ∃ front, text = front ++ q.config.rest ∧ q.config.position = front.length
    ∧ m.table.Reads front q.journal.accepted q.config.state q.config.rest

/-- A step that goes on reads one piece more. -/
theorem HasRead.step (hlit : m.table.LiteralsHaveText) {q : Progress σ ρ ε} (h : HasRead m text q)
    (hq : q.ending = none) (hstep : (m.step q.config).ending = none) : HasRead m text (q.andThen m.step) := by
  obtain ⟨front, htext, hposition, hreads⟩ := h
  rw [Progress.andThen_of_none hq]
  revert hstep
  have hs := m.stepped q.config
  generalize m.step q.config = r at hs ⊢
  intro hstep
  cases hs with
  | lost | unmatched | completed => cases hstep
  | cut _ _ he => cases he.symm.trans hstep
  | @moved tokens token lexeme ht hch he hle =>
    obtain ⟨piece, rest, hrest, hpiece, rfl, hlen, hfirst⟩ := Table.exists_piece hlit ht hch hle
    obtain ⟨hsame, hleft, -⟩ := perform_place m token (token.lexemeOf piece) q.config.skipBlanks
    have hblanks : ∀ b ∈ q.config.rest.takeWhile isBlank, isBlank b = true :=
      fun b hb => List.mem_takeWhile_imp hb
    have hall : q.config.rest = q.config.rest.takeWhile isBlank ++ piece ++ rest := by
      rw [List.append_assoc, ← hrest]
      exact q.config.rest_eq
    have hmoved : ((m.perform token (token.lexemeOf piece) q.config.skipBlanks).config.moved
        (token.lexemeOf piece)).rest = rest := by
      show (m.perform token _ q.config.skipBlanks).config.rest.drop _ = rest
      rw [hleft, hrest, hlen, List.drop_left]
    have hstop : ∀ b ∈ piece.head?, isBlank b = false := by
      have hhead := head?_dropWhile_eq_false (p := isBlank) q.config.rest
      rw [show q.config.rest.dropWhile isBlank = piece ++ rest from hrest] at hhead
      cases piece with
      | nil => exact absurd rfl hpiece
      | cons b piece => exact hhead
    rw [hall] at hreads
    have hnext := Table.Reads.next hreads hblanks hpiece hstop hfirst
    refine ⟨front ++ q.config.rest.takeWhile isBlank ++ piece, ?_, ?_, ?_⟩
    · rw [hmoved, htext, List.append_assoc, List.append_assoc, ← List.append_assoc _ piece, ← hall]
    · show (m.perform token _ q.config.skipBlanks).config.position + (token.lexemeOf piece).consumed = _
      rw [hsame, hlen, List.length_append, List.length_append, ← hposition]
      rfl
    · have haccepted : Journal.accepted (q.journal ++ (tries tokens q.config.skipBlanks
          ++ (m.perform token (token.lexemeOf piece) q.config.skipBlanks).journal))
          = q.journal.accepted ++ [((front ++ q.config.rest.takeWhile isBlank).length, q.config.state, token,
            token.lexemeOf piece)] := by
        rw [Journal.accepted_append, Journal.accepted_append, tries_accepted, perform_accepted,
          List.length_append, ← hposition]
        rfl
      show m.table.Reads _ (Journal.accepted (q.journal ++ _))
        (m.perform token _ q.config.skipBlanks).config.state _
      rw [hmoved, haccepted, perform_state he]
      exact hnext

/-- **Steps that go on read the front of their text.** -/
theorem hasRead_steps (hlit : m.table.LiteralsHaveText) (hposition : c.position = 0)
    (hstate : c.state = m.table.initial) {n : Nat} (hn : (m.steps n c).ending = none) :
    HasRead m c.rest (m.steps n c) := by
  induction n with
  | zero =>
    refine ⟨[], rfl, hposition, ?_⟩
    show m.table.Reads [] [] c.state c.rest
    rw [hstate]
    exact .start _
  | succ n ih =>
    rw [steps_succ] at hn ⊢
    obtain ⟨hq, hstep⟩ := Progress.ending_andThen_eq_none.mp hn
    exact (ih hq).step hlit hq hstep

/-- A step that finds no token has skipped blanks, tried all tokens of its state and named them. -/
theorem step_of_unmatched_ending {expected : List String} (h : (m.step c).ending = some (.unmatched expected)) :
    ∃ tokens, m.table.tokens c.state = .ok tokens ∧ (∀ token ∈ tokens, token.lexeme? c.skipBlanks.rest = none)
      ∧ expected = tokens.map Token.displayName ∧ (m.step c).config = c.skipBlanks
      ∧ (m.step c).journal.accepted = [] := by
  have haccepted := accepted_of_unmatched h
  revert h haccepted
  have hs := m.stepped c
  generalize m.step c = q at hs ⊢
  intro h haccepted
  cases hs with
  | lost | moved | completed => cases h
  | cut _ _ he => cases he.symm.trans h
  | @unmatched tokens ht hch =>
    refine ⟨tokens, ht, fun token hm => ?_, ?_, rfl, haccepted⟩
    · exact Option.map_eq_none_iff.mp (List.findSome?_eq_none_iff.mp hch token hm)
    · cases h
      rfl

/-- **A run in which no token matches** has read the front of its text and skipped the blanks behind it, and no
token of its state takes anything of what is left. -/
theorem read_of_unmatched (hlit : m.table.LiteralsHaveText) (hposition : c.position = 0)
    (hstate : c.state = m.table.initial) {n : Nat} {expected : List String}
    (h : (m.steps n c).ending = some (.unmatched expected)) :
    ∃ front blanks rest tokens, c.rest = front ++ blanks ++ rest
      ∧ (m.steps n c).config.position = (front ++ blanks).length
      ∧ (∀ b ∈ blanks, isBlank b = true) ∧ (∀ b ∈ rest.head?, isBlank b = false)
      ∧ m.table.Reads front (m.steps n c).journal.accepted (m.steps n c).config.state (blanks ++ rest)
      ∧ m.table.tokens (m.steps n c).config.state = .ok tokens
      ∧ (∀ token ∈ tokens, token.lexeme? rest = none) ∧ expected = tokens.map Token.displayName := by
  obtain ⟨k, hgoing, hlast, hsame⟩ := m.exists_last_step h
  obtain ⟨front, htext, hfront, hreads⟩ := hasRead_steps hlit hposition hstate hgoing
  obtain ⟨tokens, htokens, hnone, hexpected, hconfig, haccepted⟩ := step_of_unmatched_ending hlast
  rw [hsame, steps_succ, Progress.andThen_of_none hgoing]
  generalize m.steps k c = q at htext hfront hreads htokens hnone hconfig haccepted
  have hrest : q.config.rest = q.config.rest.takeWhile isBlank ++ q.config.skipBlanks.rest := q.config.rest_eq
  refine ⟨front, q.config.rest.takeWhile isBlank, q.config.skipBlanks.rest, tokens, ?_, ?_,
    fun b hb => List.mem_takeWhile_imp hb, head?_dropWhile_eq_false _, ?_, ?_, hnone, hexpected⟩
  · rw [List.append_assoc, ← hrest]
    exact htext
  · rw [hconfig, List.length_append, ← hfront]
    rfl
  · rw [hconfig, ← hrest, Journal.accepted_append, haccepted, List.append_nil]
    exact hreads
  · rw [hconfig]
    exact htokens

end Machine

/-! ## Whole texts -/

/-- Under a position in the input there are as many blanks, and carets behind them. -/
theorem Diagnostic.underline_of_le {d : Diagnostic} {position : Nat} (h : d.position = position)
    (hle : position ≤ d.input.length) :
    d.underline
      = String.ofList (List.replicate position ' ' ++ List.replicate (d.input.length - position) '^') := by
  unfold underline
  rw [h, Int.toNat_natCast, Nat.min_eq_left hle]

namespace Parser

variable {σ ρ ε : Type} {p : Parser σ ρ ε} {text : String} {environment : σ}

/-- An outcome with a diagnostic is that of a run in which no token matched. -/
theorem unmatched_of_diagnostic {q : Progress σ ρ ε} {o : Outcome ρ} {d : Diagnostic}
    (h : (conclude text q).verdict = .ok o) (hd : o.diagnostic = some d) :
    ∃ expected, q.ending = some (.unmatched expected)
      ∧ d = ⟨text, q.config.position, q.config.state, expected⟩ := by
  unfold conclude at h
  split at h
  · obtain rfl := Except.ok.inj h
    cases hd
  · next expected he =>
    obtain rfl := Except.ok.inj h
    exact ⟨expected, he, (Option.some.inj hd).symm⟩
  · cases h
  · cases h

/-- What a diagnostic says of a text, at a position and with the tokens of a state, is true. -/
structure TellsTruth (p : Parser σ ρ ε) (text : String) (environment : σ) (o : Outcome ρ) (d : Diagnostic)
    (position : Nat) (tokens : List Token) : Prop where
  input : d.input = text
  /-- The position lies in the text or at its end, and no blank stands there. -/
  place : d.position = position
  inside : position ≤ text.length
  stop : ∀ c ∈ (Cursor.mk text position).current, isBlank c = false
  /-- No token of the state matches there, and all of them are named in their order, of which there is at least
  one. -/
  known : p.table.tokens d.state = .ok tokens
  unmatched : ∀ token ∈ tokens, (Cursor.mk text position).match? token = none
  expected : d.expected = tokens.map Token.displayName
  nonempty : d.expected ≠ []
  /-- The underline has as many blanks as characters were read, and carets up to the length of the text. -/
  underline : d.underline
    = String.ofList (List.replicate position ' ' ++ List.replicate (text.length - position) '^')
  length : d.underline.length = d.input.length
  /-- In front of the position are the pieces of the accepted tokens, which lead to the state, and blanks. -/
  read : ∃ front blanks rest, text.toList = front ++ blanks ++ rest ∧ position = (front ++ blanks).length
    ∧ (∀ c ∈ blanks, isBlank c = true)
    ∧ p.table.Reads front (p.parse text environment).journal.accepted d.state (blanks ++ rest)
  /-- What was done is what these tokens ask for. -/
  effects : p.HasEffects text environment o

/-- **Diagnostics tell the truth**, in every run on a valid table. -/
theorem tells_truth (p : Parser σ ρ ε) (hvalid : p.table.validate = .ok p.table) (text : String)
    (environment : σ) {o : Outcome ρ} {d : Diagnostic} (h : (p.parse text environment).verdict = .ok o)
    (hd : o.diagnostic = some d) :
    ∃ position tokens, p.TellsTruth text environment o d position tokens := by
  have hcons := Table.consistent_of_validate hvalid
  have heffects := effects_of_outcome hvalid h
  obtain ⟨captures, -, hparse⟩ := exists_parse_eq_conclude h
  rw [progress_eq_behind hcons.literals] at hparse
  rw [hparse] at h
  obtain ⟨expected, hending, hdiagnostic⟩ := unmatched_of_diagnostic h hd
  obtain ⟨front, blanks, rest, tokens, htext, hposition, hblanks, hstop, hreads, htokens, hnone, rfl⟩ :=
    Machine.read_of_unmatched hcons.literals rfl rfl hending
  have haccepted : (p.parse text environment).journal.accepted
      = (p.behind (text.length + 1) text captures environment).journal.accepted := by
    rw [hparse, conclude_accepted]
  have hposition' : (p.behind (text.length + 1) text captures environment).config.position
      = (front ++ blanks).length := hposition
  have htext' : text.toList = front ++ blanks ++ rest := htext
  have hrest : (Cursor.mk text (front ++ blanks).length).rest = rest := by
    rw [Cursor.rest, htext', List.drop_left]
  have hinside : (front ++ blanks).length ≤ text.length := by
    rw [← String.length_toList, htext']
    exact (List.prefix_append _ _).length_le
  refine ⟨(front ++ blanks).length, tokens, ?_⟩
  subst hdiagnostic
  exact
    { input := rfl
      place := congrArg Nat.cast hposition'
      inside := hinside
      stop := by
        rw [Cursor.current_eq, hrest]
        exact hstop
      known := htokens
      unmatched := fun token hm => by
        rw [Cursor.match?_eq_lexeme?, hrest]
        exact hnone token hm
      expected := rfl
      nonempty := fun hnil => by
        rw [List.map_eq_nil_iff.mp hnil] at htokens
        exact hcons.nonempty _ htokens
      underline := Diagnostic.underline_of_le (congrArg Nat.cast hposition') hinside
      length := Diagnostic.length_underline _
      read := ⟨front, blanks, rest, htext', rfl, hblanks, haccepted ▸ hreads⟩
      effects := heffects }

/-- A window is focused and a criterion dropped before the run stops at a quote that nothing closes. -/
theorem tells_truth_window :
    Window.grammar.validate = .ok Window.grammar
      ∧ ∃ o d, ((tracing Window.grammar).parse "focus; [id=7] kill; nop  \"a" {}).verdict = .ok o
        ∧ o.diagnostic = some d
        ∧ (∃ position tokens, (tracing Window.grammar).TellsTruth "focus; [id=7] kill; nop  \"a" {} o d
          position tokens)
        ∧ d.position = 25 ∧ d.state = "NOP" ∧ d.expected = ["<string>", "<end>"] ∧ o.actions.length = 4 := by
  refine ⟨Window.validate_grammar, _, _, rfl, rfl, ?_, rfl, rfl, rfl, rfl⟩
  exact tells_truth (tracing Window.grammar) Window.validate_grammar _ _ rfl rfl

end Parser

end CommandGrammar
