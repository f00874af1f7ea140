import CommandGrammar.Proofs.Termination
import CommandGrammar.Proofs.Tracing

/-!
# The language of a table

`Table.Tiles` says without any run which texts a table accepts, and with which tokens: the text is cut
into blanks and pieces by turns, each piece is what the first token takes that takes anything there, and
behind the last blanks a command ends with the text.

* `Table.FirstTakes` — the first token of a state that takes anything at a place.
* `tiles_of_complete` — a complete run tiles its text.
* `complete_of_tiles` — on a tiled text a run is complete, unless a capture is refused.
* `Parser.accepts_iff_tiles` — the language of a parser, exactly.
-/

namespace CommandGrammar

/-! ## Tilings -/

namespace Table

/-- Where `taken` and then `rest` stand, the token takes `taken`, and it is the first one of the state that
takes anything there. -/
def FirstTakes (t : Table) (state : StateName) (token : Token) (taken rest : List Char) : Prop :=
  ∃ before after, t.tokens state = .ok (before ++ token :: after) ∧ token.Takes taken rest
    ∧ ∀ u ∈ before, ∀ x y, x ++ y = taken ++ rest → ¬u.Takes x y

/-- From a state, a text is cut into blanks and the pieces that the tokens take. -/
inductive Tiles (t : Table) : StateName → List Char → List Token → Prop where
  /-- Nothing but blanks is left, and a command ends with the text. -/
  | last {state : StateName} {blanks : List Char} {token : Token}
    (hblanks : ∀ c ∈ blanks, isBlank c = true) (hkind : token.kind = .commandEnd)
    (hfirst : t.FirstTakes state token [] []) : Tiles t state blanks [token]
  /-- Behind as many blanks as there are, a token takes a piece, and the rest is tiled from the state to
  which its transition leads. -/
  | next {state : StateName} {blanks piece rest : List Char} {token : Token} {tokens : List Token}
    (hblanks : ∀ c ∈ blanks, isBlank c = true) (hpiece : piece ≠ [])
    (hstop : ∀ c ∈ (piece ++ rest).head?, isBlank c = false)
    (hfirst : t.FirstTakes state token piece rest)
    (hrest : Tiles t (t.target token.transition) rest tokens) :
    Tiles t state (blanks ++ piece ++ rest) (token :: tokens)

/-- **The first token that takes anything is the one chosen.** -/
theorem firstTakes_iff_choose? {t : Table} {state : StateName} {token : Token}
    {taken rest : List Char} :
    t.FirstTakes state token taken rest
      ↔ ∃ tokens, t.tokens state = .ok tokens ∧ token.Takes taken rest
        ∧ choose? tokens (taken ++ rest) = some (token, token.lexemeOf taken) := by
  have hnone : ∀ u : Token, u.lexeme? (taken ++ rest) = none
      ↔ ∀ x y, x ++ y = taken ++ rest → ¬u.Takes x y := by
    intro u
    rw [Option.eq_none_iff_forall_ne_some]
    constructor
    · intro h x y hxy htakes
      exact h (u.lexemeOf x) (Token.lexeme?_eq_some_iff.mpr ⟨x, y, hxy.symm, htakes, rfl⟩)
    · intro h l hl
      obtain ⟨x, y, hxy, htakes, -⟩ := Token.lexeme?_eq_some_iff.mp hl
      exact h x y hxy.symm htakes
  constructor
  · rintro ⟨before, after, ht, htakes, hbefore⟩
    refine ⟨_, ht, htakes, choose?_eq_some_iff.mpr ⟨before, after, rfl, ?_, ?_⟩⟩
    · exact fun u hu => (hnone u).mpr (hbefore u hu)
    · exact Token.lexeme?_eq_some_iff.mpr ⟨taken, rest, rfl, htakes, rfl⟩
  · rintro ⟨tokens, ht, htakes, hchoose⟩
    obtain ⟨before, after, rfl, hbefore, -⟩ := choose?_eq_some_iff.mp hchoose
    exact ⟨before, after, ht, htakes, fun u hu => (hnone u).mp (hbefore u hu)⟩

/-- What is chosen is what is taken first. -/
theorem exists_firstTakes {t : Table} {state : StateName} {tokens : List Token} {token : Token}
    {lexeme : Lexeme} {cs : List Char} (ht : t.tokens state = .ok tokens)
    (hchoose : choose? tokens cs = some (token, lexeme)) :
    ∃ taken rest, cs = taken ++ rest ∧ lexeme = token.lexemeOf taken
      ∧ t.FirstTakes state token taken rest := by
  obtain ⟨taken, rest, rfl, htakes, rfl⟩ :=
    Token.lexeme?_eq_some_iff.mp (lexeme?_of_choose? hchoose)
  exact ⟨taken, rest, rfl, rfl, firstTakes_iff_choose?.mpr ⟨tokens, ht, htakes, hchoose⟩⟩

theorem FirstTakes.takes {t : Table} {state : StateName} {token : Token} {taken rest : List Char}
    (h : t.FirstTakes state token taken rest) : token.Takes taken rest := by
  obtain ⟨_, _, _, htakes, _⟩ := h
  exact htakes

theorem FirstTakes.lists {t : Table} {state : StateName} {token : Token} {taken rest : List Char}
    (h : t.FirstTakes state token taken rest) : t.Lists state token := by
  obtain ⟨before, after, ht, -, -⟩ := h
  exact ⟨_, ht, by simp⟩

/-- What is chosen in front of the end of the text takes a piece of it. -/
theorem exists_piece {t : Table} (hlit : t.LiteralsHaveText) {state : StateName} {tokens : List Token}
    {token : Token} {lexeme : Lexeme} {cs : List Char} (ht : t.tokens state = .ok tokens)
    (hchoose : choose? tokens cs = some (token, lexeme)) (hle : lexeme.consumed ≤ cs.length) :
    ∃ piece rest, cs = piece ++ rest ∧ piece ≠ [] ∧ lexeme = token.lexemeOf piece
      ∧ lexeme.consumed = piece.length ∧ t.FirstTakes state token piece rest := by
  obtain ⟨piece, rest, rfl, rfl, hfirst⟩ := exists_firstTakes ht hchoose
  refine ⟨piece, rest, rfl, ?_⟩
  -- Only the end of the text is taken with nothing, and it counts as one character.
  rcases hfirst.takes.consumed with hlen | ⟨rfl, rfl, -, hend⟩
  · rcases hfirst.takes.length_pos (hlit _ _ hfirst.lists) with hpos | ⟨rfl, rfl, hk⟩
    · exact ⟨List.length_pos_iff.mp hpos, rfl, hlen, hfirst⟩
    · simp [Token.lexemeOf, hk] at hlen
  · rw [hend] at hle
    cases hle

end Table

/-! ## A complete run tiles its text -/

/-- The text at a configuration is the blanks there and what follows them. -/
theorem Config.rest_eq {σ : Type} (c : Config σ) :
    c.rest = c.rest.takeWhile isBlank ++ c.skipBlanks.rest :=
  List.takeWhile_append_dropWhile.symm

namespace Machine

variable {σ ρ ε : Type} {m : Machine σ ρ ε}

/-- **A complete run tiles its text** with the tokens that it accepts. -/
theorem tiles_of_complete (hlit : m.table.LiteralsHaveText) (n : Nat) (c : Config σ)
    (h : (m.steps n c).ending = some .complete) :
    m.table.Tiles c.state c.rest ((m.steps n c).journal.accepted.map fun a => a.2.2.1) := by
  -- From the first step on, as a tiling starts with its first piece.
  induction n generalizing c with
  | zero => simp [steps_zero, Progress.note] at h
  | succ n ih =>
    rw [steps_one_add] at h ⊢
    have hblanks : ∀ b ∈ c.rest.takeWhile isBlank, isBlank b = true :=
      fun b hb => List.mem_takeWhile_imp hb
    revert h
    have hs := m.stepped c
    generalize m.step c = q at hs ⊢
    intro h
    cases hs with
    | lost | unmatched => simp [Progress.stop, Progress.andThen] at h
    | cut _ _ he =>
      rcases Progress.ending_andThen_eq_some.mp h with h | ⟨h, -⟩
      · cases he.symm.trans h
      · cases he.symm.trans h
    | @moved tokens token lexeme ht hch he hle =>
      obtain ⟨piece, rest, hrest, hpiece, -, hlen, hfirst⟩ := Table.exists_piece hlit ht hch hle
      rw [Progress.ending_andThen_of_none rfl] at h
      rw [Progress.journal_andThen_of_none rfl, Journal.accepted_append, Journal.accepted_append,
        tries_accepted, perform_accepted, List.nil_append, List.map_append]
      have hnext := ih _ h
      have hstate : ((m.perform token lexeme c.skipBlanks).config.moved lexeme).state
          = m.table.target token.transition := perform_state he
      have hmoved : ((m.perform token lexeme c.skipBlanks).config.moved lexeme).rest = rest := by
        show (m.perform token lexeme c.skipBlanks).config.rest.drop lexeme.consumed = rest
        rw [(perform_place m token lexeme c.skipBlanks).2.1, hrest, hlen, List.drop_left]
      rw [hstate, hmoved] at hnext
      rw [c.rest_eq, hrest, ← List.append_assoc]
      refine .next hblanks hpiece ?_ hfirst hnext
      rw [← hrest]
      exact head?_dropWhile_eq_false c.rest
    | @completed tokens token lexeme ht hch he hlt =>
      obtain ⟨taken, rest, hrest, hl, hfirst⟩ := Table.exists_firstTakes ht hch
      rcases hfirst.takes.consumed with hlen | ⟨rfl, rfl, hk, -⟩
      · rw [hrest, hl, hlen, List.length_append] at hlt
        omega
      · rw [Progress.andThen_of_some rfl, Journal.accepted_append, tries_accepted,
          perform_accepted, c.rest_eq, hrest, List.append_nil, List.append_nil]
        exact .last hblanks hk hfirst

/-! ## On a tiled text a run is complete -/

/-- A step at a place where a token takes something first accepts that token, unless its capture is
refused. -/
theorem step_of_firstTakes (h : m.table.Consistent) (hcallbacks : m.Unfailing) {c : Config σ}
    {token : Token} {taken rest : List Char} (hfirst : m.table.FirstTakes c.state token taken rest)
    (hrest : c.skipBlanks.rest = taken ++ rest) :
    (∃ e, (m.step c).ending = some (.abandoned (.capture e)))
      ∨ (m.step c).journal.accepted.map (fun a => a.2.2.1) = [token]
        ∧ ((token.lexemeOf taken).consumed ≤ (taken ++ rest).length →
          (m.step c).ending = none ∧ (m.step c).config.state = m.table.target token.transition
            ∧ (m.step c).config.rest = (taken ++ rest).drop (token.lexemeOf taken).consumed)
        ∧ ((taken ++ rest).length < (token.lexemeOf taken).consumed →
          (m.step c).ending = some .complete) := by
  have hlist := hfirst.lists
  obtain ⟨tokens, ht, htakes, hchoose⟩ := Table.firstTakes_iff_choose?.mp hfirst
  rw [← hrest] at hchoose
  have hperform : (m.perform token (token.lexemeOf taken) c.skipBlanks).ending = none
      ∨ ∃ e, (m.perform token (token.lexemeOf taken) c.skipBlanks).ending
        = some (.abandoned (.capture e)) := by
    rcases room_or_refused token (token.lexemeOf taken) c.skipBlanks with hroom | ⟨_, _, e, hc, hp⟩
    · exact Or.inl (perform_ending_eq_none hcallbacks hroom (h.actions c.state token hlist))
    · exact Or.inr ⟨e, by rw [perform_of_refused hc hp]⟩
  have hs := m.stepped c
  generalize m.step c = q at hs ⊢
  cases hs with
  | lost ht' => rw [ht] at ht'; cases ht'
  | unmatched ht' hc' =>
    obtain rfl := Except.ok.inj (ht.symm.trans ht')
    rw [hchoose] at hc'
    cases hc'
  | cut ht' hc' he =>
    obtain rfl := Except.ok.inj (ht.symm.trans ht')
    obtain ⟨rfl, rfl⟩ := Prod.mk.inj (Option.some.inj (hchoose.symm.trans hc'))
    rcases hperform with hnone | ⟨e, hend⟩
    · rw [hnone] at he
      cases he
    · exact Or.inl ⟨e, hend⟩
  | moved ht' hc' he hle =>
    obtain rfl := Except.ok.inj (ht.symm.trans ht')
    obtain ⟨rfl, rfl⟩ := Prod.mk.inj (Option.some.inj (hchoose.symm.trans hc'))
    right
    rw [hrest] at hle
    refine ⟨?_, fun _ => ⟨rfl, perform_state he, ?_⟩, fun hlt => by omega⟩
    · rw [Journal.accepted_append, tries_accepted, perform_accepted]
      rfl
    · show (m.perform token _ c.skipBlanks).config.rest.drop _ = _
      rw [(perform_place m token _ c.skipBlanks).2.1, hrest]
  | completed ht' hc' he hlt =>
    obtain rfl := Except.ok.inj (ht.symm.trans ht')
    obtain ⟨rfl, rfl⟩ := Prod.mk.inj (Option.some.inj (hchoose.symm.trans hc'))
    right
    rw [hrest] at hlt
    refine ⟨?_, fun hle => by omega, fun _ => rfl⟩
    rw [Journal.accepted_append, tries_accepted, perform_accepted]
    rfl

/-- **On a tiled text a run is complete** and accepts the tokens of the tiling, unless a capture is
refused. -/
theorem complete_of_tiles (h : m.table.Consistent) (hcallbacks : m.Unfailing) {state : StateName}
    {text : List Char} {tokens : List Token} (htiles : m.table.Tiles state text tokens) :
    ∀ c : Config σ, c.state = state → c.rest = text → ∃ n,
      (∃ e, (m.steps n c).ending = some (.abandoned (.capture e)))
        ∨ (m.steps n c).ending = some .complete
          ∧ (m.steps n c).journal.accepted.map (fun a => a.2.2.1) = tokens := by
  induction htiles with
  | @last state blanks token hblanks hkind hfirst =>
    rintro c rfl hc
    have hrest : c.skipBlanks.rest = [] ++ [] := by
      show c.rest.dropWhile isBlank = []
      rw [hc]
      exact List.dropWhile_eq_nil_iff.mpr hblanks
    refine ⟨1, ?_⟩
    rw [steps_one]
    rcases step_of_firstTakes h hcallbacks hfirst hrest with hrefused | ⟨hacc, -, hcomplete⟩
    · exact Or.inl hrefused
    · exact Or.inr ⟨hcomplete (by simp [Token.lexemeOf, hkind]), hacc⟩
  | @next state blanks piece rest token tokens hblanks hpiece hstop hfirst _ ih =>
    rintro c rfl hc
    have hrest : c.skipBlanks.rest = piece ++ rest := by
      show c.rest.dropWhile isBlank = piece ++ rest
      rw [hc, List.append_assoc, dropWhile_append_of_stop hblanks hstop]
    have hconsumed : (token.lexemeOf piece).consumed = piece.length := by
      rcases hfirst.takes.consumed with hlen | ⟨hnil, -⟩
      · exact hlen
      · exact absurd hnil hpiece
    rcases step_of_firstTakes h hcallbacks hfirst hrest with ⟨e, he⟩ | ⟨hacc, hgoes, -⟩
    · exact ⟨1, Or.inl ⟨e, by rw [steps_one, he]⟩⟩
    · obtain ⟨hnone, hstate, hmoved⟩ := hgoes (by rw [hconsumed, List.length_append]; omega)
      rw [hconsumed, List.drop_left] at hmoved
      obtain ⟨n, hn⟩ := ih (m.step c).config hstate hmoved
      refine ⟨n + 1, ?_⟩
      rw [steps_one_add, Progress.ending_andThen_of_none hnone,
        Progress.journal_andThen_of_none hnone, Journal.accepted_append, List.map_append, hacc]
      rcases hn with hrefused | ⟨hcomplete, htokens⟩
      · exact Or.inl hrefused
      · exact Or.inr ⟨hcomplete, by rw [htokens]; rfl⟩

end Machine

/-! ## The language of a parser -/

namespace Parser

variable {σ ρ ε : Type}

/-- **A parser accepts exactly the texts that its table tiles**, each with the tokens of its tiling, as long
as there is no limit on the length, no callback fails and no capture is refused. -/
theorem accepts_iff_tiles (p : Parser σ ρ ε) (hvalid : p.table.validate = .ok p.table)
    (hlimit : p.maxInputLength = none) (hcallbacks : p.Unfailing) (text : String) (environment : σ)
    (hcaptures : ∀ e, (p.parse text environment).verdict ≠ .error (.capture e))
    (tokens : List Token) :
    (∃ o, (p.parse text environment).verdict = .ok o ∧ o.ok = true
        ∧ (p.parse text environment).journal.accepted.map (fun a => a.2.2.1) = tokens)
      ↔ p.table.Tiles p.table.initial text.toList tokens := by
  have hcons := Table.consistent_of_validate hvalid
  have hexceeds : p.exceeds text = none := by
    unfold exceeds
    rw [hlimit]
    rfl
  cases hempty : Captures.empty? p.captureCapacity with
  | error e => exact absurd (by simp only [parse, hexceeds, hempty]) (hcaptures e)
  | ok captures =>
    have hparse := parse_eq_conclude hexceeds hempty environment
    rw [progress_eq_behind hcons.literals] at hparse
    rw [hparse] at hcaptures
    rw [hparse, conclude_accepted]
    constructor
    · rintro ⟨o, ho, hok, rfl⟩
      exact Machine.tiles_of_complete hcons.literals _ _ (conclude_ok_iff.mp ⟨o, ho, hok⟩)
    · intro htiles
      obtain ⟨e, he⟩ := Option.ne_none_iff_exists'.mp
        (run_eq_behind hcons.literals text captures environment).1
      obtain ⟨n, hn⟩ := Machine.complete_of_tiles hcons hcallbacks htiles
        (p.start text captures environment) rfl rfl
      -- However many steps the tiling needs, the budget covers them: the run ends once only.
      have hsame : ∀ {e'}, (p.steps n (p.start text captures environment)).ending = some e' →
          p.steps n (p.start text captures environment)
            = p.behind (text.length + 1) text captures environment :=
        fun h => p.steps_eq_of_ended h he
      rcases hn with ⟨x, hx⟩ | ⟨hcomplete, htokens⟩
      · rw [hsame hx] at hx
        exact absurd (conclude_eq_capture_iff.mpr hx) (hcaptures x)
      · rw [hsame hcomplete] at htokens
        rw [hsame hcomplete] at hcomplete
        obtain ⟨o, ho, hok⟩ := conclude_ok_iff.mpr hcomplete
        exact ⟨o, ho, hok, htokens⟩

/-- Two commands behind each other are tiled by their tokens. -/
theorem accepts_iff_tiles_window :
    Window.grammar.validate = .ok Window.grammar
      ∧ (tracing Window.grammar).maxInputLength = none
      ∧ (tracing Window.grammar).Unfailing
      ∧ (∀ e, ((tracing Window.grammar).parse "kill ; FOCUS\tleft " {}).verdict
          ≠ .error (.capture e))
      ∧ Window.grammar.Tiles "INITIAL" "kill ; FOCUS\tleft ".toList
          [ .literal "kill" (.goto "KILL"), .commandEnd (Window.call "cmd_kill"),
            .literal "focus" (.goto "FOCUS"),
            .literal "left" (Window.call "cmd_focus_direction") (some "direction"),
            .commandEnd (.goto "INITIAL") ] := by
  have hok : ((tracing Window.grammar).parse "kill ; FOCUS\tleft " {}).verdict
      = .ok ⟨["cmd_kill", "cmd_focus_direction"],
          [⟨"cmd_kill", []⟩, ⟨"cmd_focus_direction", [("direction", "left")]⟩], none⟩ := by
    rfl
  have hcaptures : ∀ e, ((tracing Window.grammar).parse "kill ; FOCUS\tleft " {}).verdict
      ≠ .error (.capture e) := by
    intro e he
    rw [hok] at he
    cases he
  refine ⟨Window.validate_grammar, rfl, unfailing_tracing _, hcaptures, ?_⟩
  refine (accepts_iff_tiles (tracing Window.grammar) Window.validate_grammar rfl
    (unfailing_tracing _) _ {} hcaptures _).mp ⟨_, hok, rfl, ?_⟩
  decide +kernel

end Parser

end CommandGrammar
