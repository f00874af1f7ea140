import CommandGrammar.Proofs.Steps

/-!
# Runs inside longer texts

An `Embedding` puts a configuration into a longer text: so many characters stand in front of it, a
suffix behind what is left to read, and its environment is a part of a larger one. Everything that a run
does commutes with it, as long as the suffix changes no choice of a token.

* `perform_embed` — accepting a token.
* `step_embed` — a step whose choice the suffix does not change.
* `steps_embed` — with no suffix, any number of steps: only what is left to read matters, not the position.
-/

namespace CommandGrammar

/-! ## Embeddings -/

/-- What surrounds a run in a longer one. -/
structure Embedding (σ : Type) where
  offset : Nat
  suffix : List Char
  environment : σ → σ

namespace Embedding

variable {σ ρ ε : Type} (φ : Embedding σ)

/-- A configuration in the longer text. -/
def config (c : Config σ) : Config σ :=
  { c with
    position := φ.offset + c.position
    rest := c.rest ++ φ.suffix
    environment := φ.environment c.environment }

/-- An event in the longer text. -/
def event : Event → Event
  | .matched position state token lexeme => .matched (φ.offset + position) state token lexeme
  | .boundary position => .boundary (φ.offset + position)
  | .unmatched position state => .unmatched (φ.offset + position) state
  | e => e

/-- What a stretch does in the longer text. -/
def progress (q : Progress σ ρ ε) : Progress σ ρ ε :=
  { q with config := φ.config q.config, journal := q.journal.map φ.event }

@[simp] theorem progress_note (c : Config σ) (j : Journal) :
    φ.progress (.note c j : Progress σ ρ ε) = .note (φ.config c) (j.map φ.event) := rfl

@[simp] theorem progress_stop (c : Config σ) (e : Ending ε) :
    φ.progress (.stop c e : Progress σ ρ ε) = .stop (φ.config c) e := rfl

/-- **Chains are embedded part by part.** -/
theorem progress_andThen {q : Progress σ ρ ε} {next : Config σ → Progress σ ρ ε}
    (h : q.ending = none → next (φ.config q.config) = φ.progress (next q.config)) :
    (φ.progress q).andThen next = φ.progress (q.andThen next) := by
  cases he : q.ending with
  | none =>
    have he' : (φ.progress q).ending = none := he
    have hnext : next (φ.progress q).config = φ.progress (next q.config) := h he
    rw [Progress.andThen_of_none he, Progress.andThen_of_none he', hnext]
    simp only [progress, List.map_append]
  | some e =>
    have he' : (φ.progress q).ending = some e := he
    rw [Progress.andThen_of_some he, Progress.andThen_of_some he']

/-- Blanks are skipped alike, unless nothing but blanks is left and the suffix starts with one. -/
theorem skipBlanks_config {c : Config σ}
    (h : c.skipBlanks.rest = [] → ∀ b ∈ φ.suffix.head?, isBlank b = false) :
    (φ.config c).skipBlanks = φ.config c.skipBlanks := by
  have hblanks : ∀ b ∈ c.rest.takeWhile isBlank, isBlank b = true :=
    fun b hb => List.mem_takeWhile_imp hb
  have hstop : ∀ b ∈ (c.rest.dropWhile isBlank ++ φ.suffix).head?, isBlank b = false := by
    cases hd : c.rest.dropWhile isBlank with
    | nil => exact h hd
    | cons b tail =>
      have hhead := head?_dropWhile_eq_false (p := isBlank) c.rest
      rw [hd] at hhead
      exact hhead
  -- The first character behind the blanks is the one that it was, or the first of the suffix.
  have hrest : c.rest ++ φ.suffix
      = c.rest.takeWhile isBlank ++ (c.rest.dropWhile isBlank ++ φ.suffix) := by
    rw [← List.append_assoc, List.takeWhile_append_dropWhile]
  unfold Config.skipBlanks config
  simp only [hrest, takeWhile_append_of_stop hblanks hstop, dropWhile_append_of_stop hblanks hstop,
    Nat.add_assoc]

end Embedding

/-! ## Parts -/

namespace Machine

variable {σ ρ ε : Type} {m : Machine σ ρ ε} {φ : Embedding σ}

/-- The callbacks do to a part of an environment what they do to the whole. -/
structure Respects (m : Machine σ ρ ε) (φ : Embedding σ) : Prop where
  dispatch : ∀ action captures s, m.callbacks.dispatch action captures (φ.environment s)
    = { m.callbacks.dispatch action captures s with
        environment := φ.environment (m.callbacks.dispatch action captures s).environment }
  hook : ∀ hook, m.callbacks.onBoundary = some hook → ∀ s,
    hook (φ.environment s) = (φ.environment (hook s).1, (hook s).2)

theorem dropCaptures_embed (c : Config σ) :
    (dropCaptures (φ.config c) : Progress σ ρ ε) = φ.progress (dropCaptures c) := by
  unfold dropCaptures
  rw [Embedding.progress_note]
  congr 1
  show (if c.captures.size = 0 then _ else _) = _
  split <;> rfl

theorem hold_embed (token : Token) (lexeme : Lexeme) (c : Config σ) :
    (hold token lexeme (φ.config c) : Progress σ ρ ε) = φ.progress (hold token lexeme c) := by
  have hcaptures : (φ.config c).captures = c.captures := rfl
  rw [hold_eq, hold_eq, hcaptures]
  cases token.capture? lexeme with
  | none => rfl
  | some capture =>
    obtain ⟨identifier, value⟩ := capture
    simp only
    cases c.captures.push identifier value <;> rfl

theorem follow_embed (h : m.Respects φ) (transition : Transition) (c : Config σ) :
    m.follow transition (φ.config c) = φ.progress (m.follow transition c) := by
  cases transition with
  | goto state =>
    simp only [follow]
    split
    · exact dropCaptures_embed { c with state }
    · rfl
  | invoke action next =>
    simp only [follow, invoke]
    cases m.table.actionName action with
    | error e => rfl
    | ok name =>
      have hd : m.callbacks.dispatch action (φ.config c).captures (φ.config c).environment = _ :=
        h.dispatch action c.captures c.environment
      simp only [hd]
      have hcalls : ∀ calls : List CallEvent, (calls : Journal).map φ.event = calls := by
        intro calls
        rw [List.map_map]
        rfl
      have hnote : ∀ (s : σ) (calls : List CallEvent),
          (.note { φ.config c with environment := φ.environment s }
            (.invoked action name (φ.config c).captures.toList :: (calls : Journal))
              : Progress σ ρ ε)
            = φ.progress (.note { c with environment := s }
                (.invoked action name c.captures.toList :: (calls : Journal))) := by
        intro s calls
        rw [Embedding.progress_note, List.map_cons, hcalls]
        rfl
      rw [hnote, Embedding.progress_andThen φ fun _ => dropCaptures_embed _,
        Embedding.progress_andThen]
      intro _
      cases (m.callbacks.dispatch action c.captures c.environment).answer <;> rfl

theorem signal_embed (h : m.Respects φ) (token : Token) (lexeme : Lexeme) (c : Config σ) :
    m.signal token lexeme (φ.config c) = φ.progress (m.signal token lexeme c) := by
  unfold signal
  cases hh : m.callbacks.onBoundary with
  | none => rfl
  | some hook =>
    have hs : hook (φ.config c).environment = _ := h.hook hook hh c.environment
    simp only [hs]
    split
    · simp only [Progress.andThen_note]
      cases (hook c.environment).2 <;> rfl
    · rfl

/-- **Accepting a token commutes with an embedding.** -/
theorem perform_embed (h : m.Respects φ) (token : Token) (lexeme : Lexeme) (c : Config σ) :
    m.perform token lexeme (φ.config c) = φ.progress (m.perform token lexeme c) := by
  have hnote : (.note (φ.config c)
      [.matched (φ.config c).position (φ.config c).state token lexeme] : Progress σ ρ ε)
        = φ.progress (.note c [.matched c.position c.state token lexeme]) := rfl
  unfold perform
  rw [hnote, Embedding.progress_andThen φ fun _ => hold_embed token lexeme _,
    Embedding.progress_andThen φ fun _ => follow_embed h token.transition _,
    Embedding.progress_andThen φ fun _ => signal_embed h token lexeme _]

/-- The position moves on alike, if the lexeme does not reach into the suffix. -/
theorem advance_embed {lexeme : Lexeme} {c : Config σ}
    (h : lexeme.consumed ≤ c.rest.length ∨ φ.suffix = []) :
    (advance lexeme (φ.config c) : Progress σ ρ ε) = φ.progress (advance lexeme c) := by
  have hrest : (c.rest ++ φ.suffix).drop lexeme.consumed = c.rest.drop lexeme.consumed ++ φ.suffix := by
    rcases h with h | h
    · exact List.drop_append_of_le_length h
    · rw [h, List.append_nil, List.append_nil]
  have hmoved : (φ.config c).moved lexeme = φ.config (c.moved lexeme) := by
    unfold Config.moved Embedding.config
    simp only [hrest, Nat.add_assoc]
  by_cases hle : lexeme.consumed ≤ c.rest.length
  · have hle' : lexeme.consumed ≤ (φ.config c).rest.length := by
      show _ ≤ (c.rest ++ φ.suffix).length
      rw [List.length_append]
      omega
    rw [advance_of_le hle, advance_of_le hle', hmoved]
    rfl
  · -- Only with nothing behind it the end of the text stays the end.
    have hsuffix := h.resolve_left hle
    have hlt : (φ.config c).rest.length < lexeme.consumed := by
      show (c.rest ++ φ.suffix).length < _
      rw [hsuffix, List.append_nil]
      omega
    rw [advance_of_lt (Nat.lt_of_not_le hle), advance_of_lt hlt, hmoved]
    rfl

theorem accept_embed (h : m.Respects φ) {token : Token} {lexeme : Lexeme} {c : Config σ}
    (hle : lexeme.consumed ≤ c.rest.length ∨ φ.suffix = []) :
    m.accept token lexeme (φ.config c) = φ.progress (m.accept token lexeme c) := by
  rw [accept_eq, accept_eq, perform_embed h, Embedding.progress_andThen]
  intro _
  rw [← (perform_place m token lexeme c).2.1] at hle
  exact advance_embed hle

/-! ## Steps -/

/-- The tokens that are tried follow from the one chosen. -/
theorem triedTokens_of_choose? {tokens : List Token} {cs : List Char} {token : Token}
    {lexeme : Lexeme} (h : choose? tokens cs = some (token, lexeme)) :
    triedTokens tokens cs = tokens.takeWhile (· ≠ token) ++ [token] := by
  obtain ⟨before, after, rfl, hbefore, hl⟩ := choose?_eq_some_iff.mp h
  have hne : ∀ u ∈ before, u ≠ token := by
    rintro u hu rfl
    rw [hbefore u hu] at hl
    cases hl
  unfold triedTokens
  rw [List.takeWhile_append_of_pos (by simpa using hbefore),
    List.takeWhile_append_of_pos (by simpa using hne),
    List.find?_append, List.find?_eq_none.mpr (by simpa using hbefore)]
  simp [hl]

theorem tries_embed (tokens : List Token) {c : Config σ}
    (h : triedTokens tokens (c.rest ++ φ.suffix) = triedTokens tokens c.rest) :
    (triedTokens tokens (φ.config c).rest).map (Event.tried (φ.config c).state)
      = ((triedTokens tokens c.rest).map (Event.tried c.state)).map φ.event := by
  show (triedTokens tokens (c.rest ++ φ.suffix)).map _ = _
  rw [h, List.map_map]
  rfl

/-- **A step commutes with an embedding** whose suffix changes nothing about the token chosen. -/
theorem step_embed (h : m.Respects φ) {c : Config σ} {tokens : List Token} {token : Token}
    {lexeme : Lexeme} (hne : c.skipBlanks.rest ≠ []) (ht : m.table.tokens c.state = .ok tokens)
    (hchoose : choose? tokens c.skipBlanks.rest = some (token, lexeme))
    (hsame : choose? tokens (c.skipBlanks.rest ++ φ.suffix) = some (token, lexeme))
    (hle : lexeme.consumed ≤ c.skipBlanks.rest.length) :
    m.step (φ.config c) = φ.progress (m.step c) := by
  have ht' : m.table.tokens (φ.config c.skipBlanks).state = .ok tokens := ht
  have htried : triedTokens tokens (c.skipBlanks.rest ++ φ.suffix)
      = triedTokens tokens c.skipBlanks.rest := by
    rw [triedTokens_of_choose? hchoose, triedTokens_of_choose? hsame]
  unfold step
  simp only [φ.skipBlanks_config fun hnil => absurd hnil hne, ht',
    show m.table.tokens c.skipBlanks.state = _ from ht]
  rw [tries_embed tokens htried, ← Embedding.progress_note, Embedding.progress_andThen]
  intro _
  have hsame' : choose? tokens (φ.config c.skipBlanks).rest = some (token, lexeme) := hsame
  simp only [Progress.note, hchoose, hsame']
  exact accept_embed h (Or.inl hle)

/-- **With no suffix every step commutes with an embedding**: the position does not matter. -/
theorem step_embed_of_nil (h : m.Respects φ) (hsuffix : φ.suffix = []) (c : Config σ) :
    m.step (φ.config c) = φ.progress (m.step c) := by
  have hrest : ∀ d : Config σ, (φ.config d).rest = d.rest := by
    intro d
    show d.rest ++ φ.suffix = d.rest
    rw [hsuffix, List.append_nil]
  unfold step
  simp only [φ.skipBlanks_config fun _ => by simp [hsuffix]]
  have hstate : m.table.tokens (φ.config c.skipBlanks).state
      = m.table.tokens c.skipBlanks.state := rfl
  rw [hstate]
  cases m.table.tokens c.skipBlanks.state with
  | error e => rfl
  | ok tokens =>
    simp only
    rw [tries_embed tokens (by rw [hsuffix, List.append_nil]), ← Embedding.progress_note,
      Embedding.progress_andThen]
    intro _
    simp only [Progress.note, hrest]
    cases choose? tokens c.skipBlanks.rest with
    | none => rfl
    | some chosen => exact accept_embed h (Or.inr hsuffix)

/-- **What a run does depends only on what is left to read**, up to the place where it stands. -/
theorem steps_embed (h : m.Respects φ) (hsuffix : φ.suffix = []) (n : Nat) (c : Config σ) :
    m.steps n (φ.config c) = φ.progress (m.steps n c) := by
  induction n with
  | zero => rfl
  | succ n ih =>
    rw [steps_succ, steps_succ, ih, Embedding.progress_andThen]
    intro _
    exact step_embed_of_nil h hsuffix _

end Machine

end CommandGrammar
