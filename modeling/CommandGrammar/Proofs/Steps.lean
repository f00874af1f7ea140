import CommandGrammar.Proofs.Lexing
import CommandGrammar.Proofs.Parts

/-!
# Steps and runs

A step is a search among the tokens of the state and then, if one of them matches, its acceptance. A run
is made of steps.

* `choose?_eq_some_iff` — the token chosen is the first one that takes anything.
* `stepped` — all that a step can come to.
* `Machine.steps` — the first `n` steps of a run; `run_eq_steps` says that a run with a budget is that many
  steps and then a stop.
* `run_add` — a run that ends within its budget is the same with any larger one.
-/

namespace CommandGrammar

/-! ## The choice of a token -/

/-- **The token chosen is the first one that matches.** -/
theorem choose?_eq_some_iff {tokens : List Token} {cs : List Char} {token : Token}
    {lexeme : Lexeme} :
    choose? tokens cs = some (token, lexeme)
      ↔ ∃ before after, tokens = before ++ token :: after
        ∧ (∀ u ∈ before, u.lexeme? cs = none) ∧ token.lexeme? cs = some lexeme := by
  unfold choose?
  rw [List.findSome?_eq_some_iff]
  constructor
  · rintro ⟨before, u, after, htokens, hu, hbefore⟩
    obtain ⟨l, hl, hpair⟩ := Option.map_eq_some_iff.mp hu
    obtain ⟨rfl, rfl⟩ := Prod.mk.inj hpair
    exact ⟨before, after, htokens, fun v hv => Option.map_eq_none_iff.mp (hbefore v hv), hl⟩
  · rintro ⟨before, after, htokens, hbefore, hl⟩
    exact ⟨before, token, after, htokens, by rw [hl]; rfl,
      fun v hv => Option.map_eq_none_iff.mpr (hbefore v hv)⟩

theorem mem_of_choose? {tokens : List Token} {cs : List Char} {token : Token} {lexeme : Lexeme}
    (h : choose? tokens cs = some (token, lexeme)) : token ∈ tokens := by
  obtain ⟨before, after, rfl, -⟩ := choose?_eq_some_iff.mp h
  simp

theorem lexeme?_of_choose? {tokens : List Token} {cs : List Char} {token : Token} {lexeme : Lexeme}
    (h : choose? tokens cs = some (token, lexeme)) : token.lexeme? cs = some lexeme := by
  obtain ⟨before, after, -, -, hl⟩ := choose?_eq_some_iff.mp h
  exact hl

/-! ## One step -/

/-- The configuration behind a lexeme. -/
def Config.moved {σ : Type} (c : Config σ) (lexeme : Lexeme) : Config σ :=
  { c with
    position := c.position + lexeme.consumed
    rest := c.rest.drop lexeme.consumed }

@[simp] theorem Config.captures_skipBlanks {σ : Type} (c : Config σ) :
    c.skipBlanks.captures = c.captures := rfl

namespace Machine

variable {σ ρ ε : Type} (m : Machine σ ρ ε)

/-- The searches that a step writes down. -/
def tries (tokens : List Token) (c : Config σ) : Journal :=
  (triedTokens tokens c.rest).map (Event.tried c.state)

theorem tries_accepted (tokens : List Token) (c : Config σ) :
    (tries tokens c).accepted = [] := by
  refine Journal.accepted_eq_nil fun e he p s t l => ?_
  obtain ⟨u, _, rfl⟩ := List.mem_map.mp he
  simp

/-- All that a step from a configuration can come to. -/
inductive Stepped (c : Config σ) : Progress σ ρ ε → Prop where
  /-- The state is unknown. -/
  | lost {e : TableError} (ht : m.table.tokens c.state = .error e) :
    Stepped c (.stop c.skipBlanks (.abandoned (.table e)))
  /-- No token matches. -/
  | unmatched {tokens : List Token} (ht : m.table.tokens c.state = .ok tokens)
    (hc : choose? tokens c.skipBlanks.rest = none) :
    Stepped c
      { config := c.skipBlanks
        ending := some (.unmatched (tokens.map Token.displayName))
        journal := tries tokens c.skipBlanks }
  /-- A token matches, but its acceptance is cut short. -/
  | cut {tokens : List Token} {token : Token} {lexeme : Lexeme} {f : Fault ε}
    (ht : m.table.tokens c.state = .ok tokens)
    (hc : choose? tokens c.skipBlanks.rest = some (token, lexeme))
    (he : (m.perform token lexeme c.skipBlanks).ending = some (.abandoned f)) :
    Stepped c
      { m.perform token lexeme c.skipBlanks with
        journal := tries tokens c.skipBlanks ++ (m.perform token lexeme c.skipBlanks).journal }
  /-- A token is accepted, and the run goes on behind it. -/
  | moved {tokens : List Token} {token : Token} {lexeme : Lexeme}
    (ht : m.table.tokens c.state = .ok tokens)
    (hc : choose? tokens c.skipBlanks.rest = some (token, lexeme))
    (he : (m.perform token lexeme c.skipBlanks).ending = none)
    (hle : lexeme.consumed ≤ c.skipBlanks.rest.length) :
    Stepped c
      { config := (m.perform token lexeme c.skipBlanks).config.moved lexeme
        journal := tries tokens c.skipBlanks ++ (m.perform token lexeme c.skipBlanks).journal
        actions := (m.perform token lexeme c.skipBlanks).actions
        results := (m.perform token lexeme c.skipBlanks).results }
  /-- A token is accepted at the end of the text, and the run is complete. -/
  | completed {tokens : List Token} {token : Token} {lexeme : Lexeme}
    (ht : m.table.tokens c.state = .ok tokens)
    (hc : choose? tokens c.skipBlanks.rest = some (token, lexeme))
    (he : (m.perform token lexeme c.skipBlanks).ending = none)
    (hlt : c.skipBlanks.rest.length < lexeme.consumed) :
    Stepped c
      { config := (m.perform token lexeme c.skipBlanks).config.moved lexeme
        ending := some .complete
        journal := tries tokens c.skipBlanks ++ (m.perform token lexeme c.skipBlanks).journal
        actions := (m.perform token lexeme c.skipBlanks).actions
        results := (m.perform token lexeme c.skipBlanks).results }

theorem advance_of_le {lexeme : Lexeme} {c : Config σ} (h : lexeme.consumed ≤ c.rest.length) :
    (advance lexeme c : Progress σ ρ ε) = .note (c.moved lexeme) [] := by
  unfold advance
  rw [if_pos h]
  rfl

theorem advance_of_lt {lexeme : Lexeme} {c : Config σ} (h : c.rest.length < lexeme.consumed) :
    (advance lexeme c : Progress σ ρ ε) = .stop (c.moved lexeme) .complete := by
  unfold advance
  rw [if_neg (Nat.not_le_of_lt h)]
  rfl

theorem step_of_choose? {c : Config σ} {tokens : List Token} {token : Token} {lexeme : Lexeme}
    (ht : m.table.tokens c.state = .ok tokens)
    (hc : choose? tokens c.skipBlanks.rest = some (token, lexeme)) :
    m.step c =
      { m.accept token lexeme c.skipBlanks with
        journal := tries tokens c.skipBlanks ++ (m.accept token lexeme c.skipBlanks).journal } := by
  have ht' : m.table.tokens c.skipBlanks.state = .ok tokens := ht
  unfold step
  simp only [ht', Progress.andThen_note, hc]
  rfl

theorem step_of_unmatched {c : Config σ} {tokens : List Token} (ht : m.table.tokens c.state = .ok tokens)
    (hc : choose? tokens c.skipBlanks.rest = none) :
    m.step c =
      { config := c.skipBlanks
        ending := some (.unmatched (tokens.map Token.displayName))
        journal := tries tokens c.skipBlanks } := by
  have ht' : m.table.tokens c.skipBlanks.state = .ok tokens := ht
  unfold step
  simp only [ht', Progress.andThen_note, hc, Progress.stop, List.append_nil]
  rfl

theorem step_of_unknown {c : Config σ} {e : TableError} (ht : m.table.tokens c.state = .error e) :
    m.step c = .stop c.skipBlanks (.abandoned (.table e)) := by
  have ht' : m.table.tokens c.skipBlanks.state = .error e := ht
  unfold step
  simp only [ht']

theorem stepped (c : Config σ) : m.Stepped c (m.step c) := by
  cases ht : m.table.tokens c.state with
  | error e =>
    rw [m.step_of_unknown ht]
    exact .lost ht
  | ok tokens =>
    cases hc : choose? tokens c.skipBlanks.rest with
    | none =>
      rw [m.step_of_unmatched ht hc]
      exact .unmatched ht hc
    | some chosen =>
      obtain ⟨token, lexeme⟩ := chosen
      rw [m.step_of_choose? ht hc, accept_eq]
      -- What is left to read is still the same when the position moves on.
      have hrest : (m.perform token lexeme c.skipBlanks).config.rest = c.skipBlanks.rest :=
        (perform_place m token lexeme c.skipBlanks).2.1
      cases he : (m.perform token lexeme c.skipBlanks).ending with
      | some e =>
        rw [Progress.andThen_of_some he]
        obtain ⟨f, rfl⟩ : ∃ f, e = .abandoned f := by
          rcases perform_ending he with ⟨_, _, _, _, _, h⟩ | ⟨_, _, _, _, _, h⟩ | ⟨_, h⟩ <;>
            exact ⟨_, h⟩
        exact .cut ht hc he
      | none =>
        rw [Progress.andThen_of_none he]
        by_cases hle : lexeme.consumed ≤ c.skipBlanks.rest.length
        · rw [advance_of_le (hrest ▸ hle)]
          simp only [Progress.note, List.append_nil]
          exact .moved ht hc he hle
        · rw [advance_of_lt (hrest ▸ Nat.lt_of_not_le hle)]
          simp only [Progress.stop, List.append_nil]
          exact .completed ht hc he (Nat.lt_of_not_le hle)

theorem step_capacity (c : Config σ) :
    (m.step c).config.captures.capacity = c.captures.capacity := by
  have hs := m.stepped c
  generalize m.step c = q at hs ⊢
  cases hs with
  | lost | unmatched => rfl
  | cut => exact (perform_place m _ _ c.skipBlanks).2.2
  | moved | completed => exact (perform_place m _ _ c.skipBlanks).2.2

/-! ## Runs -/

/-- The first `n` steps of a run, or fewer if it ends before. -/
def steps : (n : Nat) → Config σ → Progress σ ρ ε
  | 0, c => .note c []
  | n + 1, c => (m.step c).andThen (steps n)

theorem steps_zero (c : Config σ) : m.steps 0 c = .note c [] := rfl

theorem steps_one_add (n : Nat) (c : Config σ) :
    m.steps (n + 1) c = (m.step c).andThen (m.steps n) := rfl

theorem steps_add (n k : Nat) (c : Config σ) :
    m.steps (n + k) c = (m.steps n c).andThen (m.steps k) := by
  induction n generalizing c with
  | zero => rw [Nat.zero_add, steps_zero, Progress.andThen_note]; rfl
  | succ n ih =>
    rw [Nat.add_right_comm, steps_one_add, steps_one_add, Progress.andThen_assoc]
    congr 1
    funext d
    exact ih d

theorem steps_one (c : Config σ) : m.steps 1 c = m.step c := by
  rw [steps_one_add]
  exact Progress.andThen_done

/-- The last of the steps may be split off as well as the first. -/
theorem steps_succ (n : Nat) (c : Config σ) : m.steps (n + 1) c = (m.steps n c).andThen m.step := by
  rw [steps_add]
  congr 1
  funext d
  exact m.steps_one d

/-- **What one step preserves holds behind any number of them.** -/
theorem steps_induction {P : Progress σ ρ ε → Prop} {c : Config σ} (h0 : P (.note c []))
    (hstep : ∀ q, P q → q.ending = none → P (q.andThen m.step)) (n : Nat) : P (m.steps n c) := by
  induction n with
  | zero => exact h0
  | succ n ih =>
    rw [steps_succ]
    cases he : (m.steps n c).ending with
    | none => exact hstep _ ih he
    | some e => rw [Progress.andThen_of_some he]; exact ih

theorem steps_capacity (n : Nat) (c : Config σ) :
    (m.steps n c).config.captures.capacity = c.captures.capacity := by
  refine m.steps_induction (P := fun q => q.config.captures.capacity = c.captures.capacity) rfl ?_ n
  intro q hq he
  rw [Progress.config_andThen_of_none he, step_capacity, hq]

theorem exists_last_step {n : Nat} {c : Config σ} {e : Ending ε} (h : (m.steps n c).ending = some e) :
    ∃ k, (m.steps k c).ending = none ∧ (m.step (m.steps k c).config).ending = some e
      ∧ m.steps n c = m.steps (k + 1) c := by
  induction n with
  | zero => cases h
  | succ n ih =>
    cases hn : (m.steps n c).ending with
    | none =>
      refine ⟨n, hn, ?_, rfl⟩
      rwa [steps_succ, Progress.ending_andThen_of_none hn] at h
    | some e' =>
      have hsame : m.steps (n + 1) c = m.steps n c := by
        rw [steps_succ, Progress.andThen_of_some hn]
      rw [hsame] at h ⊢
      exact ih h

theorem run_eq_steps (n : Nat) (c : Config σ) :
    m.run n c = (m.steps n c).andThen fun d => .stop d (.abandoned .noProgress) := by
  induction n generalizing c with
  | zero => rw [steps_zero, Progress.andThen_note]; rfl
  | succ n ih =>
    rw [steps_one_add, Progress.andThen_assoc]
    show (m.step c).andThen (fun d => m.run n d) = _
    congr 1
    funext d
    exact ih d

/-- A run ends once only. -/
theorem steps_eq_of_ended {n k : Nat} {c : Config σ} {e e' : Ending ε}
    (hn : (m.steps n c).ending = some e) (hk : (m.steps k c).ending = some e') :
    m.steps n c = m.steps k c := by
  rcases Nat.le_total n k with hle | hle
  · obtain ⟨d, rfl⟩ := Nat.le.dest hle
    rw [steps_add, Progress.andThen_of_some hn]
  · obtain ⟨d, rfl⟩ := Nat.le.dest hle
    rw [steps_add, Progress.andThen_of_some hk]

theorem run_of_ended {n : Nat} {c : Config σ} {e : Ending ε} (h : (m.steps n c).ending = some e) :
    m.run n c = m.steps n c := by
  rw [run_eq_steps, Progress.andThen_of_some h]

/-- **A larger budget changes nothing** for a run that ends within the smaller one. -/
theorem run_add {n : Nat} {c : Config σ} {e : Ending ε} (h : (m.steps n c).ending = some e) (k : Nat) :
    m.run (n + k) c = m.run n c := by
  have hk : m.steps (n + k) c = m.steps n c := by rw [steps_add, Progress.andThen_of_some h]
  rw [run_of_ended m h, run_of_ended m (hk ▸ h), hk]

end Machine

end CommandGrammar
