import CommandGrammar.Proofs.Termination

/-!
# Runs on valid tables

What validation checks once for each token keeps every run inside the table: each state that is entered
has tokens, and each action that is invoked has a name. So a run on a valid table is given up for a capture
or by a callback, and for nothing else.

* `Contained` — what a stretch of a run inside a table leaves behind.
* `contained_step` — preservation: one step from a state of the table.
* `contained_steps` — the same for any number of steps.
* `Parser.stays_inside` — the statement about whole texts.
-/

namespace CommandGrammar

/-! ## States with tokens -/

/-- The table gives the state at least one token. -/
def Table.HasTokens (t : Table) (state : StateName) : Prop :=
  ∃ token tokens, t.tokens state = .ok (token :: tokens)

namespace Table

variable {t : Table} {state : StateName}

/-- In a consistent table every state that it knows has a token. -/
theorem Consistent.hasTokens (h : t.Consistent) (hstate : ∃ tokens, t.tokens state = .ok tokens) :
    t.HasTokens state := by
  obtain ⟨tokens, ht⟩ := hstate
  cases tokens with
  | nil => exact absurd ht (h.nonempty state)
  | cons token tokens => exact ⟨token, tokens, ht⟩

theorem Lists.hasTokens {token : Token} (h : t.Lists state token) : t.HasTokens state := by
  obtain ⟨tokens, ht, hm⟩ := h
  obtain ⟨first, rest, rfl⟩ := List.exists_cons_of_ne_nil (List.ne_nil_of_mem hm)
  exact ⟨first, rest, ht⟩

end Table

/-! ## Faults -/

/-- A fault that no check of the table can rule out: a callback fails, an identifier is captured again, or
there is no room for a capture. -/
inductive Fault.Unchecked {ε : Type} : Fault ε → Prop where
  | callback (e : ε) : Unchecked (.callback e)
  | duplicate (identifier : String) : Unchecked (.capture (.duplicate identifier))
  | overflow (identifier : String) (capacity : Nat) :
    Unchecked (.capture (.overflow identifier capacity))

namespace Machine

variable {σ ρ ε : Type} {m : Machine σ ρ ε} {c : Config σ} {token : Token} {lexeme : Lexeme}

/-- Accepting a token leaves the state as it was or leads to that of the transition, even if it is cut
short. -/
theorem perform_state_cases (m : Machine σ ρ ε) (token : Token) (lexeme : Lexeme) (c : Config σ) :
    (m.perform token lexeme c).config.state = c.state
      ∨ (m.perform token lexeme c).config.state = m.table.target token.transition := by
  rcases room_or_refused token lexeme c with hr | ⟨_, _, _, hc, hp⟩
  · obtain ⟨captures, _, _, hq⟩ := perform_of_room (m := m) hr
    rw [hq, Progress.andThen_note]
    have hf := m.followed token.transition { c with captures }
    refine Progress.config_andThen
      (P := fun d => d.state = c.state ∨ d.state = m.table.target token.transition) ?_ ?_
    · revert hf
      generalize m.follow token.transition { c with captures } = q
      generalize token.transition = transition
      intro hf
      cases hf with
      | home | away | performed => exact Or.inr rfl
      | unknown | failed => exact Or.inl rfl
    · intro d hd
      obtain ⟨s, hs⟩ := signal_config m token lexeme d
      rw [hs]; exact hd
  · rw [perform_of_refused hc hp]; exact Or.inl rfl

/-- A token of a consistent table is never cut short by a look-up. -/
theorem perform_fault (h : m.table.Consistent) {state : StateName}
    (hlist : m.table.Lists state token) {f : Fault ε}
    (he : (m.perform token lexeme c).ending = some (.abandoned f)) : f.Unchecked := by
  rcases perform_ending he with ⟨identifier, value, x, -, hp, hx⟩ | ⟨action, next, x, ht, hx, -⟩ |
    ⟨x, hx⟩
  · obtain rfl : f = .capture x := by simpa using hx
    rcases Captures.push_eq_error_iff.mp hp with ⟨-, rfl⟩ | ⟨-, -, rfl⟩
    · exact .duplicate identifier
    · exact .overflow identifier _
  · obtain ⟨name, hname⟩ := h.actions state token hlist action next ht
    rw [hname] at hx
    cases hx
  · obtain rfl : f = .callback x := by simpa using hx
    exact .callback x

/-! ## One step -/

/-- What a stretch of a run inside a table leaves behind. -/
structure Contained (m : Machine σ ρ ε) (q : Progress σ ρ ε) : Prop where
  /-- It leads to a state with tokens, even if the run was given up. -/
  state : m.table.HasTokens q.config.state
  /-- Every token accepted is one of the table, in its state. -/
  accepted : ∀ a ∈ q.journal.accepted, m.table.Lists a.2.1 a.2.2.1
  /-- The run was not given up for anything that the table could be blamed for. -/
  ending : ∀ f, q.ending = some (.abandoned f) → f.Unchecked

/-- **A step from a state with tokens stays inside the table.** -/
theorem contained_step (h : m.table.Consistent) (hstate : m.table.HasTokens c.state) :
    Contained m (m.step c) := by
  -- All that is needed of an accepted token is that the table lists it in the state.
  have hperform : ∀ {tokens token lexeme}, m.table.tokens c.state = .ok tokens →
      choose? tokens c.skipBlanks.rest = some (token, lexeme) →
      m.table.Lists c.state token
        ∧ m.table.HasTokens (m.perform token lexeme c.skipBlanks).config.state
        ∧ (tries tokens c.skipBlanks ++ (m.perform token lexeme c.skipBlanks).journal).accepted
          = [(c.skipBlanks.position, c.state, token, lexeme)] := by
    intro tokens token lexeme ht hch
    have hlist : m.table.Lists c.state token := ⟨tokens, ht, mem_of_choose? hch⟩
    refine ⟨hlist, ?_, ?_⟩
    · rcases perform_state_cases m token lexeme c.skipBlanks with hs | hs
      · rw [hs]; exact hstate
      · rw [hs]; exact h.hasTokens (h.targets c.state token hlist)
    · rw [Journal.accepted_append, tries_accepted, perform_accepted]
      rfl
  have hs := m.stepped c
  generalize m.step c = q at hs ⊢
  cases hs with
  | lost ht =>
    obtain ⟨token, tokens, ht'⟩ := hstate
    rw [ht'] at ht
    cases ht
  | unmatched =>
    refine ⟨hstate, ?_, ?_⟩
    · rw [tries_accepted]; simp
    · intro f hf; cases hf
  | cut ht hch he =>
    obtain ⟨hlist, hend, hacc⟩ := hperform ht hch
    refine ⟨hend, ?_, fun f hf => perform_fault h hlist hf⟩
    rw [hacc]
    simpa using hlist
  | moved ht hch he hle =>
    obtain ⟨hlist, hend, hacc⟩ := hperform ht hch
    refine ⟨hend, ?_, by simp⟩
    rw [hacc]
    simpa using hlist
  | completed ht hch he hlt =>
    obtain ⟨hlist, hend, hacc⟩ := hperform ht hch
    refine ⟨hend, ?_, by simp⟩
    rw [hacc]
    simpa using hlist

/-! ## Any number of steps -/

/-- **A run stays inside the table**, however many steps it takes and however it ends. -/
theorem contained_steps (h : m.table.Consistent) (hstate : m.table.HasTokens c.state) (n : Nat) :
    Contained m (m.steps n c) := by
  refine m.steps_induction (P := Contained m) ⟨hstate, by simp [Progress.note], by simp [Progress.note]⟩
    ?_ n
  intro q hq he
  have hstep := contained_step h hq.state
  rw [Progress.andThen_of_none he]
  refine ⟨hstep.state, ?_, hstep.ending⟩
  intro a ha
  rw [Journal.accepted_append] at ha
  rcases List.mem_append.mp ha with ha | ha
  · exact hq.accepted a ha
  · exact hstep.accepted a ha

end Machine

/-! ## Whole texts -/

namespace Parser

variable {σ ρ ε : Type}

/-- A run on a text never leaves the table. -/
structure StaysInside (p : Parser σ ρ ε) (text : String) (environment : σ) : Prop where
  /-- What the parser itself raises is the second capture of an identifier or the want of room for one. -/
  faults : ∀ fault, (p.parse text environment).verdict = .error fault →
    (∃ e, fault = .callback e) ∨ (∃ identifier, fault = .capture (.duplicate identifier))
      ∨ ∃ identifier capacity, fault = .capture (.overflow identifier capacity)
  /-- Every state that is entered has tokens, the one in which the run ends included. -/
  states : ∀ captures n, p.table.HasTokens (p.behind n text captures environment).config.state
  /-- No step looks up an unknown state or an unknown action. -/
  lookups : ∀ captures n e,
    (p.behind n text captures environment).ending ≠ some (.abandoned (.table e))
  /-- Every token accepted is one of its state, and the action that it may invoke has a name. -/
  accepted : ∀ a ∈ (p.parse text environment).journal.accepted, p.table.Lists a.2.1 a.2.2.1
    ∧ ∀ action next, a.2.2.1.transition = .invoke action next →
      ∃ name, p.table.actionName action = .ok name

/-- **No run on a valid table leaves it.** -/
theorem stays_inside (p : Parser σ ρ ε) (hvalid : p.table.validate = .ok p.table)
    (hcapacity : 1 ≤ p.captureCapacity) (hlimit : p.maxInputLength = none) (text : String)
    (environment : σ) : p.StaysInside text environment := by
  have hcons := Table.consistent_of_validate hvalid
  have hbehind : ∀ captures n, Machine.Contained p.toMachine (p.behind n text captures environment) :=
    fun captures n => Machine.contained_steps hcons (hcons.hasTokens hcons.initial) n
  obtain ⟨captures, hempty, -, -⟩ := empty?_of_pos hcapacity
  have hexceeds : p.exceeds text = none := by
    unfold exceeds
    rw [hlimit]
    rfl
  have hparse : p.parse text environment
      = conclude text (p.behind (text.length + 1) text captures environment) := by
    rw [← progress_eq_behind hcons.literals]
    exact parse_eq_conclude hexceeds hempty environment
  have hlast := hbehind captures (text.length + 1)
  have hends := (run_eq_behind hcons.literals text captures environment).1
  refine
    { faults := fun fault hf => ?_
      states := fun captures n => (hbehind captures n).state
      lookups := fun captures n e he => ?_
      accepted := fun a ha => ?_ }
  · rw [hparse] at hf
    rcases hlast.ending fault (ending_of_conclude_eq_error hends hf) with e | identifier |
      ⟨identifier, capacity⟩
    · exact Or.inl ⟨e, rfl⟩
    · exact Or.inr (Or.inl ⟨identifier, rfl⟩)
    · exact Or.inr (Or.inr ⟨identifier, capacity, rfl⟩)
  · cases (hbehind captures n).ending _ he
  · rw [hparse, conclude_accepted] at ha
    have hlist := hlast.accepted a ha
    exact ⟨hlist, hcons.actions _ _ hlist⟩

/-- A chain that goes from state to state and back, up to a token that no state takes. -/
theorem stays_inside_window :
    Window.grammar.validate = .ok Window.grammar ∧ (1 : Int) ≤ (tracing Window.grammar).captureCapacity
      ∧ (tracing Window.grammar).maxInputLength = none
      ∧ (tracing Window.grammar).StaysInside "[id=7] focus, move left 10 px; border wide" {} :=
  ⟨Window.validate_grammar, by decide, rfl,
    stays_inside (tracing Window.grammar) Window.validate_grammar (by decide) rfl _ _⟩

end Parser

end CommandGrammar
