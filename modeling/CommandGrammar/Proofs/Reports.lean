import CommandGrammar.Proofs.Steps

/-!
# Reports

What a parser reports of a run: `parse` is a run of steps with a verdict on it, unless the text or the
capacity is refused in front of it.

* `Parser.behind` — the first steps of a run on a text.
* `conclude_eq_ok`, `conclude_eq_capture_iff` — the verdict tells how the run ended.
* `conclude_accepted`, `conclude_held` — the report holds what the run left behind.
* `parse_of_exceeds`, `parse_eq_conclude` — a text is refused for its length, or run on.
-/

namespace CommandGrammar

namespace Parser

variable {σ ρ ε : Type} (p : Parser σ ρ ε)

/-- The first `n` steps of a run on a text. -/
def behind (n : Nat) (text : String) (captures : Captures) (environment : σ) : Progress σ ρ ε :=
  p.steps n (p.start text captures environment)

/-- The parser with another limit for the length of texts, or with none. -/
def withLimit (limit : Option Int) : Parser σ ρ ε := { p with maxInputLength := limit }

variable {p} {text : String} {captures : Captures} {environment : σ}

theorem behind_succ (n : Nat) :
    p.behind (n + 1) text captures environment
      = (p.behind n text captures environment).andThen p.step :=
  p.steps_succ n _

/-! ## Verdicts -/

/-- What the verdict says about the end of a run. -/
theorem conclude_eq_ok {q : Progress σ ρ ε} {o : Outcome ρ}
    (h : (conclude text q).verdict = .ok o) :
    q.ending = some .complete ∧ o.ok = true
      ∨ ∃ expected, q.ending = some (.unmatched expected) ∧ o.ok = false := by
  unfold conclude at h
  split at h
  · next he =>
    obtain rfl := Except.ok.inj h
    exact Or.inl ⟨he, rfl⟩
  · next expected he =>
    obtain rfl := Except.ok.inj h
    exact Or.inr ⟨expected, he, rfl⟩
  · cases h
  · cases h

/-- An outcome has the actions of the run, and its results. -/
theorem outcome_of_conclude {q : Progress σ ρ ε} {o : Outcome ρ}
    (h : (conclude text q).verdict = .ok o) : o.actions = q.actions ∧ o.results = q.results := by
  unfold conclude at h
  split at h
  · obtain rfl := Except.ok.inj h
    exact ⟨rfl, rfl⟩
  · obtain rfl := Except.ok.inj h
    exact ⟨rfl, rfl⟩
  · cases h
  · cases h

theorem conclude_of_complete {q : Progress σ ρ ε} (h : q.ending = some .complete) :
    (conclude text q).verdict = .ok ⟨q.actions, q.results, none⟩ := by
  unfold conclude
  simp only [h]

/-- An outcome is in order exactly if the run is complete. -/
theorem conclude_ok_iff {q : Progress σ ρ ε} :
    (∃ o, (conclude text q).verdict = .ok o ∧ o.ok = true) ↔ q.ending = some .complete := by
  constructor
  · rintro ⟨o, ho, hok⟩
    rcases conclude_eq_ok ho with ⟨he, -⟩ | ⟨_, -, hno⟩
    · exact he
    · rw [hno] at hok
      cases hok
  · intro he
    exact ⟨⟨q.actions, q.results, none⟩, conclude_of_complete he, rfl⟩

theorem conclude_ne_noProgress {q : Progress σ ρ ε} (hends : q.ending ≠ none)
    (h : q.ending ≠ some (.abandoned .noProgress)) :
    (conclude text q).verdict ≠ .error .noProgress := by
  unfold conclude
  split
  · simp
  · simp
  · next fault he =>
    intro hv
    obtain rfl := Except.error.inj hv
    exact h he
  · next he => exact absurd he hends

theorem conclude_eq_capture_iff {q : Progress σ ρ ε} {e : CaptureError} :
    (conclude text q).verdict = .error (.capture e)
      ↔ q.ending = some (.abandoned (.capture e)) := by
  unfold conclude
  split
  · next he => simp [he]
  · next he => simp [he]
  · next he => simp [he]
  · next he => simp [he]

/-- The fault in a verdict is the one for which an ended run was given up. -/
theorem ending_of_conclude_eq_error {q : Progress σ ρ ε} {fault : Fault ε} (hends : q.ending ≠ none)
    (h : (conclude text q).verdict = .error fault) : q.ending = some (.abandoned fault) := by
  unfold conclude at h
  split at h
  · cases h
  · cases h
  · next he =>
    obtain rfl := Except.error.inj h
    exact he
  · next he => exact absurd he hends

/-! ## What is left behind -/

theorem conclude_environment (text : String) (q : Progress σ ρ ε) :
    (conclude text q).environment = q.config.environment := by
  unfold conclude
  split <;> rfl

/-- Around a run nothing is written down but its start and how it came to its end. -/
theorem conclude_last (text : String) (q : Progress σ ρ ε) :
    ∃ last, (conclude text q).journal = .started text :: q.journal ++ last
      ∧ ∀ e ∈ last, (∃ actions, e = .finished actions) ∨ ∃ position state, e = .unmatched position state := by
  unfold conclude
  split
  · exact ⟨[.finished q.actions], rfl, by simp⟩
  · exact ⟨[.unmatched q.config.position q.config.state], rfl, by simp⟩
  · exact ⟨[], rfl, by simp⟩
  · exact ⟨[], rfl, by simp⟩

/-- What is written down around a run is no match and no invocation. -/
theorem conclude_journal (text : String) (q : Progress σ ρ ε) :
    ∃ last, (conclude text q).journal = .started text :: q.journal ++ last
      ∧ (∀ e ∈ last, Machine.NoMatch e)
      ∧ ∀ action name held, .invoked action name held ∉ last := by
  obtain ⟨last, hj, hlast⟩ := conclude_last text q
  refine ⟨last, hj, fun e he p s t l => ?_, fun action name held he => ?_⟩
  · rcases hlast e he with ⟨_, rfl⟩ | ⟨_, _, rfl⟩ <;> simp
  · rcases hlast _ he with ⟨_, h⟩ | ⟨_, _, h⟩ <;> cases h

theorem conclude_accepted (text : String) (q : Progress σ ρ ε) :
    (conclude text q).journal.accepted = q.journal.accepted := by
  obtain ⟨last, hj, hlast, -⟩ := conclude_journal text q
  rw [hj, Journal.accepted_append, Journal.accepted_eq_nil hlast, List.append_nil]
  rfl

theorem conclude_held (text : String) (q : Progress σ ρ ε) :
    (conclude text q).held = q.config.captures.toList := by
  unfold conclude
  split <;> rfl

/-! ## Whole texts -/

/-- A capacity of at least one is the capacity that the captures of a run start with. -/
theorem empty?_of_pos {capacity : Int} (h : 1 ≤ capacity) :
    ∃ captures, Captures.empty? capacity = .ok captures ∧ captures.toList = []
      ∧ captures.capacity = capacity.toNat := by
  unfold Captures.empty?
  rw [dif_pos h]
  exact ⟨_, rfl, rfl, rfl⟩

theorem toList_of_empty? {capacity : Int} (h : Captures.empty? capacity = .ok captures) :
    captures.toList = [] := by
  unfold Captures.empty? at h
  split at h
  · rw [← Except.ok.inj h]
    rfl
  · cases h

/-- A text that is no longer than one within the limit is within the limit as well. -/
theorem exceeds_of_le {x y : String} (hle : x.length ≤ y.length) (hy : p.exceeds y = none) :
    p.exceeds x = none := by
  unfold exceeds at hy ⊢
  cases hm : p.maxInputLength with
  | none => rfl
  | some n =>
    rw [hm] at hy
    simp only [Option.filter_eq_none_iff, Option.some.injEq, forall_eq', decide_eq_true_eq] at hy ⊢
    omega

/-- A text exceeds a limit if it is longer. -/
theorem exceeds_eq {limit : Int} (h : p.maxInputLength = some limit) :
    p.exceeds text = if limit < text.length then some limit else none := by
  by_cases hlt : limit < text.length <;> simp [exceeds, h, Option.filter, hlt]

/-- A text over the limit is refused in front of everything else. -/
theorem parse_of_exceeds {limit : Int} (h : p.exceeds text = some limit) (environment : σ) :
    p.parse text environment = ⟨.error (.inputTooLong text.length limit), environment, [], []⟩ := by
  simp only [parse, h]

/-- A text within the limit is read as without one. -/
theorem parse_withLimit_none (h : p.exceeds text = none) (environment : σ) :
    (p.withLimit none).parse text environment = p.parse text environment := by
  have hnone : (p.withLimit none).exceeds text = none := rfl
  simp only [parse, h, hnone]
  rfl

/-- A text that is taken is run on, and the run concluded. -/
theorem parse_eq_conclude (hexceeds : p.exceeds text = none)
    (hcaptures : Captures.empty? p.captureCapacity = .ok captures) (environment : σ) :
    p.parse text environment = conclude text (p.progress text captures environment) := by
  simp only [parse, hexceeds, hcaptures]

/-- A text with an outcome has been run on. -/
theorem exists_parse_eq_conclude {o : Outcome ρ} (h : (p.parse text environment).verdict = .ok o) :
    ∃ captures, Captures.empty? p.captureCapacity = .ok captures
      ∧ p.parse text environment = conclude text (p.progress text captures environment) := by
  cases hexceeds : p.exceeds text with
  | some limit =>
    rw [parse_of_exceeds hexceeds] at h
    cases h
  | none =>
    cases hcaptures : Captures.empty? p.captureCapacity with
    | error e =>
      simp only [parse, hexceeds, hcaptures] at h
      cases h
    | ok captures => exact ⟨captures, rfl, parse_eq_conclude hexceeds hcaptures environment⟩

end Parser

end CommandGrammar
