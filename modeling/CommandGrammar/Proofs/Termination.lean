import CommandGrammar.Proofs.Reports
import CommandGrammar.Proofs.Validity
import CommandGrammar.Trace
import Mathlib.Data.List.Perm.Subperm

/-!
# Progress and termination

Every step that goes on leaves the position further on, and no position lies more than one character
behind the end of the text. So a run ends after at most one step for each character and one more, whatever
the table leads it to, as long as no literal is empty.

* `Config.Within` — a configuration that stands in a text with the rest that belongs to its position.
* `step_within`, `step_of_going`, `step_of_complete`, `step_of_stopped` — where one step leads.
* `Paced` — what holds behind any number of steps (`paced_steps`).
* `Parser.terminates` — the statement about whole runs.
-/

namespace CommandGrammar

/-! ## Places in a text -/

/-- The configuration stands in the text, and its rest is what follows its position. -/
def Config.Within {σ : Type} (text : List Char) (c : Config σ) : Prop :=
  c.position ≤ text.length ∧ c.rest = text.drop c.position

namespace Config

variable {σ : Type} {text : List Char} {c : Config σ}

theorem Within.position_add (h : c.Within text) : c.position + c.rest.length = text.length := by
  rw [h.2, List.length_drop]
  have := h.1
  omega

theorem Within.skipBlanks (h : c.Within text) : c.skipBlanks.Within text := by
  have hsum := h.position_add
  have hlen : (c.rest.takeWhile isBlank).length ≤ c.rest.length :=
    (List.takeWhile_prefix _).length_le
  refine ⟨by simp only [Config.skipBlanks]; omega, ?_⟩
  show c.rest.dropWhile isBlank = text.drop (c.position + (c.rest.takeWhile isBlank).length)
  rw [← drop_length_takeWhile, h.2, List.drop_drop]

theorem Within.moved (h : c.Within text) {lexeme : Lexeme} (hle : lexeme.consumed ≤ c.rest.length) :
    (c.moved lexeme).Within text := by
  have hsum := h.position_add
  refine ⟨by simp only [Config.moved]; omega, ?_⟩
  show c.rest.drop lexeme.consumed = text.drop (c.position + lexeme.consumed)
  rw [h.2, List.drop_drop]

theorem Within.congr {d : Config σ} (h : c.Within text) (hp : d.position = c.position)
    (hr : d.rest = c.rest) : d.Within text :=
  ⟨by rw [hp]; exact h.1, by rw [hr, hp]; exact h.2⟩

end Config

/-! ## The size of a chosen lexeme -/

/-- A chosen lexeme lies in front of the end, unless it is that of a command that ends there. -/
theorem consumed_of_choose? {tokens : List Token} {cs : List Char} {token : Token} {lexeme : Lexeme}
    (h : choose? tokens cs = some (token, lexeme)) :
    lexeme.consumed ≤ cs.length
      ∨ cs = [] ∧ token.kind = .commandEnd ∧ lexeme = { value := none, consumed := 1 } := by
  obtain ⟨taken, rest, rfl, htakes, rfl⟩ := Token.lexeme?_eq_some_iff.mp (lexeme?_of_choose? h)
  rcases htakes.consumed with hc | ⟨rfl, rfl, hk, hl⟩
  · left
    rw [hc, List.length_append]
    omega
  · exact Or.inr ⟨rfl, hk, hl⟩

/-- A chosen lexeme is not empty, if no literal is. -/
theorem consumed_pos_of_choose? {tokens : List Token} {cs : List Char} {token : Token}
    {lexeme : Lexeme} (h : choose? tokens cs = some (token, lexeme))
    (hlit : token.kind = .literal → token.text.getD "" ≠ "") : 0 < lexeme.consumed := by
  obtain ⟨taken, rest, rfl, htakes, rfl⟩ := Token.lexeme?_eq_some_iff.mp (lexeme?_of_choose? h)
  rcases htakes.consumed with hc | ⟨-, -, -, hl⟩
  · rcases htakes.length_pos hlit with hpos | ⟨-, -, hk⟩
    · omega
    · simp [Token.lexemeOf, hk]
  · rw [hl]; decide

/-! ## Where a step leads -/

namespace Machine

variable {σ ρ ε : Type} {m : Machine σ ρ ε} {text : List Char} {c : Config σ}

/-- A step that goes on stays within the text. -/
theorem step_within (hc : c.Within text) (h : (m.step c).ending = none) :
    (m.step c).config.Within text := by
  revert h
  have hs := m.stepped c
  generalize m.step c = q at hs ⊢
  intro h
  cases hs with
  | lost | unmatched | completed => cases h
  | cut _ _ he => cases he.symm.trans h
  | @moved tokens token lexeme ht hch he hle =>
    obtain ⟨hpos, hrest, -⟩ := perform_place m token lexeme c.skipBlanks
    exact (hc.skipBlanks.congr hpos hrest).moved (hrest ▸ hle)

/-- A step that goes on accepts one token in front of the end and stands behind it. -/
theorem step_of_going (hlit : m.table.LiteralsHaveText) (hc : c.Within text)
    (h : (m.step c).ending = none) :
    (m.step c).config.Within text ∧ ∃ a : Nat × StateName × Token × Lexeme,
      (m.step c).journal.accepted = [a] ∧ c.position ≤ a.1 ∧ a.1 < (m.step c).config.position := by
  refine ⟨step_within hc h, ?_⟩
  revert h
  have hs := m.stepped c
  generalize m.step c = q at hs ⊢
  intro h
  cases hs with
  | lost | unmatched | completed => simp [Progress.stop] at h
  | cut _ _ he => rw [he] at h; simp at h
  | @moved tokens token lexeme ht hch he hle =>
    obtain ⟨hpos, -⟩ := perform_place m token lexeme c.skipBlanks
    have hlit' := hlit c.state token ⟨tokens, ht, mem_of_choose? hch⟩
    have hpos' := consumed_pos_of_choose? hch hlit'
    refine ⟨(c.skipBlanks.position, c.skipBlanks.state, token, lexeme), ?_, ?_, ?_⟩
    · rw [Journal.accepted_append, tries_accepted, perform_accepted, List.nil_append]
    · exact Nat.le_add_right _ _
    · show c.skipBlanks.position < (m.perform token lexeme c.skipBlanks).config.position + _
      omega

/-- A step that completes the run chooses the end of a command at the end of the text. -/
theorem choice_of_complete (h : (m.step c).ending = some .complete) :
    ∃ tokens token, m.table.tokens c.state = .ok tokens
      ∧ choose? tokens c.skipBlanks.rest = some (token, { value := none, consumed := 1 })
      ∧ c.skipBlanks.rest = [] ∧ token.kind = .commandEnd := by
  have hs := m.stepped c
  generalize m.step c = q at hs h
  cases hs with
  | lost | unmatched | moved => cases h
  | cut _ _ he => cases he.symm.trans h
  | @completed tokens token lexeme ht hch he hlt =>
    obtain ⟨hnil, hk, rfl⟩ := (consumed_of_choose? hch).resolve_left (Nat.not_le_of_lt hlt)
    exact ⟨tokens, token, ht, hch, hnil, hk⟩

/-- A step that completes the run accepts the end of a command at the end of the text, and stands one
character behind it. -/
theorem step_of_complete (hc : c.Within text) (h : (m.step c).ending = some .complete) :
    (m.step c).config.position = text.length + 1
      ∧ ∃ state token, (m.step c).journal.accepted
          = [(text.length, state, token, { value := none, consumed := 1 })]
        ∧ token.kind = .commandEnd := by
  revert h
  have hs := m.stepped c
  generalize m.step c = q at hs ⊢
  intro h
  cases hs with
  | lost | unmatched => simp [Progress.stop] at h
  | cut _ _ he => rw [he] at h; simp at h
  | moved => simp at h
  | @completed tokens token lexeme ht hch he hlt =>
    obtain ⟨hpos, -⟩ := perform_place m token lexeme c.skipBlanks
    rcases consumed_of_choose? hch with hle | ⟨hnil, hk, rfl⟩
    · omega
    · have hend : c.skipBlanks.position = text.length := by
        have := hc.skipBlanks.position_add
        rw [hnil] at this
        simpa using this
      refine ⟨?_, c.skipBlanks.state, token, ?_, hk⟩
      · show (m.perform token _ c.skipBlanks).config.position + 1 = text.length + 1
        rw [hpos, hend]
      · rw [Journal.accepted_append, tries_accepted, perform_accepted, hend, List.nil_append]

/-- A step that ends the run in any other way stays within the text, and is not for want of progress. -/
theorem step_of_stopped (hc : c.Within text) {e : Ending ε} (h : (m.step c).ending = some e)
    (he : e ≠ .complete) :
    (m.step c).config.position ≤ text.length ∧ e ≠ .abandoned .noProgress := by
  revert h
  have hs := m.stepped c
  generalize m.step c = q at hs ⊢
  intro h
  have hskip := hc.skipBlanks.1
  cases hs with
  | lost | unmatched =>
    obtain rfl := Option.some.inj h
    exact ⟨hskip, by simp⟩
  | @cut tokens token lexeme f ht hch hcut =>
    obtain ⟨hpos, -⟩ := perform_place m token lexeme c.skipBlanks
    refine ⟨hpos ▸ hskip, ?_⟩
    rcases perform_ending h with ⟨_, _, _, _, _, rfl⟩ | ⟨_, _, _, _, _, rfl⟩ | ⟨_, rfl⟩ <;> simp
  | moved => simp at h
  | completed => exact absurd (Option.some.inj h).symm he

/-- A step accepts at most one token, at a place of the text that is not in front of its own. -/
theorem step_accepted (hc : c.Within text) :
    (m.step c).journal.accepted = [] ∨ ∃ a : Nat × StateName × Token × Lexeme,
      (m.step c).journal.accepted = [a] ∧ c.position ≤ a.1 ∧ a.1 ≤ text.length := by
  have hs := m.stepped c
  generalize m.step c = q at hs ⊢
  have hskip := hc.skipBlanks.1
  cases hs with
  | lost => exact Or.inl rfl
  | unmatched => exact Or.inl (tries_accepted _ _)
  | @cut _ token lexeme | @moved _ token lexeme | @completed _ token lexeme =>
    refine Or.inr ⟨(c.skipBlanks.position, c.skipBlanks.state, token, lexeme), ?_,
      Nat.le_add_right _ _, hskip⟩
    rw [Journal.accepted_append, tries_accepted, perform_accepted, List.nil_append]

/-! ## Behind any number of steps -/

/-- What holds behind any number of steps on a text. -/
structure Paced (text : List Char) (q : Progress σ ρ ε) : Prop where
  /-- A run that goes on stands within the text, behind every token accepted. -/
  going : q.ending = none →
    q.config.Within text ∧ ∀ a ∈ q.journal.accepted, a.1 < q.config.position
  /-- A complete run stands one character behind the text, and its last token ended a command there. -/
  complete : q.ending = some .complete → q.config.position = text.length + 1
    ∧ ∃ before state token, q.journal.accepted
        = before ++ [(text.length, state, token, { value := none, consumed := 1 })]
      ∧ token.kind = .commandEnd
  /-- A run that ended otherwise stands within the text. -/
  stopped : ∀ e, q.ending = some e → e ≠ .complete →
    q.config.position ≤ text.length ∧ e ≠ .abandoned .noProgress
  /-- Tokens are accepted at places further and further on in the text. -/
  sorted : (q.journal.accepted.map Prod.fst).Pairwise (· < ·)
  inside : ∀ a ∈ q.journal.accepted, a.1 ≤ text.length

theorem paced_start (hc : c.Within text) : Paced text (.note c [] : Progress σ ρ ε) where
  going _ := ⟨hc, by simp [Progress.note]⟩
  complete h := by simp [Progress.note] at h
  stopped e h := by simp [Progress.note] at h
  sorted := by simp [Progress.note]
  inside := by simp [Progress.note]

theorem Paced.step (hlit : m.table.LiteralsHaveText) {q : Progress σ ρ ε} (h : Paced text q)
    (hq : q.ending = none) : Paced text (q.andThen m.step) := by
  obtain ⟨hw, hbehind⟩ := h.going hq
  have hacc : (q.andThen m.step).journal.accepted
      = q.journal.accepted ++ (m.step q.config).journal.accepted := by
    rw [Progress.journal_andThen_of_none hq, Journal.accepted_append]
  refine ⟨fun he => ?_, fun he => ?_, fun e he hne => ?_, ?_, ?_⟩
  · -- The token accepted last lies in front of the new position, and the others in front of the old one.
    rw [Progress.ending_andThen_of_none hq] at he
    obtain ⟨hw', a, ha, hle, hlt⟩ := step_of_going hlit hw he
    rw [hacc, ha, Progress.config_andThen_of_none hq]
    refine ⟨hw', fun b hb => ?_⟩
    rcases List.mem_append.mp hb with hb | hb
    · have := hbehind b hb
      omega
    · obtain rfl := List.mem_singleton.mp hb
      exact hlt
  · rw [Progress.ending_andThen_of_none hq] at he
    obtain ⟨hpos, state, token, ha, hk⟩ := step_of_complete hw he
    rw [hacc, ha, Progress.config_andThen_of_none hq]
    exact ⟨hpos, q.journal.accepted, state, token, rfl, hk⟩
  · rw [Progress.ending_andThen_of_none hq] at he
    rw [Progress.config_andThen_of_none hq]
    exact step_of_stopped hw he hne
  · rw [hacc]
    rcases step_accepted hw with ha | ⟨a, ha, hle, -⟩
    · rw [ha, List.append_nil]
      exact h.sorted
    · rw [ha, List.map_append, List.pairwise_append]
      refine ⟨h.sorted, List.pairwise_singleton _ _, fun x hx y hy => ?_⟩
      obtain ⟨b, hb, rfl⟩ := List.mem_map.mp hx
      obtain rfl := List.mem_singleton.mp hy
      exact Nat.lt_of_lt_of_le (hbehind b hb) hle
  · rw [hacc]
    intro b hb
    rcases List.mem_append.mp hb with hb | hb
    · exact h.inside b hb
    · rcases step_accepted hw with ha | ⟨a, ha, -, hin⟩
      · rw [ha] at hb; simp at hb
      · rw [ha] at hb
        obtain rfl := List.mem_singleton.mp hb
        exact hin

/-- **The pace is kept by any number of steps.** -/
theorem paced_steps (hlit : m.table.LiteralsHaveText) (hc : c.Within text) (n : Nat) :
    Paced text (m.steps n c) :=
  m.steps_induction (paced_start hc) (fun _ h hq => h.step hlit hq) n

/-- A run that still goes on behind `n` steps has come at least `n` characters further. -/
theorem add_le_position_of_going (hlit : m.table.LiteralsHaveText) (hc : c.Within text) (n : Nat)
    (h : (m.steps n c).ending = none) : c.position + n ≤ (m.steps n c).config.position := by
  induction n with
  | zero => exact Nat.le_refl _
  | succ n ih =>
    rw [steps_succ] at h ⊢
    obtain ⟨hn, hs⟩ := Progress.ending_andThen_eq_none.mp h
    obtain ⟨-, a, -, hle, hlt⟩ := step_of_going hlit ((paced_steps hlit hc n).going hn).1 hs
    have := ih hn
    rw [Progress.config_andThen_of_none hn]
    omega

/-- **A run ends** after at most one step for each character left and one more. -/
theorem exists_ending (hlit : m.table.LiteralsHaveText) (hc : c.Within text) {n : Nat}
    (hn : c.rest.length < n) : ∃ e, (m.steps n c).ending = some e := by
  cases h : (m.steps n c).ending with
  | some e => exact ⟨e, rfl⟩
  | none =>
    have hle := add_le_position_of_going hlit hc n h
    have hin := ((paced_steps hlit hc n).going h).1.1
    have hsum := hc.position_add
    omega

end Machine

/-! ## Whole runs -/

namespace Parser

variable {σ ρ ε : Type} (p : Parser σ ρ ε)

theorem start_within (text : String) (captures : Captures) (environment : σ) :
    (p.start text captures environment).Within text.toList :=
  ⟨Nat.zero_le _, rfl⟩

/-- What it means that a run on a text comes to its end in time. -/
structure Terminates (text : String) (captures : Captures) (environment : σ) : Prop where
  /-- The loop ends by itself after at most one step for each character and one more, whatever budget
  there is beyond that. -/
  ends : (p.behind (text.length + 1) text captures environment).ending ≠ none
    ∧ ∀ k, p.run (text.length + 1 + k) (p.start text captures environment)
      = p.behind (text.length + 1) text captures environment
  /-- So a run never ends for want of progress. -/
  progress : (p.progress text captures environment).ending ≠ some (.abandoned .noProgress)
  /-- Every step of the loop that does not give the run up accepts one token and moves the position on. -/
  increases : ∀ n, (p.behind n text captures environment).ending = none →
    (p.behind (n + 1) text captures environment).ending = none
      ∨ (p.behind (n + 1) text captures environment).ending = some .complete →
    (p.behind n text captures environment).config.position
        < (p.behind (n + 1) text captures environment).config.position
      ∧ (p.behind (n + 1) text captures environment).journal.accepted.length
        = (p.behind n text captures environment).journal.accepted.length + 1
  /-- Tokens are accepted further and further on. -/
  sorted : ((p.progress text captures environment).journal.accepted.map Prod.fst).Pairwise (· < ·)
  /-- The position is never more than one character behind the text. -/
  bounded : ∀ n, (p.behind n text captures environment).config.position ≤ text.length + 1
  /-- There are at most as many tokens as characters, and one more. -/
  count : (p.progress text captures environment).journal.accepted.length ≤ text.length + 1
  /-- A run with an outcome stands behind the text exactly if the outcome is in order. -/
  position_iff : ∀ o, (conclude text (p.progress text captures environment)).verdict = .ok o →
    ((p.progress text captures environment).config.position = text.length + 1 ↔ o.ok = true)
  /-- The last token is then the end of a command, tried at the end of the text. -/
  last : ∀ o, (conclude text (p.progress text captures environment)).verdict = .ok o →
    o.ok = true → ∃ before state token,
      (p.progress text captures environment).journal.accepted
          = before ++ [(text.length, state, token, { value := none, consumed := 1 })]
        ∧ token.kind = .commandEnd

variable {p} {text : String} {captures : Captures} {environment : σ}

theorem paced_behind (hlit : p.table.LiteralsHaveText) (text : String) (captures : Captures)
    (environment : σ) (n : Nat) :
    Machine.Paced text.toList (p.behind n text captures environment) :=
  Machine.paced_steps hlit (p.start_within text captures environment) n

/-- The budget of a run is enough, and more would change nothing. -/
theorem run_eq_behind (hlit : p.table.LiteralsHaveText) (text : String) (captures : Captures)
    (environment : σ) :
    (p.behind (text.length + 1) text captures environment).ending ≠ none
      ∧ ∀ k, p.run (text.length + 1 + k) (p.start text captures environment)
        = p.behind (text.length + 1) text captures environment := by
  have hw := p.start_within text captures environment
  obtain ⟨e, he⟩ := Machine.exists_ending hlit hw (Nat.lt_succ_self _)
  have hlen : (p.start text captures environment).rest.length = text.length := String.length_toList
  rw [hlen] at he
  refine ⟨by rw [behind, he]; simp, fun k => ?_⟩
  rw [Machine.run_add _ he, Machine.run_of_ended _ he]
  rfl

theorem progress_eq_behind (hlit : p.table.LiteralsHaveText) (text : String) (captures : Captures)
    (environment : σ) :
    p.progress text captures environment = p.behind (text.length + 1) text captures environment :=
  (run_eq_behind hlit text captures environment).2 0

theorem behind_increases (hlit : p.table.LiteralsHaveText) (n : Nat)
    (hn : (p.behind n text captures environment).ending = none)
    (h : (p.behind (n + 1) text captures environment).ending = none
      ∨ (p.behind (n + 1) text captures environment).ending = some .complete) :
    (p.behind n text captures environment).config.position
        < (p.behind (n + 1) text captures environment).config.position
      ∧ (p.behind (n + 1) text captures environment).journal.accepted.length
        = (p.behind n text captures environment).journal.accepted.length + 1 := by
  have hw := ((paced_behind hlit text captures environment n).going hn).1
  rw [behind_succ, Progress.ending_andThen_of_none hn] at h
  rw [behind_succ, Progress.config_andThen_of_none hn, Progress.journal_andThen_of_none hn,
    Journal.accepted_append, List.length_append]
  rcases h with h | h
  · obtain ⟨-, a, ha, hle, hlt⟩ := Machine.step_of_going hlit hw h
    exact ⟨by omega, by rw [ha]; rfl⟩
  · obtain ⟨hpos, state, token, ha, -⟩ := Machine.step_of_complete hw h
    have := hw.1
    exact ⟨by omega, by rw [ha]; rfl⟩

theorem behind_bounded (hlit : p.table.LiteralsHaveText) (n : Nat) :
    (p.behind n text captures environment).config.position ≤ text.length + 1 := by
  have hp := paced_behind hlit text captures environment n
  have hlen : text.toList.length = text.length := String.length_toList
  cases he : (p.behind n text captures environment).ending with
  | none =>
    have := (hp.going he).1.1
    omega
  | some e =>
    by_cases hc : e = .complete
    · have := (hp.complete (hc ▸ he)).1
      omega
    · have := (hp.stopped e he hc).1
      omega

/-- Places that lie further and further on in a text are at most as many as its characters, and one. -/
theorem length_le_of_sorted {l : List Nat} {n : Nat} (hs : l.Pairwise (· < ·)) (hn : ∀ i ∈ l, i ≤ n) :
    l.length ≤ n + 1 := by
  -- They are different numbers among the first `n + 1`.
  have hnodup : l.Nodup := hs.imp fun h => Nat.ne_of_lt h
  have hsub : l ⊆ List.range (n + 1) :=
    fun i hi => List.mem_range.mpr (Nat.lt_succ_of_le (hn i hi))
  have hle := (hnodup.subperm hsub).length_le
  rwa [List.length_range] at hle

theorem accepted_length_le (hlit : p.table.LiteralsHaveText) (n : Nat) :
    (p.behind n text captures environment).journal.accepted.length ≤ text.length + 1 := by
  have hp := paced_behind hlit text captures environment n
  have hle := length_le_of_sorted hp.sorted fun i hi => by
    obtain ⟨a, ha, rfl⟩ := List.mem_map.mp hi
    exact hp.inside a ha
  rwa [List.length_map, String.length_toList] at hle

theorem position_eq_iff_of_ok (hlit : p.table.LiteralsHaveText) (n : Nat) {o : Outcome ρ}
    (h : (conclude text (p.behind n text captures environment)).verdict = .ok o) :
    (p.behind n text captures environment).config.position = text.length + 1 ↔ o.ok = true := by
  have hp := paced_behind hlit text captures environment n
  have hlen : text.toList.length = text.length := String.length_toList
  rcases conclude_eq_ok h with ⟨he, hok⟩ | ⟨expected, he, hok⟩
  · rw [hok, (hp.complete he).1, hlen]
    simp
  · have hle := (hp.stopped _ he (by simp)).1
    rw [hok]
    constructor
    · intro heq
      omega
    · intro hf
      cases hf

/-- **Every run terminates**, on any table whose literals have a text, valid or not, and for any callbacks. -/
theorem terminates (p : Parser σ ρ ε) (hlit : p.table.LiteralsHaveText) (text : String)
    (environment : σ) :
    (∀ captures, p.Terminates text captures environment)
      ∧ (p.parse text environment).verdict ≠ .error .noProgress := by
  have hends : ∀ captures, p.Terminates text captures environment := by
    intro captures
    have hq := progress_eq_behind hlit text captures environment
    have hp := paced_behind hlit text captures environment (text.length + 1)
    refine
      { ends := run_eq_behind hlit text captures environment
        progress := ?_
        increases := fun n => behind_increases hlit n
        sorted := by rw [hq]; exact hp.sorted
        bounded := fun n => behind_bounded hlit n
        count := by rw [hq]; exact accepted_length_le hlit _
        position_iff := by rw [hq]; exact fun o ho => position_eq_iff_of_ok hlit _ ho
        last := ?_ }
    · rw [hq]
      intro he
      exact (hp.stopped _ he (by simp)).2 rfl
    · rw [hq]
      intro o ho hok
      rcases conclude_eq_ok ho with ⟨he, -⟩ | ⟨expected, -, hno⟩
      · have hlast := (hp.complete he).2
        rwa [String.length_toList] at hlast
      · rw [hno] at hok; cases hok
  refine ⟨hends, ?_⟩
  unfold parse
  split
  · simp
  · split
    · simp
    · next captures _ =>
      have h := hends captures
      refine conclude_ne_noProgress ?_ h.progress
      rw [progress_eq_behind hlit text captures environment]
      exact h.ends.1

/-- A chain with criteria, quotes and blanks at the end comes to its end on the table of the window language. -/
theorem terminates_window :
    Window.grammar.LiteralsHaveText
      ∧ (∀ captures, (tracing Window.grammar).Terminates
          "[title=\"a,b\"] kill , move left 10 px; nop \t" captures {})
      ∧ ((tracing Window.grammar).parse "[title=\"a,b\"] kill , move left 10 px; nop \t" {}).verdict
        ≠ .error .noProgress := by
  have hlit := (Table.consistent_of_validate Window.validate_grammar).literals
  exact ⟨hlit, terminates (tracing Window.grammar) hlit _ _⟩

end Parser

end CommandGrammar
