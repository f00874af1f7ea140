import CommandGrammar.Proofs.Recording
import CommandGrammar.Proofs.Safety
import CommandGrammar.Proofs.Scope

/-!
# Where a match is written down

The journal of a run falls into stretches, each a search among the tokens of a state and then what belongs
to the token accepted. A match that is written down is that of one step, and the stretch of that step ends
where the next search starts.

* `Journal.untilSearch`, `Journal.fromSearch` — a journal up to the next search, and from there on.
* `Machine.exists_step_of_matched` — the step that writes a match down.
* `Machine.choice_of_accepted`, `Parser.choice_of_mem_accepted` — a token accepted is the one chosen at its place.
* `Machine.isSearch_of_mem_head?` — inside a table every step starts with a search.
-/

namespace CommandGrammar

/-! ## Searches in a journal -/

/-- Whether an event is a search, in which a token is compared with the text. -/
def Event.isSearch : Event → Bool
  | .tried .. => true
  | _ => false

namespace Journal

/-- What is written down in front of the next search. -/
def untilSearch (j : Journal) : Journal := j.takeWhile (!·.isSearch)

/-- What is written down from the next search on. -/
def fromSearch (j : Journal) : Journal := j.dropWhile (!·.isSearch)

theorem untilSearch_append {i j : Journal} (hi : ∀ e ∈ i, e.isSearch = false)
    (hj : ∀ e ∈ j.head?, e.isSearch = true) : (i ++ j).untilSearch = i :=
  takeWhile_append_of_stop (by simpa using hi) (by simpa using hj)

theorem fromSearch_append {i j : Journal} (hi : ∀ e ∈ i, e.isSearch = false)
    (hj : ∀ e ∈ j.head?, e.isSearch = true) : (i ++ j).fromSearch = j :=
  dropWhile_append_of_stop (by simpa using hi) (by simpa using hj)

end Journal

/-! ## Events in a longer text -/

namespace Embedding

variable {σ : Type} (φ : Embedding σ)

@[simp] theorem isSearch_event (e : Event) : (φ.event e).isSearch = e.isSearch := by
  cases e <;> rfl

@[simp] theorem invocations_map (j : Journal) :
    Journal.invocations (j.map φ.event) = j.invocations := by
  unfold Journal.invocations
  rw [List.filterMap_map]
  congr 1
  funext e
  cases e <;> rfl

@[simp] theorem trace_map (j : Journal) : Journal.trace (j.map φ.event) = j.trace := by
  unfold Journal.trace
  rw [List.filterMap_map, List.countP_map]
  congr 2 <;> funext e <;> cases e <;> rfl

theorem accepted_map (j : Journal) :
    Journal.accepted (j.map φ.event) = j.accepted.map fun a => (φ.offset + a.1, a.2) := by
  unfold Journal.accepted
  rw [List.filterMap_map, List.map_filterMap]
  congr 1
  funext e
  cases e <;> rfl

theorem boundariesFrom_map (count : Nat) (j : Journal) :
    Journal.boundariesFrom count (j.map φ.event) = Journal.boundariesFrom count j := by
  induction j generalizing count with
  | nil => rfl
  | cons e j ih => cases e <;> simp [Journal.boundariesFrom, event, ih]

end Embedding

/-! ## The step that accepts a token -/

namespace Machine

variable {σ ρ ε : Type} {m : Machine σ ρ ε} {c : Config σ}

theorem not_isSearch_of_mem_follow (m : Machine σ ρ ε) (transition : Transition) (c : Config σ) :
    ∀ e ∈ (m.follow transition c).journal, e.isSearch = false := by
  have hdrop : ∀ d : Config σ, ∀ e ∈ (dropCaptures d : Progress σ ρ ε).journal,
      e.isSearch = false := by
    intro d e he
    obtain ⟨k, rfl⟩ := dropCaptures_journal d e he
    rfl
  have hinvocation : ∀ action name, ∀ e ∈ m.invocation action name c, e.isSearch = false := by
    intro action name e he
    simp only [invocation, List.mem_cons, List.mem_append, List.mem_map] at he
    rcases he with (rfl | ⟨x, -, rfl⟩) | he
    · rfl
    · rfl
    · exact hdrop c e he
  have hf := m.followed transition c
  generalize m.follow transition c = q at hf ⊢
  cases hf with
  | home => exact hdrop _
  | away => intro e he; simp [Progress.note] at he
  | unknown => intro e he; simp [Progress.stop] at he
  | failed | performed => exact hinvocation _ _

/-- A step in which a match is written down chose that token, and nothing but the search stands in front. -/
theorem choice_of_matched {pre post : Journal} {position : Nat} {state : StateName} {token : Token}
    {lexeme : Lexeme} (h : (m.step c).journal = pre ++ .matched position state token lexeme :: post) :
    ∃ tokens, m.table.tokens c.state = .ok tokens
      ∧ choose? tokens c.skipBlanks.rest = some (token, lexeme)
      ∧ pre = tries tokens c.skipBlanks ∧ position = c.skipBlanks.position := by
  have htried : ∀ tokens, .matched position state token lexeme ∉ tries tokens c.skipBlanks := by
    intro tokens he
    obtain ⟨u, -, hu⟩ := List.mem_map.mp he
    cases hu
  -- The match of the token chosen is the only one.
  have hsplit : ∀ {tokens u l}, tries tokens c.skipBlanks ++ (m.perform u l c.skipBlanks).journal
      = pre ++ .matched position state token lexeme :: post →
      pre = tries tokens c.skipBlanks ∧ position = c.skipBlanks.position ∧ token = u ∧ lexeme = l := by
    intro tokens u l hj
    obtain ⟨tail, htail, hno, -⟩ := perform_journal m u l c.skipBlanks
    rw [htail] at hj
    rcases List.append_eq_append_iff.mp hj with ⟨front, hpre, hfront⟩ | ⟨front, htries, hback⟩
    · cases front with
      | nil =>
        obtain ⟨he, -⟩ := List.cons.inj hfront
        cases he
        exact ⟨by simpa using hpre, rfl, rfl, rfl⟩
      | cons e front =>
        obtain ⟨rfl, rfl⟩ := List.cons.inj hfront
        exact absurd rfl (hno _ (by simp) position state token lexeme)
    · cases front with
      | nil =>
        obtain ⟨he, -⟩ := List.cons.inj hback
        cases he
        exact ⟨by simpa using htries.symm, rfl, rfl, rfl⟩
      | cons e front =>
        obtain ⟨rfl, -⟩ := List.cons.inj hback
        exact absurd (by rw [htries]; simp) (htried tokens)
  have hs := m.stepped c
  generalize m.step c = q at hs h
  cases hs with
  | lost => simp [Progress.stop] at h
  | @unmatched tokens => exact absurd (by rw [show tries tokens _ = _ from h]; simp) (htried tokens)
  | cut ht hch | moved ht hch | completed ht hch =>
    obtain ⟨hpre, hpos, rfl, rfl⟩ := hsplit h
    exact ⟨_, ht, hch, hpre, hpos⟩

/-- A match that is written down in a run is written down in one of its steps. -/
theorem exists_step_of_matched {n : Nat} {pre post : Journal} {position : Nat} {state : StateName}
    {token : Token} {lexeme : Lexeme}
    (h : (m.steps n c).journal = pre ++ .matched position state token lexeme :: post) :
    ∃ i k pre' post', n = i + (k + 1) ∧ (m.steps i c).ending = none
      ∧ pre = (m.steps i c).journal ++ pre'
      ∧ (m.step (m.steps i c).config).journal
        = pre' ++ .matched position state token lexeme :: post' := by
  induction n generalizing post with
  | zero => simp [steps_zero, Progress.note] at h
  | succ n ih =>
    -- The match lies in the last step, or in one of those in front of it.
    have hfront : ∀ {post}, (m.steps n c).journal
        = pre ++ .matched position state token lexeme :: post → _ := fun hj => ih hj
    rw [steps_succ] at h
    cases he : (m.steps n c).ending with
    | some e =>
      rw [Progress.andThen_of_some he] at h
      obtain ⟨i, k, pre', post', rfl, hrest⟩ := hfront h
      exact ⟨i, k + 1, pre', post', by omega, hrest⟩
    | none =>
      rw [Progress.journal_andThen_of_none he] at h
      rcases exists_split_of_append h with ⟨post', hj⟩ | ⟨pre', hpre, hj⟩
      · obtain ⟨i, k, pre', post', rfl, hrest⟩ := hfront hj
        exact ⟨i, k + 1, pre', post', by omega, hrest⟩
      · exact ⟨n, 0, pre', post, rfl, he, hpre, hj⟩

/-- The token that a step accepts is the one chosen at its place in the text. -/
theorem choice_of_step {text : List Char} (hc : c.Within text) {a : Nat × StateName × Token × Lexeme}
    (ha : a ∈ (m.step c).journal.accepted) :
    ∃ tokens, m.table.tokens a.2.1 = .ok tokens
      ∧ choose? tokens (text.drop a.1) = some (a.2.2.1, a.2.2.2) := by
  have hs := m.stepped c
  generalize m.step c = q at hs ha
  cases hs with
  | lost => cases ha
  | unmatched =>
    rw [tries_accepted] at ha
    cases ha
  | cut ht hch | moved ht hch | completed ht hch =>
    rw [Journal.accepted_append, tries_accepted, perform_accepted, List.nil_append] at ha
    obtain rfl := List.mem_singleton.mp ha
    exact ⟨_, ht, hc.skipBlanks.2 ▸ hch⟩

/-- **A token accepted in a run is the one chosen at its place in the text.** -/
theorem choice_of_accepted (hlit : m.table.LiteralsHaveText) {text : List Char} (hc : c.Within text) (n : Nat) :
    ∀ a ∈ (m.steps n c).journal.accepted, ∃ tokens, m.table.tokens a.2.1 = .ok tokens
      ∧ choose? tokens (text.drop a.1) = some (a.2.2.1, a.2.2.2) := by
  induction n with
  | zero => simp [steps_zero, Progress.note]
  | succ n ih =>
    rw [steps_succ]
    cases he : (m.steps n c).ending with
    | some e =>
      rw [Progress.andThen_of_some he]
      exact ih
    | none =>
      have hw := ((paced_steps hlit hc n).going he).1
      rw [Progress.journal_andThen_of_none he, Journal.accepted_append]
      intro a ha
      exact (List.mem_append.mp ha).elim (ih a) (choice_of_step hw)

/-- The first thing that a step writes down is a search, if its state has tokens. -/
theorem exists_search_of_step (hstate : m.table.HasTokens c.state) :
    ∃ e j, (m.step c).journal = e :: j ∧ e.isSearch = true := by
  obtain ⟨token, tokens, ht⟩ := hstate
  have htried : ∃ u us, triedTokens (token :: tokens) c.skipBlanks.rest = u :: us := by
    refine List.exists_cons_of_ne_nil ?_
    unfold triedTokens
    cases h : token.lexeme? c.skipBlanks.rest <;> simp [h]
  obtain ⟨u, us, hu⟩ := htried
  have hhead : ∀ j : Journal, ∃ e k, tries (token :: tokens) c.skipBlanks ++ j = e :: k
      ∧ e.isSearch = true := by
    intro j
    unfold tries
    rw [hu]
    exact ⟨_, _, rfl, rfl⟩
  have hs := m.stepped c
  generalize m.step c = q at hs ⊢
  cases hs with
  | lost ht' => rw [ht] at ht'; cases ht'
  | unmatched ht' =>
    obtain rfl := Except.ok.inj (ht.symm.trans ht')
    simpa using hhead []
  | cut ht' | moved ht' | completed ht' =>
    obtain rfl := Except.ok.inj (ht.symm.trans ht')
    exact hhead _

/-- So is the first thing that any number of steps write down. -/
theorem isSearch_of_mem_head? (hstate : m.table.HasTokens c.state) (k : Nat) (j : Journal) :
    ∀ e ∈ ((m.steps (k + 1) c).journal ++ j).head?, e.isSearch = true := by
  obtain ⟨first, rest, hj, hfirst⟩ := exists_search_of_step hstate
  obtain ⟨tail, htail⟩ : ∃ tail, (m.steps (k + 1) c).journal = first :: tail := by
    rw [steps_one_add]
    cases hending : (m.step c).ending with
    | none => exact ⟨_, by rw [Progress.journal_andThen_of_none hending, hj]; rfl⟩
    | some _ => exact ⟨rest, by rw [Progress.andThen_of_some hending, hj]⟩
  intro e he
  rw [htail] at he
  obtain rfl := Option.some.inj he
  exact hfirst

end Machine

/-- **A token accepted in a run on a text** is the one chosen at its place there. -/
theorem Parser.choice_of_mem_accepted {σ ρ ε : Type} {p : Parser σ ρ ε} {text : String} {environment : σ}
    (hlit : p.table.LiteralsHaveText) {a : Nat × StateName × Token × Lexeme}
    (ha : a ∈ (p.parse text environment).journal.accepted) :
    ∃ tokens, p.table.tokens a.2.1 = .ok tokens
      ∧ choose? tokens (text.toList.drop a.1) = some (a.2.2.1, a.2.2.2) := by
  unfold parse at ha
  split at ha
  · simp at ha
  · split at ha
    · simp [Journal.accepted] at ha
    · rw [conclude_accepted, progress_eq_behind hlit] at ha
      exact Machine.choice_of_accepted hlit (p.start_within text _ environment) _ a ha

end CommandGrammar
