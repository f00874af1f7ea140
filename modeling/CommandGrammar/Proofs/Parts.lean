import CommandGrammar.Run

/-!
# The parts of a step

What each part of a step does to the configuration and to the journal.

* `followed` — all that following a transition can come to.
* `Machine.perform` — everything that accepting a token does before the position moves on. It leaves the
  place alone (`perform_place`), writes down that one token (`perform_journal`), keeps or drops the
  captures (`perform_captures`) and ends the run for three reasons only (`perform_ending`).
-/

namespace CommandGrammar

/-! ## Chaining -/

namespace Progress

variable {σ ρ ε : Type} {p : Progress σ ρ ε} {next : Config σ → Progress σ ρ ε}

theorem andThen_of_some {e : Ending ε} (h : p.ending = some e) : p.andThen next = p := by
  simp only [andThen, h]

theorem andThen_of_none (h : p.ending = none) :
    p.andThen next =
      { next p.config with
        journal := p.journal ++ (next p.config).journal
        actions := p.actions ++ (next p.config).actions
        results := p.results ++ (next p.config).results } := by
  simp only [andThen, h]

theorem config_andThen_of_none (h : p.ending = none) :
    (p.andThen next).config = (next p.config).config := by
  rw [andThen_of_none h]

theorem ending_andThen_of_none (h : p.ending = none) :
    (p.andThen next).ending = (next p.config).ending := by
  rw [andThen_of_none h]

theorem journal_andThen_of_none (h : p.ending = none) :
    (p.andThen next).journal = p.journal ++ (next p.config).journal := by
  rw [andThen_of_none h]

@[simp] theorem andThen_note (c : Config σ) (j : Journal) :
    (note c j).andThen next = { next c with journal := j ++ (next c).journal } := by
  simp [note, andThen]

theorem andThen_done : (p.andThen fun d => note d []) = p := by
  cases h : p.ending with
  | none => rw [andThen_of_none h]; cases p; simp_all [note]
  | some e => rw [andThen_of_some h]

/-- Only what the next stretch does from where the first one led matters. -/
theorem andThen_const : (p.andThen fun _ => next p.config) = p.andThen next := rfl

theorem ending_andThen_eq_none :
    (p.andThen next).ending = none ↔ p.ending = none ∧ (next p.config).ending = none := by
  cases h : p.ending with
  | none => simp [andThen_of_none h]
  | some e => simp [andThen_of_some h, h]

theorem ending_andThen_eq_some {e : Ending ε} :
    (p.andThen next).ending = some e
      ↔ p.ending = some e ∨ p.ending = none ∧ (next p.config).ending = some e := by
  cases h : p.ending with
  | none => simp [andThen_of_none h]
  | some e' => simp [andThen_of_some h, h]

/-- What holds of a configuration and is kept by the next stretch holds behind both. -/
theorem config_andThen {P : Config σ → Prop} (hp : P p.config)
    (hnext : ∀ d, P d → P (next d).config) : P (p.andThen next).config := by
  cases h : p.ending with
  | none => rw [andThen_of_none h]; exact hnext p.config hp
  | some e => rw [andThen_of_some h]; exact hp

/-- What holds of all events of both stretches holds of all events of the chain. -/
theorem journal_andThen {P : Event → Prop} (hp : ∀ e ∈ p.journal, P e)
    (hnext : ∀ d, ∀ e ∈ (next d).journal, P e) : ∀ e ∈ (p.andThen next).journal, P e := by
  cases h : p.ending with
  | none =>
    rw [andThen_of_none h]
    intro e he
    rcases List.mem_append.mp he with he | he
    · exact hp e he
    · exact hnext p.config e he
  | some e => rw [andThen_of_some h]; exact hp

end Progress

namespace Journal

@[simp] theorem accepted_nil : accepted [] = [] := rfl

theorem accepted_eq_nil {j : Journal} (h : ∀ e ∈ j, ∀ p s t l, e ≠ .matched p s t l) :
    accepted j = [] := by
  unfold accepted
  rw [List.filterMap_eq_nil_iff]
  intro e he
  cases e with
  | matched p s t l => exact absurd rfl (h _ he p s t l)
  | _ => rfl

@[simp] theorem accepted_matched (p : Nat) (s : StateName) (t : Token) (l : Lexeme) (j : Journal) :
    accepted (.matched p s t l :: j) = (p, s, t, l) :: accepted j := rfl

end Journal

/-! ## Transitions and captures -/

/-- Whether the captures are dropped behind a transition: behind every action, and on the way to the
initial state. -/
def Table.resets (t : Table) : Transition → Bool
  | .goto state => state = t.initial
  | .invoke .. => true

/-- What a token with a lexeme puts among the captures. -/
def Token.capture? (token : Token) (lexeme : Lexeme) : Option (String × String) :=
  match token.capture, lexeme.value with
  | some identifier, some value => some (identifier, value)
  | _, _ => none

/-- The dispatcher never fails on an action that the table names, and the hook never fails. -/
def Machine.Unfailing {σ ρ ε : Type} (m : Machine σ ρ ε) : Prop :=
  (∀ action name, m.table.actionName action = .ok name →
      ∀ captures s, ∃ r, (m.callbacks.dispatch action captures s).answer = .ok r)
    ∧ ∀ hook, m.callbacks.onBoundary = some hook → ∀ s, (hook s).2 = .ok ()

namespace Captures

@[simp] theorem capacity_clear (c : Captures) : c.clear.capacity = c.capacity := rfl

/-- Captures with nothing held are the same as any others that are dropped, at one capacity. -/
theorem clear_eq {c d : Captures} (hcapacity : c.capacity = d.capacity) (hd : d.toList = []) :
    c.clear = d := by
  obtain ⟨capacity, ⟨entries, nodup⟩, pos, le⟩ := d
  obtain rfl : entries = [] := hd
  exact Captures.ext hcapacity rfl

/-- Captures are refused for an identifier that is held, else for want of room, and for nothing else. -/
theorem push_eq_error_iff {c : Captures} {identifier value : String} {e : CaptureError} :
    c.push identifier value = .error e
      ↔ identifier ∈ c.toList.map Prod.fst ∧ e = .duplicate identifier
        ∨ identifier ∉ c.toList.map Prod.fst ∧ c.toList.length = c.capacity
          ∧ e = .overflow identifier c.capacity := by
  have hle : c.toList.length ≤ c.capacity := c.size_le
  have hmem : c.contains identifier = true ↔ identifier ∈ c.toList.map Prod.fst := by
    simp [contains, OrderedMap.contains, OrderedMap.keys, toList]
  unfold push
  by_cases hd : c.contains identifier = true
  · rw [dif_pos hd]
    simp [hmem.mp hd, eq_comm]
  · rw [dif_neg hd]
    have hd' : identifier ∉ c.toList.map Prod.fst := fun h => hd (hmem.mpr h)
    by_cases hs : c.capacity ≤ c.size
    · rw [dif_pos hs]
      have hfull : c.toList.length = c.capacity := Nat.le_antisymm hle hs
      simp [hd', hfull, eq_comm]
    · rw [dif_neg hs]
      have hroom : c.toList.length ≠ c.capacity := fun h => hs (Nat.le_of_eq h.symm)
      simp [hd', hroom]

theorem capacity_push {c c' : Captures} {identifier value : String}
    (h : c.push identifier value = .ok c') : c'.capacity = c.capacity := by
  unfold push at h
  split at h
  · simp at h
  · split at h
    · simp at h
    · rw [← Except.ok.inj h]

end Captures

/-! ## The parts of a step -/

namespace Machine

variable {σ ρ ε : Type} (m : Machine σ ρ ε)

/-- Two configurations at the same place of the text, with the same room for captures. -/
def SamePlace (c d : Config σ) : Prop :=
  d.position = c.position ∧ d.rest = c.rest ∧ d.captures.capacity = c.captures.capacity

/-- An event that is no match. -/
def NoMatch (e : Event) : Prop := ∀ p s t l, e ≠ .matched p s t l

theorem dropCaptures_journal (c : Config σ) :
    ∀ e ∈ (dropCaptures c : Progress σ ρ ε).journal, ∃ n, e = .cleared n := by
  intro e he
  simp only [dropCaptures, Progress.note] at he
  split at he
  · simp at he
  · exact ⟨_, List.mem_singleton.mp he⟩

theorem hold_eq (token : Token) (lexeme : Lexeme) (c : Config σ) :
    (hold token lexeme c : Progress σ ρ ε) =
      match token.capture? lexeme with
      | some (identifier, value) =>
        match c.captures.push identifier value with
        | .ok captures => .note { c with captures } []
        | .error e => .stop c (.abandoned (.capture e))
      | none => .note c [] := by
  unfold hold Token.capture?
  cases token.capture with
  | none => rfl
  | some identifier => cases lexeme.value <;> rfl

/-- Holding fails as `push` does, and leaves everything as it was. -/
theorem hold_of_refused {token : Token} {lexeme : Lexeme} {c : Config σ} {identifier value : String}
    {e : CaptureError} (h : token.capture? lexeme = some (identifier, value))
    (hp : c.captures.push identifier value = .error e) :
    (hold token lexeme c : Progress σ ρ ε) = .stop c (.abandoned (.capture e)) := by
  rw [hold_eq, h]
  simp only [hp]

/-- Otherwise the capture of the token, if it has one, is put behind those held. -/
theorem hold_of_room {token : Token} {lexeme : Lexeme} {c : Config σ}
    (h : ∀ identifier value e, token.capture? lexeme = some (identifier, value)
      → c.captures.push identifier value ≠ .error e) :
    ∃ captures, (hold token lexeme c : Progress σ ρ ε) = .note { c with captures } []
      ∧ captures.toList = c.captures.toList ++ (token.capture? lexeme).toList
      ∧ captures.capacity = c.captures.capacity := by
  rw [hold_eq]
  cases hc : token.capture? lexeme with
  | none => exact ⟨c.captures, rfl, by simp, rfl⟩
  | some capture =>
    obtain ⟨identifier, value⟩ := capture
    cases hp : c.captures.push identifier value with
    | error e => exact absurd hp (h identifier value e hc)
    | ok captures =>
      exact ⟨captures, by simp only [hp], Captures.toList_push hp, Captures.capacity_push hp⟩

/-- What is written down when an action is invoked: the invocation, what the dispatcher says, and how
many captures are dropped behind it. -/
def invocation (action : ActionId) (name : String) (c : Config σ) : Journal :=
  .invoked action name c.captures.toList
    :: ((m.callbacks.dispatch action c.captures c.environment).journal : Journal)
    ++ (dropCaptures c : Progress σ ρ ε).journal

/-- All that following a transition can come to. -/
inductive Followed (c : Config σ) : Transition → Progress σ ρ ε → Prop where
  | home : Followed c (.goto m.table.initial) (dropCaptures { c with state := m.table.initial })
  | away {state : StateName} (h : state ≠ m.table.initial) :
    Followed c (.goto state) (.note { c with state } [])
  | unknown {action : ActionId} {next : Option StateName} {e : TableError}
    (h : m.table.actionName action = .error e) :
    Followed c (.invoke action next) (.stop c (.abandoned (.table e)))
  | failed {action : ActionId} {next : Option StateName} {name : String} {e : ε}
    (hn : m.table.actionName action = .ok name)
    (h : (m.callbacks.dispatch action c.captures c.environment).answer = .error e) :
    Followed c (.invoke action next)
      { config := { c with
          captures := c.captures.clear
          environment := (m.callbacks.dispatch action c.captures c.environment).environment }
        ending := some (.abandoned (.callback e))
        journal := m.invocation action name c }
  | performed {action : ActionId} {next : Option StateName} {name : String} {result : Option ρ}
    (hn : m.table.actionName action = .ok name)
    (h : (m.callbacks.dispatch action c.captures c.environment).answer = .ok result) :
    Followed c (.invoke action next)
      { config := { c with
          state := m.table.nextStateAfter next
          captures := c.captures.clear
          environment := (m.callbacks.dispatch action c.captures c.environment).environment }
        journal := m.invocation action name c
        actions := [name]
        results := result.toList }

theorem followed (t : Transition) (c : Config σ) : m.Followed c t (m.follow t c) := by
  cases t with
  | goto state =>
    simp only [follow]
    split
    · next h => subst h; exact .home
    · next h => exact .away h
  | invoke action next =>
    simp only [follow, invoke]
    split
    · next e hn => exact .unknown hn
    · next name hn =>
      -- The captures are dropped in front of the answer, so both branches below see them dropped.
      simp only [Progress.note, Progress.andThen, dropCaptures]
      split
      · next e ha =>
        simp only [Progress.stop, List.append_nil]
        exact .failed hn ha
      · next result ha =>
        simp only [List.append_nil, List.nil_append]
        exact .performed hn ha

namespace Followed

variable {m} {c : Config σ} {t : Transition} {q : Progress σ ρ ε}

theorem place (h : m.Followed c t q) : SamePlace c q.config := by
  cases h <;> exact ⟨rfl, rfl, rfl⟩

theorem noMatch_of_mem_invocation {action : ActionId} {name : String} :
    ∀ e ∈ m.invocation action name c, NoMatch e := by
  intro e he p s t l
  simp only [invocation, List.mem_cons, List.mem_append, List.mem_map] at he
  rcases he with (rfl | ⟨x, _, rfl⟩) | he
  · simp
  · simp
  · obtain ⟨n, rfl⟩ := dropCaptures_journal c e he
    simp

theorem noMatch (h : m.Followed c t q) : ∀ e ∈ q.journal, NoMatch e := by
  cases h with
  | home =>
    intro e he p s t l
    obtain ⟨n, rfl⟩ := dropCaptures_journal _ e he
    simp
  | away => intro e he; simp [Progress.note] at he
  | unknown => intro e he; simp [Progress.stop] at he
  | failed | performed => exact noMatch_of_mem_invocation

/-- The only action that is invoked is the one that the transition names, under the name that the table has
for it, and it sees the captures held. -/
theorem invoked (h : m.Followed c t q) {action : ActionId} {name : String}
    {held : List (String × String)} (hi : .invoked action name held ∈ q.journal) :
    held = c.captures.toList ∧ m.table.actionName action = .ok name
      ∧ ∃ next, t = .invoke action next := by
  -- The dispatcher's own events and those of the dropped captures are no invocations.
  have key : ∀ a n, .invoked action name held ∈ m.invocation a n c →
      action = a ∧ name = n ∧ held = c.captures.toList := by
    intro a n he
    simp only [invocation, List.mem_cons, List.mem_append, List.mem_map] at he
    rcases he with (he | ⟨x, _, hx⟩) | he
    · cases he; exact ⟨rfl, rfl, rfl⟩
    · cases hx
    · obtain ⟨k, hk⟩ := dropCaptures_journal c _ he
      cases hk
  cases h with
  | home =>
    obtain ⟨k, hk⟩ := dropCaptures_journal _ _ hi
    cases hk
  | away => simp [Progress.note] at hi
  | unknown => simp [Progress.stop] at hi
  | failed hn | performed hn =>
    obtain ⟨rfl, rfl, hheld⟩ := key _ _ hi
    exact ⟨hheld, hn, _, rfl⟩

theorem state (h : m.Followed c t q) (hq : q.ending = none) : q.config.state = m.table.target t := by
  cases h with
  | home | away | performed => rfl
  | unknown | failed => simp [Progress.stop] at hq

/-- Behind a transition the captures are dropped or as before, unless the action is unknown. -/
theorem captures (h : m.Followed c t q) (hq : ∀ e, q.ending ≠ some (.abandoned (.table e))) :
    q.config.captures.toList = if m.table.resets t then [] else c.captures.toList := by
  cases h with
  | home => simp [Table.resets, dropCaptures, Progress.note]
  | away h => simp [Table.resets, h, Progress.note]
  | unknown => exact absurd rfl (hq _)
  | failed | performed => simp [Table.resets]

theorem ending (h : m.Followed c t q) {e : Ending ε} (hq : q.ending = some e) :
    (∃ action next x, t = .invoke action next ∧ m.table.actionName action = .error x
        ∧ e = .abandoned (.table x))
      ∨ ∃ x, e = .abandoned (.callback x) := by
  cases h with
  | home | away | performed => simp [dropCaptures, Progress.note] at hq
  | unknown h =>
    exact Or.inl ⟨_, _, _, rfl, h, (Option.some.inj hq).symm⟩
  | failed => exact Or.inr ⟨_, (Option.some.inj hq).symm⟩

end Followed

/-- The hook is not called, or it is and may fail. -/
theorem signal_cases (token : Token) (lexeme : Lexeme) (c : Config σ) :
    m.signal token lexeme c = .note c []
      ∨ ∃ hook, m.callbacks.onBoundary = some hook ∧ token.kind = .commandEnd
        ∧ lexeme.completesCommand = true
        ∧ m.signal token lexeme c =
          { config := { c with environment := (hook c.environment).1 }
            journal := [.boundary c.position]
            ending := match (hook c.environment).2 with
              | .ok () => none
              | .error e => some (.abandoned (.callback e)) } := by
  unfold signal
  split
  · next hook hh =>
    split
    · next hend =>
      refine Or.inr ⟨hook, hh, hend.1, hend.2, ?_⟩
      simp only [Progress.andThen_note]
      cases (hook c.environment).2 <;> rfl
    · exact Or.inl rfl
  · exact Or.inl rfl

variable {m} {token : Token} {lexeme : Lexeme} {c : Config σ}

theorem signal_config (m : Machine σ ρ ε) (token : Token) (lexeme : Lexeme) (c : Config σ) :
    ∃ s, (m.signal token lexeme c).config = { c with environment := s } := by
  rcases m.signal_cases token lexeme c with h | ⟨hook, _, _, _, h⟩
  · exact ⟨c.environment, by rw [h]; rfl⟩
  · exact ⟨(hook c.environment).1, by rw [h]⟩

theorem signal_journal : ∀ e ∈ (m.signal token lexeme c).journal, e = .boundary c.position := by
  intro e he
  rcases m.signal_cases token lexeme c with h | ⟨_, _, _, _, h⟩
  · rw [h] at he; simp [Progress.note] at he
  · rw [h] at he; exact List.mem_singleton.mp he

theorem signal_ending {e : Ending ε} (he : (m.signal token lexeme c).ending = some e) :
    ∃ x, e = .abandoned (.callback x) := by
  rcases m.signal_cases token lexeme c with h | ⟨hook, _, _, _, h⟩
  · rw [h] at he; simp [Progress.note] at he
  · rw [h] at he
    cases hx : (hook c.environment).2 with
    | ok => simp [hx] at he
    | error x => exact ⟨x, by simpa [hx, eq_comm] using he⟩

theorem signal_of_unfailing (h : m.Unfailing) :
    (m.signal token lexeme c).ending = none := by
  rcases m.signal_cases token lexeme c with hs | ⟨hook, hh, _, _, hs⟩
  · rw [hs]; rfl
  · rw [hs, h.2 hook hh c.environment]

variable (m) (token lexeme c)

/-! ## Performing a token -/

/-- What accepting a token does before the position moves on. -/
def perform (token : Token) (lexeme : Lexeme) (c : Config σ) : Progress σ ρ ε :=
  Progress.note c [.matched c.position c.state token lexeme]
    |>.andThen (hold token lexeme)
    |>.andThen (m.follow token.transition)
    |>.andThen (m.signal token lexeme)

theorem accept_eq (token : Token) (lexeme : Lexeme) (c : Config σ) :
    m.accept token lexeme c = (m.perform token lexeme c).andThen (advance lexeme) := rfl

/-- Whether there is room for the capture of a token, if it has one. -/
def HasRoom (token : Token) (lexeme : Lexeme) (c : Config σ) : Prop :=
  ∀ identifier value e, token.capture? lexeme = some (identifier, value)
    → c.captures.push identifier value ≠ .error e

variable {m token lexeme c}

theorem perform_of_refused {identifier value : String} {e : CaptureError}
    (h : token.capture? lexeme = some (identifier, value))
    (hp : c.captures.push identifier value = .error e) :
    m.perform token lexeme c =
      { config := c
        ending := some (.abandoned (.capture e))
        journal := [.matched c.position c.state token lexeme] } := by
  rw [perform, Progress.andThen_note, hold_of_refused h hp]
  rfl

theorem perform_of_capture?_eq_none (h : token.capture? lexeme = none) :
    m.perform token lexeme c =
      (Progress.note c [.matched c.position c.state token lexeme]).andThen
        fun d => (m.follow token.transition d).andThen (m.signal token lexeme) := by
  have hh : (hold token lexeme c : Progress σ ρ ε) = .note c [] := by
    rw [hold_eq, h]
  rw [perform, Progress.andThen_note, hh, ← Progress.andThen_assoc]
  rfl

theorem perform_of_room (h : HasRoom token lexeme c) :
    ∃ captures : Captures, captures.toList = c.captures.toList ++ (token.capture? lexeme).toList
      ∧ captures.capacity = c.captures.capacity
      ∧ m.perform token lexeme c =
        (Progress.note { c with captures } [.matched c.position c.state token lexeme]).andThen
          fun d => (m.follow token.transition d).andThen (m.signal token lexeme) := by
  obtain ⟨captures, hh, hl, hc⟩ := hold_of_room (ρ := ρ) (ε := ε) h
  refine ⟨captures, hl, hc, ?_⟩
  rw [perform, Progress.andThen_note, hh, ← Progress.andThen_assoc]
  rfl

theorem room_or_refused (token : Token) (lexeme : Lexeme) (c : Config σ) :
    HasRoom token lexeme c
      ∨ ∃ identifier value e, token.capture? lexeme = some (identifier, value)
        ∧ c.captures.push identifier value = .error e := by
  by_cases h : HasRoom token lexeme c
  · exact Or.inl h
  · simp only [HasRoom, Classical.not_forall, ne_eq, Classical.not_not] at h
    obtain ⟨identifier, value, e, hc, hp⟩ := h
    exact Or.inr ⟨identifier, value, e, hc, hp⟩

/-- **Accepting a token leaves the place alone** until the position moves on. -/
theorem perform_place (m : Machine σ ρ ε) (token : Token) (lexeme : Lexeme) (c : Config σ) :
    SamePlace c (m.perform token lexeme c).config := by
  rcases room_or_refused token lexeme c with h | ⟨_, _, _, h, hp⟩
  · obtain ⟨captures, _, hcap, hq⟩ := perform_of_room (m := m) h
    rw [hq, Progress.andThen_note]
    obtain ⟨h1, h2, h3⟩ := (m.followed token.transition { c with captures }).place
    refine Progress.config_andThen (P := SamePlace c) ⟨h1, h2, h3.trans hcap⟩ ?_
    intro d hd
    obtain ⟨s, hs⟩ := signal_config m token lexeme d
    rw [hs]; exact hd
  · rw [perform_of_refused h hp]; exact ⟨rfl, rfl, rfl⟩

/-- **Accepting a token matches that token first and no other**, and the action that it may invoke sees the
captures held with the token's own behind them. -/
theorem perform_journal (m : Machine σ ρ ε) (token : Token) (lexeme : Lexeme) (c : Config σ) :
    ∃ tail, (m.perform token lexeme c).journal = .matched c.position c.state token lexeme :: tail
      ∧ (∀ e ∈ tail, NoMatch e)
      ∧ ∀ action name held, .invoked action name held ∈ tail →
        held = c.captures.toList ++ (token.capture? lexeme).toList
          ∧ m.table.actionName action = .ok name
          ∧ ∃ next, token.transition = .invoke action next := by
  rcases room_or_refused token lexeme c with h | ⟨_, _, _, h, hp⟩
  · obtain ⟨captures, hl, _, hq⟩ := perform_of_room (m := m) h
    have hf := m.followed token.transition { c with captures }
    -- Behind the match stand the events of the transition and then that of the hook.
    refine ⟨_, by rw [hq, Progress.andThen_note]; rfl, ?_, ?_⟩
    · refine Progress.journal_andThen hf.noMatch ?_
      intro d e he p s t l
      rw [signal_journal e he]; simp
    · intro action name held
      have key : ∀ e ∈ ((m.follow token.transition { c with captures }).andThen
          (m.signal token lexeme)).journal, e = .invoked action name held →
            held = captures.toList ∧ m.table.actionName action = .ok name
              ∧ ∃ next, token.transition = .invoke action next := by
        refine Progress.journal_andThen (fun e he heq => hf.invoked (heq ▸ he)) ?_
        intro d e he heq
        rw [signal_journal e he] at heq
        cases heq
      intro he
      rw [← hl]
      exact key _ he rfl
  · rw [perform_of_refused h hp]
    exact ⟨[], rfl, by simp, by simp⟩

theorem perform_accepted :
    (m.perform token lexeme c).journal.accepted = [(c.position, c.state, token, lexeme)] := by
  obtain ⟨tail, hj, hn, _⟩ := perform_journal m token lexeme c
  rw [hj, Journal.accepted_matched, Journal.accepted_eq_nil hn]

theorem perform_state (h : (m.perform token lexeme c).ending = none) :
    (m.perform token lexeme c).config.state = m.table.target token.transition := by
  rcases room_or_refused token lexeme c with hr | ⟨_, _, _, hc, hp⟩
  · obtain ⟨captures, _, _, hq⟩ := perform_of_room (m := m) hr
    rw [hq, Progress.andThen_note] at h ⊢
    have hf := m.followed token.transition { c with captures }
    have hnone := (Progress.ending_andThen_eq_none.mp h).1
    refine Progress.config_andThen (P := fun d => d.state = m.table.target token.transition)
      (hf.state hnone) ?_
    intro d hd
    obtain ⟨s, hs⟩ := signal_config m token lexeme d
    rw [hs]; exact hd
  · rw [perform_of_refused hc hp] at h
    simp at h

/-- **Accepting a token ends a run for three reasons only**: its capture is refused, its action is unknown,
or a callback fails. -/
theorem perform_ending {e : Ending ε} (h : (m.perform token lexeme c).ending = some e) :
    (∃ identifier value x, token.capture? lexeme = some (identifier, value)
        ∧ c.captures.push identifier value = .error x ∧ e = .abandoned (.capture x))
      ∨ (∃ action next x, token.transition = .invoke action next
        ∧ m.table.actionName action = .error x ∧ e = .abandoned (.table x))
      ∨ ∃ x, e = .abandoned (.callback x) := by
  rcases room_or_refused token lexeme c with hr | ⟨identifier, value, x, hc, hp⟩
  · obtain ⟨captures, _, _, hq⟩ := perform_of_room (m := m) hr
    rw [hq, Progress.andThen_note] at h
    rcases Progress.ending_andThen_eq_some.mp h with hf | ⟨_, hs⟩
    · exact Or.inr ((m.followed token.transition _).ending hf)
    · exact Or.inr (Or.inr (signal_ending hs))
  · rw [perform_of_refused hc hp] at h
    exact Or.inl ⟨identifier, value, x, hc, hp, (Option.some.inj h).symm⟩

/-- Behind an accepted token the captures are those of before and its own, or none if its transition drops
them. -/
theorem perform_captures
    (hcapture : ∀ x, (m.perform token lexeme c).ending ≠ some (.abandoned (.capture x)))
    (htable : ∀ x, (m.perform token lexeme c).ending ≠ some (.abandoned (.table x))) :
    (m.perform token lexeme c).config.captures.toList =
      if m.table.resets token.transition then []
      else c.captures.toList ++ (token.capture? lexeme).toList := by
  rcases room_or_refused token lexeme c with hr | ⟨identifier, value, x, hc, hp⟩
  · obtain ⟨captures, hl, _, hq⟩ := perform_of_room (m := m) hr
    rw [hq, Progress.andThen_note] at htable ⊢
    have hf := m.followed token.transition { c with captures }
    have hnt : ∀ x, (m.follow token.transition { c with captures }).ending
        ≠ some (.abandoned (.table x)) :=
      fun x hx => htable x (Progress.ending_andThen_eq_some.mpr (Or.inl hx))
    rw [← hl]
    refine Progress.config_andThen (P := fun d => d.captures.toList = _) (hf.captures hnt) ?_
    intro d hd
    obtain ⟨s, hs⟩ := signal_config m token lexeme d
    rw [hs]; exact hd
  · exact absurd (by rw [perform_of_refused hc hp]) (hcapture x)

/-- A transition whose action is known can be followed, if no callback fails. -/
theorem follow_ending_eq_none (hcallbacks : m.Unfailing) {t : Transition}
    (hknown : ∀ action next, t = .invoke action next → ∃ name, m.table.actionName action = .ok name)
    (c : Config σ) : (m.follow t c).ending = none := by
  have hf := m.followed t c
  generalize m.follow t c = q at hf ⊢
  cases hf with
  | home | away | performed => rfl
  | unknown h =>
    obtain ⟨name, hn⟩ := hknown _ _ rfl
    rw [hn] at h; cases h
  | @failed action _ name _ hn h =>
    obtain ⟨r, hr⟩ := hcallbacks.1 action name hn c.captures c.environment
    rw [hr] at h; cases h

/-- A token with room for its capture and a known action is accepted, if no callback fails. -/
theorem perform_ending_eq_none (hcallbacks : m.Unfailing) (hr : HasRoom token lexeme c)
    (hknown : ∀ action next, token.transition = .invoke action next
      → ∃ name, m.table.actionName action = .ok name) :
    (m.perform token lexeme c).ending = none := by
  obtain ⟨captures, _, _, hq⟩ := perform_of_room (m := m) hr
  rw [hq, Progress.andThen_note]
  exact Progress.ending_andThen_eq_none.mpr
    ⟨follow_ending_eq_none hcallbacks hknown _, signal_of_unfailing hcallbacks⟩

end Machine

end CommandGrammar
